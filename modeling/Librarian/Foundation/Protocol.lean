import Librarian.Foundation.Program

/-! # Rely-guarantee reasoning about one program among others

A protocol describes the world as one program sees it: `rely` is what the others may
do between two of its calls, `pre` what the program promises before a call, and `post`
what a call may answer. `Safe` says that from a view every continuation keeps its
promises and ends with the stated result, under any interference.
-/
namespace Librarian.Foundation

/-- One program's contract with its surroundings. Interference is a preorder. -/
structure Protocol (Op : Type) (Ans : Op → Type) (View : Type) where
  rely : View → View → Prop
  rely_refl : ∀ v, rely v v
  rely_trans : ∀ {u v w}, rely u v → rely v w → rely u w
  pre : View → Op → Prop
  post : View → (op : Op) → Ans op → View → Prop

namespace Program
variable {Op : Type} {Ans : Op → Type} {View α β ε : Type} {P : Protocol Op Ans View}

/-- From view `v` the program makes only permitted calls and returns only results in `Q`. -/
def Safe (P : Protocol Op Ans View) (Q : View → α → Prop) : Program Op Ans α → View → Prop
  | .ret a, v => ∀ v', P.rely v v' → Q v' a
  | .call op next, v => ∀ v', P.rely v v' →
      P.pre v' op ∧ ∀ ans v'', P.post v' op ans v'' → Safe P Q (next ans) v''

/-- Safety survives whatever the surroundings may do. -/
theorem Safe.stable {Q : View → α → Prop} {p : Program Op Ans α} {v w : View}
    (h : p.Safe P Q v) (hr : P.rely v w) : p.Safe P Q w := by
  cases p with
  | ret a => exact fun v' hw => h v' (P.rely_trans hr hw)
  | call op next => exact fun v' hw => h v' (P.rely_trans hr hw)

theorem Safe.mono {Q R : View → α → Prop} {p : Program Op Ans α} {v : View}
    (h : p.Safe P Q v) (hQ : ∀ v a, Q v a → R v a) : p.Safe P R v := by
  induction p generalizing v with
  | ret a => exact fun v' hr => hQ v' a (h v' hr)
  | call op next ih =>
    intro v' hr
    obtain ⟨hpre, hnext⟩ := h v' hr
    exact ⟨hpre, fun ans v'' hp => ih ans (hnext ans v'' hp)⟩

theorem Safe.bind {Q : View → α → Prop} {R : View → β → Prop} {p : Program Op Ans α}
    {f : α → Program Op Ans β} {v : View} (h : p.Safe P Q v)
    (hf : ∀ v a, Q v a → (f a).Safe P R v) : (p.bind f).Safe P R v := by
  induction p generalizing v with
  | ret a => exact hf v a (h v (P.rely_refl v))
  | call op next ih =>
    intro v' hr
    obtain ⟨hpre, hnext⟩ := h v' hr
    exact ⟨hpre, fun ans v'' hp => ih ans (hnext ans v'' hp)⟩

/-- A result that holds now and is stable may be returned. -/
theorem Safe.ret {Q : View → α → Prop} {a : α} {v : View} (h : ∀ v', P.rely v v' → Q v' a) :
    (Program.ret a).Safe P Q v := h

/-- One call: promise `pre` at every view the surroundings may lead to, then go on from
each answer. -/
theorem Safe.call {Q : View → α → Prop} {op : Op} {next : Ans op → Program Op Ans α} {v : View}
    (h : ∀ v', P.rely v v' → P.pre v' op ∧
      ∀ ans v'', P.post v' op ans v'' → (next ans).Safe P Q v'') :
    (Program.call op next).Safe P Q v := h

theorem Safe.of_ret {Q : View → α → Prop} {a : α} {v : View} (h : (Program.ret a).Safe P Q v) :
    Q v a := h v (P.rely_refl v)

theorem Safe.of_call {Q : View → α → Prop} {op : Op} {next : Ans op → Program Op Ans α} {v : View}
    (h : (Program.call op next).Safe P Q v) : P.pre v op ∧
      ∀ ans v'', P.post v op ans v'' → (next ans).Safe P Q v'' := h v (P.rely_refl v)

/-- Sequencing for programs that stop at the first error: the error case is carried to the
end unchanged. -/
theorem Safe.bindExcept {Q : View → Except ε α → Prop} {R : View → Except ε β → Prop}
    {p : Fallible Op Ans ε α} {f : α → Fallible Op Ans ε β} {v : View}
    (h : Safe P Q p.run v) (hok : ∀ v a, Q v (.ok a) → Safe P R (f a).run v)
    (herr : ∀ v e, Q v (.error e) → Safe P R (.ret (.error e)) v) :
    Safe P R (p >>= f).run v := by
  change Safe P R (Program.bind p.run (ExceptT.bindCont f)) v
  refine Safe.bind h ?_
  intro v a hQ
  cases a with
  | ok a => exact hok v a hQ
  | error e => exact herr v e hQ

/-- A part whose calls need nothing and change nothing but what others may change. -/
theorem Safe.embed {Op₀ : Type} {Ans₀ : Op₀ → Type} {f : Op₀ → Op}
    {g : (op : Op₀) → Ans (f op) → Ans₀ op} {p : Program Op₀ Ans₀ α} {v : View}
    (hpre : ∀ v op, P.pre v (f op))
    (hpost : ∀ v op ans w, P.post v (f op) ans w → P.rely v w) :
    (p.embed f g).Safe P (fun w _ => P.rely v w) v := by
  induction p generalizing v with
  | ret a => exact Safe.ret fun w hw => hw
  | call op next ih =>
    apply Safe.call
    intro w hw
    refine ⟨hpre w op, ?_⟩
    intro ans x hx
    exact (ih (g op ans)).mono fun y a hy => P.rely_trans hw (P.rely_trans (hpost w op ans x hx) hy)

-- proofs go through the rules, never through the definition
attribute [irreducible] Safe

end Program
end Librarian.Foundation
