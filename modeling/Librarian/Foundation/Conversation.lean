import Librarian.Foundation.Program
import Mathlib.Data.List.Pairwise

/-! # The shape of whole conversations

Two properties of a program that its parts pass on to the whole: it stops at the first answer
that is an error, and its calls come in the order of their stages.
-/
namespace Librarian.Foundation.Program
variable {Op : Type} {Ans : Op → Type} {α β ε : Type}

section Parts
variable {talk : List ((op : Op) × Ans op)}

/-- A sequence that succeeds runs through both of its parts. -/
theorem runs_bind_ok {part : Fallible Op Ans ε α} {f : α → Fallible Op Ans ε β} {b : β}
    (h : Runs (part >>= f).run talk (.ok b)) :
    ∃ first rest a, talk = first ++ rest ∧ Runs part.run first (.ok a) ∧ Runs (f a).run rest (.ok b) := by
  change Runs (Program.bind part.run (ExceptT.bindCont f)) talk (.ok b) at h
  rcases runs_bind.mp h with ⟨first, rest, res, rfl, hpart, hrest⟩
  cases res with
  | ok a => exact ⟨first, rest, a, rfl, hpart, hrest⟩
  | error e =>
    rcases runs_ret.mp hrest with ⟨-, heq⟩
    cases heq

/-- What a program says among more calls, it would say on its own. -/
theorem Runs.of_embed {Op' : Type} {Ans' : Op' → Type} {f : Op → Op'}
    {g : (op : Op) → Ans' (f op) → Ans op} {p : Program Op Ans α} {a : α}
    {talk : List ((op : Op') × Ans' op)} (h : Runs (p.embed f g) talk a) :
    ∃ own, Runs p own a ∧ ∀ x ∈ own, ∃ ans, ⟨f x.1, ans⟩ ∈ talk ∧ g x.1 ans = x.2 := by
  induction p generalizing talk with
  | ret b =>
    rcases runs_ret.mp h with ⟨rfl, rfl⟩
    exact ⟨[], .ret _, by simp⟩
  | call op next ih =>
    rcases runs_call.mp h with ⟨ans, rest, rfl, hrest⟩
    rcases ih _ hrest with ⟨own, hown, hall⟩
    refine ⟨⟨op, g op ans⟩ :: own, .call _ hown, List.forall_mem_cons.mpr ⟨⟨ans, by simp, rfl⟩, ?_⟩⟩
    intro x hx
    rcases hall x hx with ⟨ans', hmem, heq⟩
    exact ⟨ans', List.mem_cons_of_mem _ hmem, heq⟩

end Parts

/-- The error, if it is one. -/
def errorOf : Except ε α → Option ε
  | .ok _ => none
  | .error e => some e

theorem errorOf_eq_some {res : Except ε α} {e : ε} : errorOf res = some e ↔ res = .error e := by
  cases res <;> simp [errorOf]

/-- An answer that `refusal` gives an error for ends the program with that error, and nothing else
does. -/
def FailsFast (refusal : (op : Op) → Ans op → Option ε) : Program Op Ans (Except ε α) → Prop
  | .ret (.ok _) => True
  | .ret (.error _) => False
  | .call op next => ∀ ans, (∀ e, refusal op ans = some e → next ans = .ret (.error e)) ∧
      (refusal op ans = none → FailsFast refusal (next ans))

/-- A conversation in which only the last answer may be an error, which is then the result. -/
inductive Prompt (refusal : (op : Op) → Ans op → Option ε) :
    List ((op : Op) × Ans op) → Except ε α → Prop
  | ok {talk : List ((op : Op) × Ans op)} {a : α} (h : ∀ x ∈ talk, refusal x.1 x.2 = none) :
      Prompt refusal talk (.ok a)
  | error {l : List ((op : Op) × Ans op)} {last : (op : Op) × Ans op} {e : ε}
      (h : ∀ x ∈ l, refusal x.1 x.2 = none) (hlast : refusal last.1 last.2 = some e) :
      Prompt refusal (l ++ [last]) (.error e)

section FailsFast
variable {refusal : (op : Op) → Ans op → Option ε}

theorem FailsFast.bind {part : Fallible Op Ans ε α} {f : α → Fallible Op Ans ε β}
    (h : FailsFast refusal part.run) (hf : ∀ a, FailsFast refusal (f a).run) :
    FailsFast refusal (part >>= f).run := by
  change FailsFast refusal (Program.bind part.run (ExceptT.bindCont f))
  generalize part.run = p at h
  induction p with
  | ret res =>
    cases res with
    | ok a => exact hf a
    | error e => exact h.elim
  | call op next ih =>
    intro ans
    constructor
    · intro e he
      have hnext := (h ans).1 e he
      simp only [hnext]
      rfl
    · exact fun hnone => ih ans ((h ans).2 hnone)

theorem failsFast_pure (a : α) : FailsFast refusal (pure a : Fallible Op Ans ε α).run := trivial

theorem failsFast_ret (res : Except ε α) :
    (∀ e, errorOf res = some e → (Program.ret res : Program Op Ans (Except ε α)) = .ret (.error e)) ∧
      (errorOf res = none → FailsFast refusal (.ret res)) := by
  constructor
  · intro e he
    exact congrArg Program.ret (errorOf_eq_some.mp he)
  · intro hnone
    cases res with
    | ok a => trivial
    | error e => cases hnone

/-- A single call whose answer is read by `f`. -/
theorem failsFast_call {op : Op} {f : Ans op → Except ε α}
    (h : ∀ ans, refusal op ans = errorOf (f ans)) :
    FailsFast refusal (ExceptT.mk (.call op fun ans => .ret (f ans)) : Fallible Op Ans ε α).run := by
  intro ans
  rw [h ans]
  exact failsFast_ret (f ans)

/-- A single call whose answer is read in two steps. -/
theorem failsFast_read {op : Op} {f : Ans op → Except ε α} {g : α → Except ε β} {γ : Type}
    {k : β → Fallible Op Ans ε γ} (h : ∀ ans, refusal op ans = errorOf ((f ans).bind g))
    (hk : ∀ b, FailsFast refusal (k b).run) :
    FailsFast refusal ((ExceptT.mk (.call op fun ans => .ret (f ans)) : Fallible Op Ans ε α) >>=
      fun a => (ExceptT.mk (.ret (g a)) : Fallible Op Ans ε β) >>= k).run := by
  have heq : ((ExceptT.mk (.call op fun ans => .ret (f ans)) : Fallible Op Ans ε α) >>=
      fun a => (ExceptT.mk (.ret (g a)) : Fallible Op Ans ε β) >>= k) =
      (ExceptT.mk (.call op fun ans => .ret ((f ans).bind g)) : Fallible Op Ans ε β) >>= k := by
    refine congrArg (Program.call op) (funext fun ans => ?_)
    change Program.bind (.ret (f ans)) _ = Program.bind (.ret ((f ans).bind g)) _
    cases f ans <;> rfl
  rw [heq]
  exact (failsFast_call h).bind hk

/-- A program among more calls, with its errors converted. -/
theorem FailsFast.embed {Op' : Type} {Ans' : Op' → Type} {ε' : Type} {f : Op → Op'}
    {g : (op : Op) → Ans' (f op) → Ans op} {refusal' : (op : Op') → Ans' op → Option ε'}
    {convert : ε → ε'} {p : Program Op Ans (Except ε α)} (h : FailsFast refusal p)
    (hr : ∀ op ans, refusal' (f op) ans = (refusal op (g op ans)).map convert) :
    FailsFast refusal' ((p.embed f g).bind fun res => .ret (res.mapError convert)) := by
  induction p with
  | ret res =>
    cases res with
    | ok a => trivial
    | error e => exact h.elim
  | call op next ih =>
    intro ans
    rw [hr]
    constructor
    · intro e he
      rcases Option.map_eq_some_iff.mp he with ⟨e', he', rfl⟩
      simp only [(h (g op ans)).1 e' he']
      rfl
    · exact fun hnone => ih _ ((h (g op ans)).2 (Option.map_eq_none_iff.mp hnone))

theorem FailsFast.prompt {p : Program Op Ans (Except ε α)} {talk : List ((op : Op) × Ans op)}
    {res : Except ε α} (h : FailsFast refusal p) (hr : Runs p talk res) :
    Prompt refusal talk res := by
  induction hr with
  | ret res =>
    cases res with
    | ok a => exact .ok (by simp)
    | error e => exact h.elim
  | @call op next talk res ans rest ih =>
    cases hans : refusal op ans with
    | some e =>
      rw [(h ans).1 e hans] at rest
      rcases runs_ret.mp rest with ⟨rfl, rfl⟩
      exact .error (l := []) (by simp) hans
    | none =>
      have hrest := ih ((h ans).2 hans)
      cases hrest with
      | ok hall => exact .ok (List.forall_mem_cons.mpr ⟨hans, hall⟩)
      | error hall hlast =>
        rw [← List.cons_append]
        exact .error (List.forall_mem_cons.mpr ⟨hans, hall⟩) hlast

end FailsFast

theorem Only.mono {P Q : Op → Prop} {p : Program Op Ans α} (h : p.Only P) (hpq : ∀ op, P op → Q op) :
    p.Only Q := by
  induction p with
  | ret a => trivial
  | call op next ih => exact ⟨hpq op h.1, fun ans => ih ans (h.2 ans)⟩

theorem Only.embed {Op' : Type} {Ans' : Op' → Type} {f : Op → Op'}
    {g : (op : Op) → Ans' (f op) → Ans op} {P : Op' → Prop} {p : Program Op Ans α}
    (h : ∀ op, P (f op)) : (p.embed f g).Only P := by
  induction p with
  | ret a => trivial
  | call op next ih => exact ⟨h op, fun ans => ih _⟩

/-- The stages of the calls never fall, from `lo` on. -/
def Ascending (stage : Op → ℕ) : Program Op Ans α → ℕ → Prop
  | .ret _, _ => True
  | .call op next, lo => lo ≤ stage op ∧ ∀ ans, Ascending stage (next ans) (stage op)

section Ascending
variable {stage : Op → ℕ} {lo hi : ℕ}

theorem Ascending.mono {p : Program Op Ans α} (h : Ascending stage p hi) (hle : lo ≤ hi) :
    Ascending stage p lo := by
  cases p with
  | ret a => trivial
  | call op next => exact ⟨Nat.le_trans hle h.1, h.2⟩

/-- All calls of one stage. -/
theorem Only.ascending {p : Program Op Ans α} (h : p.Only fun op => stage op = lo) :
    Ascending stage p lo := by
  induction p with
  | ret a => trivial
  | call op next ih =>
    obtain ⟨rfl, hnext⟩ := h
    exact ⟨Nat.le_refl _, fun ans => ih ans (hnext ans)⟩

/-- A part that stays up to stage `hi`, followed by one that starts there. -/
theorem Ascending.bind {part : Fallible Op Ans ε α} {f : α → Fallible Op Ans ε β}
    (h : Ascending stage part.run lo) (hle : part.run.Only fun op => stage op ≤ hi) (hlo : lo ≤ hi)
    (hf : ∀ a, Ascending stage (f a).run hi) : Ascending stage (part >>= f).run lo := by
  change Ascending stage (Program.bind part.run (ExceptT.bindCont f)) lo
  generalize part.run = p at h hle
  induction p generalizing lo with
  | ret res =>
    cases res with
    | ok a => exact (hf a).mono hlo
    | error e => trivial
  | call op next ih => exact ⟨h.1, fun ans => ih ans hle.1 (h.2 ans) (hle.2 ans)⟩

/-- A part of one stage, followed by one that starts at the same stage or later. -/
theorem Only.ascending_bind {part : Fallible Op Ans ε α} {f : α → Fallible Op Ans ε β}
    (h : part.run.Only fun op => stage op = lo) (hle : lo ≤ hi)
    (hf : ∀ a, Ascending stage (f a).run hi) : Ascending stage (part >>= f).run lo :=
  h.ascending.bind (h.mono fun _ heq => heq ▸ hle) hle hf

theorem Ascending.pairwise {p : Program Op Ans α} {talk : List ((op : Op) × Ans op)} {a : α}
    (h : Ascending stage p lo) (hr : Runs p talk a) :
    (∀ x ∈ talk, lo ≤ stage x.1) ∧ talk.Pairwise fun x y => stage x.1 ≤ stage y.1 := by
  induction hr generalizing lo with
  | ret a => simp
  | call ans rest ih =>
    rcases ih (h.2 ans) with ⟨hlater, hpairs⟩
    constructor
    · rw [List.forall_mem_cons]
      exact ⟨h.1, fun x hx => Nat.le_trans h.1 (hlater x hx)⟩
    · exact List.pairwise_cons.mpr ⟨hlater, hpairs⟩

end Ascending
end Librarian.Foundation.Program
