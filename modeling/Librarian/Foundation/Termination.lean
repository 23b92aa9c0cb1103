import Librarian.Foundation.Program
import Librarian.Foundation.Transition

/-! # Programs and systems that come to an end

A program spends a budget when every call it makes costs one unit and its result leaves the
rest for what follows. A system comes to an end when every step uses up some of what is
left.
-/
namespace Librarian.Foundation

namespace Program
variable {Op : Type} {Ans : Op → Type} {α β ε : Type}

/-- Whatever is answered, `n` units pay for all calls and leave `left a` at the result `a`. -/
def Spends (left : α → ℕ) : Program Op Ans α → ℕ → Prop
  | .ret a, n => left a ≤ n
  | .call _ next, n => 0 < n ∧ ∀ ans, Spends left (next ans) (n - 1)

/-- The program ends after at most `n` calls. -/
abbrev AtMost (p : Program Op Ans α) (n : ℕ) : Prop := p.Spends (fun _ => 0) n

theorem spends_ret {left : α → ℕ} {a : α} {n : ℕ} :
    (Program.ret a : Program Op Ans α).Spends left n ↔ left a ≤ n := Iff.rfl

theorem spends_call {left : α → ℕ} {op : Op} {next : Ans op → Program Op Ans α} {n : ℕ} :
    (Program.call op next).Spends left n ↔ 0 < n ∧ ∀ ans, (next ans).Spends left (n - 1) := Iff.rfl

theorem Spends.mono {left : α → ℕ} {p : Program Op Ans α} {m n : ℕ} (h : p.Spends left m)
    (hmn : m ≤ n) : p.Spends left n := by
  induction p generalizing m n with
  | ret a => exact Nat.le_trans h hmn
  | call op next ih => exact ⟨by have := h.1; omega, fun ans => ih ans (h.2 ans) (by omega)⟩

/-- With `k` units more, `k` more are left. -/
theorem Spends.shift {left left' : α → ℕ} {p : Program Op Ans α} {n k : ℕ} (h : p.Spends left n)
    (hle : ∀ a, left' a ≤ left a + k) : p.Spends left' (n + k) := by
  induction p generalizing n with
  | ret a => exact Nat.le_trans (hle a) (Nat.add_le_add_right h k)
  | call op next ih =>
    refine ⟨by have := h.1; omega, ?_⟩
    intro ans
    have hn : n + k - 1 = n - 1 + k := by
      have := h.1
      omega
    rw [hn]
    exact ih ans (h.2 ans)

theorem Spends.bind {left : α → ℕ} {left' : β → ℕ} {p : Program Op Ans α}
    {f : α → Program Op Ans β} {n : ℕ} (h : p.Spends left n)
    (hf : ∀ a, (f a).Spends left' (left a)) : (p.bind f).Spends left' n := by
  induction p generalizing n with
  | ret a => exact (hf a).mono h
  | call op next ih => exact ⟨h.1, fun ans => ih ans (h.2 ans)⟩

theorem Spends.embed {left : α → ℕ} {Op' : Type} {Ans' : Op' → Type} {f : Op → Op'}
    {g : (op : Op) → Ans' (f op) → Ans op} {p : Program Op Ans α} {n : ℕ} (h : p.Spends left n) :
    (p.embed f g).Spends left n := by
  induction p generalizing n with
  | ret a => exact h
  | call op next ih => exact ⟨h.1, fun ans => ih (g op ans) (h.2 _)⟩

-- proofs go through the rules, never through the definition
attribute [irreducible] Spends

/-- What a part that may fail leaves for its continuation; a failure ends the program. -/
def leftOk (left : α → ℕ) : Except ε α → ℕ
  | .ok a => left a
  | .error _ => 0

/-- A part that may fail spends `n` units and leaves `left a` for what follows. -/
def Costs (left : α → ℕ) (part : Fallible Op Ans ε α) (n : ℕ) : Prop :=
  part.run.Spends (leftOk left) n

section Fallible
variable {left : α → ℕ} {left' : β → ℕ} {part other : Fallible Op Ans ε α} {m n : ℕ}

theorem Costs.bind {f : α → Fallible Op Ans ε β} (h : Costs left part n)
    (hf : ∀ a, Costs left' (f a) (left a)) : Costs left' (part >>= f) n := by
  change (Program.bind part.run (ExceptT.bindCont f)).Spends (leftOk left') n
  refine Spends.bind h fun a => ?_
  cases a with
  | ok a => exact hf a
  | error e => exact spends_ret.mpr (Nat.zero_le _)

/-- All of a part, whatever is done with its result. -/
theorem Costs.atMost {f : Except ε α → β} (h : Costs (fun _ => 0) part m) (hn : m ≤ n) :
    (part.run.bind fun res => .ret (f res)).AtMost n :=
  (Spends.mono h hn).bind fun _ => spends_ret.mpr (Nat.zero_le _)

theorem costs_call (op : Op) (f : Ans op → Except ε α) (n : ℕ) :
    Costs (fun _ => n) (ExceptT.mk (.call op fun ans => .ret (f ans))) (n + 1) := by
  refine spends_call.mpr ⟨Nat.succ_pos n, fun ans => spends_ret.mpr ?_⟩
  cases f ans with
  | ok a => exact Nat.le_refl n
  | error e => exact Nat.zero_le n

theorem costs_pure {a : α} (h : left a ≤ n) : Costs left (pure a : Fallible Op Ans ε α) n :=
  spends_ret.mpr h

theorem costs_throw (e : ε) (n : ℕ) : Costs left (throw e : Fallible Op Ans ε α) n :=
  spends_ret.mpr (Nat.zero_le n)

theorem costs_ret {res : Except ε α} :
    Costs (fun _ => 0) (ExceptT.mk (.ret res) : Fallible Op Ans ε α) 0 := by
  cases res <;> exact spends_ret.mpr (Nat.le_refl 0)

theorem costs_ite {p : Prop} [Decidable p] (h : Costs left part n) (h' : Costs left other n) :
    Costs left (if p then part else other) n := by
  split
  · exact h
  · exact h'

attribute [irreducible] Costs

end Fallible

end Program

namespace System
variable {State Action : Type} {step : State → Action → Option State} {I : State → Prop}
  {Left : State → ℕ → Prop} {kind : Action → Prop} {s s' : State} {actions : List Action} {n : ℕ}

/-- When every action of a kind uses up some of what is left, there are only so many. -/
theorem length_run_le (hinv : ∀ s a s', I s → step s a = some s' → I s')
    (hstep : ∀ s a s' n, I s → Left s n → kind a → step s a = some s' → ∃ m < n, Left s' m)
    (hi : I s) (h : Left s n) (hkind : ∀ a ∈ actions, kind a)
    (hr : run step s actions = some s') : actions.length ≤ n := by
  induction actions generalizing s n with
  | nil => simp
  | cons a actions ih =>
    rw [run_cons] at hr
    obtain ⟨x, hx, hrest⟩ := Option.bind_eq_some_iff.mp hr
    obtain ⟨m, hm, hleft⟩ := hstep _ _ _ _ hi h (hkind a List.mem_cons_self) hx
    have hlen := ih (hinv _ _ _ hi hx) hleft (fun b hb => hkind b (List.mem_cons_of_mem a hb)) hrest
    rw [List.length_cons]
    omega

/-- Actions of one kind lead from one state to the other. -/
def Leads (step : State → Action → Option State) (kind : Action → Prop) (s s' : State) : Prop :=
  ∃ actions, (∀ a ∈ actions, kind a) ∧ run step s actions = some s'

theorem Leads.refl (s : State) : Leads step kind s s := ⟨[], by simp, run_nil⟩

theorem Leads.head {x : State} {a : Action} (ha : kind a) (hs : step s a = some x)
    (h : Leads step kind x s') : Leads step kind s s' := by
  obtain ⟨actions, hkind, hr⟩ := h
  refine ⟨a :: actions, ?_, ?_⟩
  · intro b hb
    rcases List.mem_cons.mp hb with rfl | hb
    · exact ha
    · exact hkind b hb
  · rw [run_cons, hs]
    exact hr

theorem Leads.one {a : Action} (ha : kind a) (hs : step s a = some s') : Leads step kind s s' :=
  .head ha hs (.refl s')

theorem Leads.trans {x : State} (h : Leads step kind s x) (h' : Leads step kind x s') :
    Leads step kind s s' := by
  obtain ⟨actions, hkind, hr⟩ := h
  induction actions generalizing s with
  | nil =>
    cases hr
    exact h'
  | cons a actions ih =>
    obtain ⟨y, hy, hrest⟩ := Option.bind_eq_some_iff.mp hr
    exact .head (hkind a List.mem_cons_self) hy
      (ih (fun b hb => hkind b (List.mem_cons_of_mem a hb)) hrest)

/-- What every step of the kind keeps holds at the end. -/
theorem Leads.keeps {P : State → Prop} (hstep : ∀ x a y, P x → kind a → step x a = some y → P y)
    (h : Leads step kind s s') (hs : P s) : P s' := by
  obtain ⟨actions, hkind, hr⟩ := h
  induction actions generalizing s with
  | nil =>
    cases hr
    exact hs
  | cons a actions ih =>
    obtain ⟨y, hy, hrest⟩ := Option.bind_eq_some_iff.mp hr
    exact ih (hstep _ _ _ hs (hkind a List.mem_cons_self) hy)
      (fun b hb => hkind b (List.mem_cons_of_mem a hb)) hrest

/-- Where something can be done until all is done, all gets done by some run. -/
theorem exists_run_to {Done : State → Prop}
    (hinv : ∀ s a s', I s → kind a → step s a = some s' → I s')
    (hstep : ∀ s a s' n, I s → Left s n → kind a → step s a = some s' → ∃ m < n, Left s' m)
    (hprogress : ∀ s, I s → ¬ Done s → ∃ a s', kind a ∧ step s a = some s')
    (hi : I s) (h : Left s n) : ∃ s', Leads step kind s s' ∧ I s' ∧ Done s' := by
  induction n using Nat.strongRecOn generalizing s with
  | ind n ih =>
    by_cases hd : Done s
    · exact ⟨s, .refl s, hi, hd⟩
    · obtain ⟨a, x, ha, hx⟩ := hprogress s hi hd
      obtain ⟨m, hm, hleft⟩ := hstep _ _ _ _ hi h ha hx
      obtain ⟨s', hleads, hi', hdone⟩ := ih m hm (hinv _ _ _ hi ha hx) hleft
      exact ⟨s', .head ha hx hleads, hi', hdone⟩

end System
end Librarian.Foundation
