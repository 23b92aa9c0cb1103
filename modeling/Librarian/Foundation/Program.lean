import Mathlib.Logic.Basic

/-! # Programs as trees of the calls they make

A program is either finished or about to make one call, with one continuation for
each answer. Nothing here fixes what a call means: a machine, a peer or an adversary
gives the answers, one call at a time.
-/
namespace Librarian.Foundation

/-- A finite program over calls `op : Op` that are answered by `Ans op`. -/
inductive Program (Op : Type) (Ans : Op → Type) (α : Type) where
  | ret (a : α)
  | call (op : Op) (next : Ans op → Program Op Ans α)

/-- Programs that stop at the first error, as a chain of `?` operators does. -/
abbrev Fallible (Op : Type) (Ans : Op → Type) (ε α : Type) := ExceptT ε (Program Op Ans) α

namespace Program
variable {Op : Type} {Ans : Op → Type} {α β γ ε : Type}

def bind : Program Op Ans α → (α → Program Op Ans β) → Program Op Ans β
  | .ret a, f => f a
  | .call op next, f => .call op fun ans => (next ans).bind f

instance : Monad (Program Op Ans) where
  pure := .ret
  bind := .bind

theorem bind_assoc (p : Program Op Ans α) (f : α → Program Op Ans β) (g : β → Program Op Ans γ) :
    (p.bind f).bind g = p.bind fun a => (f a).bind g := by
  induction p with
  | ret a => rfl
  | call op next ih =>
    simp only [bind, call.injEq, heq_eq_eq, true_and]
    funext ans
    exact ih ans

/-- The program makes no other calls than those in `P`. -/
def Only (P : Op → Prop) : Program Op Ans α → Prop
  | .ret _ => True
  | .call op next => P op ∧ ∀ ans, Only P (next ans)

theorem Only.bind {P : Op → Prop} {p : Program Op Ans α} {f : α → Program Op Ans β} (h : p.Only P)
    (hf : ∀ a, (f a).Only P) : (p.bind f).Only P := by
  induction p with
  | ret a => exact hf a
  | call op next ih => exact ⟨h.1, fun ans => ih ans (h.2 ans)⟩

theorem Only.bindExcept {P : Op → Prop} {p : Fallible Op Ans ε α} {f : α → Fallible Op Ans ε β}
    (h : Only P p.run) (hf : ∀ a, Only P (f a).run) : Only P (p >>= f).run := by
  change Only P (Program.bind p.run (ExceptT.bindCont f))
  apply Only.bind h
  intro a
  cases a with
  | ok a => exact hf a
  | error e => trivial

/-- The execution against one handler of the calls, which keeps a state of its own. -/
def handle {σ : Type} (answer : (op : Op) → σ → Ans op × σ) : Program Op Ans α → σ → α × σ
  | .ret a, s => (a, s)
  | .call op next, s => (next (answer op s).1).handle answer (answer op s).2

/-- The whole conversation of one complete execution: every call with the answer it got. -/
inductive Runs : Program Op Ans α → List ((op : Op) × Ans op) → α → Prop where
  | ret (a : α) : Runs (.ret a) [] a
  | call {op : Op} {next : Ans op → Program Op Ans α} {talk : List ((op : Op) × Ans op)} {a : α}
      (ans : Ans op) (rest : Runs (next ans) talk a) : Runs (.call op next) (⟨op, ans⟩ :: talk) a

theorem runs_ret {a b : α} {talk : List ((op : Op) × Ans op)} :
    Runs (Program.ret a : Program Op Ans α) talk b ↔ talk = [] ∧ b = a := by
  constructor
  · intro h
    cases h
    exact ⟨rfl, rfl⟩
  · rintro ⟨rfl, rfl⟩
    exact .ret _

theorem runs_call {op : Op} {next : Ans op → Program Op Ans α} {b : α}
    {talk : List ((op : Op) × Ans op)} :
    Runs (.call op next) talk b ↔
      ∃ ans rest, talk = ⟨op, ans⟩ :: rest ∧ Runs (next ans) rest b := by
  constructor
  · intro h
    cases h with
    | call ans rest => exact ⟨ans, _, rfl, rest⟩
  · rintro ⟨ans, rest, rfl, h⟩
    exact .call ans h

/-- A sequence runs through its first part and then through the rest. -/
theorem runs_bind {p : Program Op Ans α} {f : α → Program Op Ans β} {b : β}
    {talk : List ((op : Op) × Ans op)} :
    Runs (p.bind f) talk b ↔
      ∃ first rest a, talk = first ++ rest ∧ Runs p first a ∧ Runs (f a) rest b := by
  induction p generalizing talk with
  | ret a =>
    constructor
    · intro h
      exact ⟨[], talk, a, rfl, .ret a, h⟩
    · rintro ⟨first, rest, a', rfl, hp, hf⟩
      rcases runs_ret.mp hp with ⟨rfl, rfl⟩
      exact hf
  | call op next ih =>
    constructor
    · intro h
      rcases runs_call.mp h with ⟨ans, rest, rfl, hrest⟩
      rcases (ih ans).mp hrest with ⟨first, last, a, rfl, hp, hf⟩
      exact ⟨⟨op, ans⟩ :: first, last, a, rfl, .call ans hp, hf⟩
    · rintro ⟨first, last, a, rfl, hp, hf⟩
      rcases runs_call.mp hp with ⟨ans, rest, rfl, hnext⟩
      exact .call ans ((ih ans).mpr ⟨rest, last, a, rfl, hnext, hf⟩)

/-- Where every call has an answer, a program has a complete execution. -/
theorem exists_runs [∀ op, Nonempty (Ans op)] (p : Program Op Ans α) :
    ∃ talk a, Runs p talk a := by
  induction p with
  | ret a => exact ⟨[], a, .ret a⟩
  | call op next ih =>
    obtain ⟨ans⟩ : Nonempty (Ans op) := inferInstance
    obtain ⟨talk, a, h⟩ := ih ans
    exact ⟨_, a, .call ans h⟩

variable {Op' : Type} {Ans' : Op' → Type}

/-- The same program among more calls. -/
def embed (f : Op → Op') (g : (op : Op) → Ans' (f op) → Ans op) :
    Program Op Ans α → Program Op' Ans' α
  | .ret a => .ret a
  | .call op next => .call (f op) fun ans => (next (g op ans)).embed f g

end Program
end Librarian.Foundation
