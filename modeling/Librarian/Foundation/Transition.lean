import Mathlib.Data.List.Basic

/-! # Labelled transition systems and their finite traces

A trace keeps the state before every action, so facts about the past of a run can be
stated. An invariant is proved once for the first states and once for one step.
-/
namespace Librarian.Foundation

structure System (State Action : Type) where
  init : State → Prop
  step : State → Action → State → Prop

namespace System
variable {State Action : Type} {S : System State Action}

/-- `Trace S t s`: the actions of `t`, each with the state it was taken in, lead to `s`. -/
inductive Trace (S : System State Action) : List (State × Action) → State → Prop where
  | start {s : State} (h : S.init s) : Trace S [] s
  | step {t : List (State × Action)} {s s' : State} {a : Action} (h : Trace S t s)
      (hs : S.step s a s') : Trace S (t ++ [(s, a)]) s'

def Reachable (S : System State Action) (s : State) : Prop := ∃ t, S.Trace t s

theorem Trace.reachable {t : List (State × Action)} {s : State} (h : S.Trace t s) :
    S.Reachable s := ⟨t, h⟩

theorem Reachable.init {s : State} (h : S.init s) : S.Reachable s := ⟨[], .start h⟩

theorem Reachable.step {s s' : State} {a : Action} (h : S.Reachable s) (hs : S.step s a s') :
    S.Reachable s' := by
  obtain ⟨t, ht⟩ := h
  exact ⟨_, ht.step hs⟩

/-- The state after a list of actions, if each of them can happen in its turn. -/
def run (step : State → Action → Option State) (s : State) (actions : List Action) :
    Option State := actions.foldlM step s

/-- The states in which a list of actions is taken. -/
def record (step : State → Action → Option State) (s : State) :
    List Action → List (State × Action)
  | [] => []
  | a :: actions => (s, a) :: (step s a).elim [] fun s' => record step s' actions

theorem run_nil {step : State → Action → Option State} {s : State} : run step s [] = some s := rfl

theorem run_cons {step : State → Action → Option State} {s : State} {a : Action}
    {actions : List Action} : run step s (a :: actions) = (step s a).bind fun s' =>
      run step s' actions := rfl

/-- A run of an executable step function is a trace. -/
theorem trace_record {step : State → Action → Option State}
    (hstep : ∀ s a s', step s a = some s' → S.step s a s') {t : List (State × Action)}
    {s s' : State} {actions : List Action} (h : S.Trace t s) (hr : run step s actions = some s') :
    S.Trace (t ++ record step s actions) s' := by
  induction actions generalizing t s with
  | nil =>
    rw [run_nil] at hr
    cases hr
    simpa [record] using h
  | cons a actions ih =>
    rw [run_cons] at hr
    rcases Option.bind_eq_some_iff.mp hr with ⟨x, hx, hrest⟩
    have := ih (h.step (hstep _ _ _ hx)) hrest
    simpa [record, hx] using this

/-- A predicate that holds at first and survives every step from a reachable state holds in
every reachable state. -/
theorem Reachable.invariant {I : State → Prop} (hinit : ∀ s, S.init s → I s)
    (hstep : ∀ s a s', S.Reachable s → I s → S.step s a s' → I s') {s : State}
    (h : S.Reachable s) : I s := by
  obtain ⟨t, ht⟩ := h
  induction ht with
  | start h => exact hinit _ h
  | step h hs ih => exact hstep _ _ _ h.reachable ih hs

/-- The state of a trace before its `i`-th action, and the last state from its end on. -/
def stateAt (t : List (State × Action)) (s : State) (i : ℕ) : State :=
  match t[i]? with
  | some p => p.1
  | none => s

@[simp] theorem stateAt_length (t : List (State × Action)) (s : State) :
    stateAt t s t.length = s := by
  simp [stateAt]

theorem stateAt_get {t : List (State × Action)} {s x : State} {a : Action} {i : ℕ}
    (h : t[i]? = some (x, a)) : stateAt t s i = x := by
  simp [stateAt, h]

theorem stateAt_append {t u : List (State × Action)} {s x : State} {a : Action} {i : ℕ}
    (h : i ≤ t.length) : stateAt (t ++ (x, a) :: u) s i = stateAt t x i := by
  rcases Nat.lt_or_eq_of_le h with hi | rfl
  · simp [stateAt, List.getElem?_append_left hi, List.getElem?_eq_getElem hi]
  · simp [stateAt]

theorem stateAt_take {t : List (State × Action)} {s : State} {i j : ℕ} (h : j ≤ i) :
    stateAt (t.take i) (stateAt t s i) j = stateAt t s j := by
  rcases Nat.lt_or_eq_of_le h with hj | rfl
  · by_cases ht : j < t.length
    · simp [stateAt, hj, List.getElem?_eq_getElem ht]
    · have hi : t.length ≤ i := by omega
      simp [stateAt, List.take_of_length_le hi, List.getElem?_eq_none hi]
  · have hend : (t.take j)[j]? = none := List.getElem?_eq_none (List.length_take_le j t)
    rw [stateAt, hend]

theorem exists_action {t : List (State × Action)} (s : State) {i : ℕ} (h : i < t.length) :
    ∃ a, t[i]? = some (stateAt t s i, a) := by
  refine ⟨t[i].2, ?_⟩
  simp [stateAt, List.getElem?_eq_getElem h]

/-- Consecutive states of a trace are joined by its actions. -/
theorem Trace.step_at {t : List (State × Action)} {s x : State} {a : Action} {i : ℕ}
    (h : S.Trace t s) (hi : t[i]? = some (x, a)) :
    S.step x a (stateAt t s (i + 1)) := by
  induction h with
  | start => simp at hi
  | @step t y y' b ht hs ih =>
    have hlt : i < t.length + 1 := by
      simpa using (List.getElem?_eq_some_iff.mp hi).1
    rcases Nat.lt_succ_iff_lt_or_eq.mp hlt with hi' | rfl
    · rw [List.getElem?_append_left hi'] at hi
      rw [stateAt_append (by omega)]
      exact ih hi
    · simp only [List.getElem?_concat_length, Option.some.injEq, Prod.mk.injEq] at hi
      obtain ⟨rfl, rfl⟩ := hi
      have hl : t.length + 1 = (t ++ [(y, b)]).length := by simp
      rw [hl, stateAt_length]
      exact hs

/-- Every state inside a trace is reached by the part of the trace before it. -/
theorem Trace.take {t : List (State × Action)} {s : State} (h : S.Trace t s) (i : ℕ) :
    S.Trace (t.take i) (stateAt t s i) := by
  induction h with
  | start h => simpa [stateAt] using Trace.start h
  | @step t y y' b ht hs ih =>
    by_cases hi : i ≤ t.length
    · rw [stateAt_append hi, List.take_append_of_le_length hi]
      exact ih
    · have hl : (t ++ [(y, b)]).length ≤ i := by simp; omega
      have hn : (t ++ [(y, b)])[i]? = none := List.getElem?_eq_none hl
      rw [List.take_of_length_le hl, stateAt, hn]
      exact ht.step hs

theorem Trace.init_at {t : List (State × Action)} {s : State} (h : S.Trace t s) :
    S.init (stateAt t s 0) := by
  induction h with
  | start h => exact h
  | step h hs ih => rwa [stateAt_append (Nat.zero_le _)]

theorem Trace.reachable_at {t : List (State × Action)} {s : State} (h : S.Trace t s) (i : ℕ) :
    S.Reachable (stateAt t s i) := (h.take i).reachable

/-- A predicate that is false at first and true later becomes true at some step. -/
theorem exists_switch {P : ℕ → Prop} {j : ℕ} (h0 : ¬ P 0) (hj : P j) :
    ∃ i < j, ¬ P i ∧ P (i + 1) := by
  induction j with
  | zero => exact absurd hj h0
  | succ j ih =>
    by_cases hp : P j
    · rcases ih hp with ⟨i, hi, h⟩
      exact ⟨i, by omega, h⟩
    · exact ⟨j, by omega, hp, hj⟩

/-- A relation that is reflexive, transitive and kept by every step relates the states of a
trace in their order. -/
theorem Trace.monotone {R : State → State → Prop} (hrefl : ∀ s, R s s)
    (htrans : ∀ {a b c}, R a b → R b c → R a c)
    (hstep : ∀ s a s', S.Reachable s → S.step s a s' → R s s')
    {t : List (State × Action)} {s : State} (h : S.Trace t s) {i j : ℕ} (hij : i ≤ j) :
    R (stateAt t s i) (stateAt t s j) := by
  induction hij with
  | refl => exact hrefl _
  | @step j hij ih =>
    by_cases hj : j < t.length
    · obtain ⟨⟨x, a⟩, hx⟩ : ∃ p, t[j]? = some p := ⟨t[j], List.getElem?_eq_getElem hj⟩
      have hs := h.step_at hx
      have hr := h.reachable_at j
      rw [stateAt_get hx] at ih hr
      exact htrans ih (hstep _ _ _ hr hs)
    · have hn : stateAt t s (j + 1) = stateAt t s j := by
        simp [stateAt, List.getElem?_eq_none (Nat.le_of_not_lt hj),
          List.getElem?_eq_none (Nat.le_succ_of_le (Nat.le_of_not_lt hj))]
      rw [hn]
      exact ih

/-- `P` holds of every action of a trace, with the part of the trace before it. -/
def Along (P : List (State × Action) → State → Action → Prop) (t : List (State × Action)) : Prop :=
  ∀ i (h : i < t.length), P (t.take i) t[i].1 t[i].2

variable {P : List (State × Action) → State → Action → Prop}

instance [∀ t s a, Decidable (P t s a)] (t : List (State × Action)) : Decidable (Along P t) :=
  inferInstanceAs (Decidable (∀ i (h : i < t.length), P (t.take i) t[i].1 t[i].2))

theorem along_nil : Along P ([] : List (State × Action)) := by
  intro i hi
  cases hi

theorem along_concat {t : List (State × Action)} {s : State} {a : Action} :
    Along P (t ++ [(s, a)]) ↔ Along P t ∧ P t s a := by
  constructor
  · intro h
    constructor
    · intro i hi
      have := h i (by rw [List.length_append]; omega)
      rwa [List.take_append_of_le_length (Nat.le_of_lt hi), List.getElem_append_left hi] at this
    · have := h t.length (by simp)
      simpa using this
  · rintro ⟨ht, hlast⟩ i hi
    by_cases hlt : i < t.length
    · rw [List.take_append_of_le_length (Nat.le_of_lt hlt), List.getElem_append_left hlt]
      exact ht i hlt
    · rw [List.length_append, List.length_singleton] at hi
      have hlen : i = t.length := by omega
      subst hlen
      simpa using hlast

end System
end Librarian.Foundation
