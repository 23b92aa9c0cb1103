import Librarian.Foundation.Transition

/-! # Guarded statements

A guarded statement is skipped once what it makes is there. A list of such statements may be run
again at any time, over what an earlier version of the list has made, too.
-/
namespace Librarian.Foundation
open Librarian.Foundation.System

/-- `Done x s`: what the statement `x` makes is there in `s`. -/
structure Guarded {σ ι : Type} (exec : σ → ι → Option σ) (Done : ι → σ → Prop) : Prop where
  after : ∀ {s x s'}, exec s x = some s' → Done x s'
  skip : ∀ {s x}, Done x s → exec s x = some s
  keep : ∀ {s x y s'}, Done x s → exec s y = some s' → Done x s'

namespace Guarded
variable {σ ι : Type} {exec : σ → ι → Option σ} {Done : ι → σ → Prop} {s s' : σ} {xs ys : List ι}
  {x : ι}

theorem run_keep (h : Guarded exec Done) (hx : Done x s) (hr : run exec s xs = some s') :
    Done x s' := by
  induction xs generalizing s with
  | nil =>
    cases hr
    exact hx
  | cons y xs ih =>
    rw [run_cons] at hr
    rcases Option.bind_eq_some_iff.mp hr with ⟨s₁, hs, hrest⟩
    exact ih (h.keep hx hs) hrest

theorem run_after (h : Guarded exec Done) (hr : run exec s xs = some s') : ∀ x ∈ xs, Done x s' := by
  induction xs generalizing s with
  | nil => simp
  | cons y xs ih =>
    rw [run_cons] at hr
    rcases Option.bind_eq_some_iff.mp hr with ⟨s₁, hs, hrest⟩
    rw [List.forall_mem_cons]
    exact ⟨h.run_keep (h.after hs) hrest, ih hrest⟩

theorem run_skip (h : Guarded exec Done) (hdone : ∀ x ∈ xs, Done x s) : run exec s xs = some s := by
  induction xs with
  | nil => rfl
  | cons y xs ih =>
    rw [List.forall_mem_cons] at hdone
    rw [run_cons, h.skip hdone.1]
    exact ih hdone.2

/-- Running the list again changes nothing. -/
theorem run_again (h : Guarded exec Done) (hr : run exec s xs = some s') :
    run exec s' xs = some s' := h.run_skip (h.run_after hr)

/-- An earlier version of the list is taken up where it ended. -/
theorem run_append (h : Guarded exec Done) (hr : run exec s xs = some s') :
    run exec s' (xs ++ ys) = run exec s (xs ++ ys) := by
  simp only [run, List.foldlM_append] at hr ⊢
  have hagain := h.run_again hr
  rw [run] at hagain
  rw [hagain, hr]

end Guarded
end Librarian.Foundation
