import Mathlib.Logic.Relation
import Mathlib.Order.Basic

/-! # Waits-for relations without cycles

A rank that grows along every wait excludes cycles, and when ranks are bounded every
party leads along its waits to one that waits for nobody.
-/
namespace Librarian.Foundation.WaitsFor

variable {α : Type} {W : α → α → Prop} (rank : α → ℕ)

theorem rank_lt_of_transGen (h : ∀ a b, W a b → rank a < rank b) {a b : α}
    (hab : Relation.TransGen W a b) : rank a < rank b := by
  induction hab with
  | single hw => exact h _ _ hw
  | tail _ hw ih => exact Nat.lt_trans ih (h _ _ hw)

theorem acyclic (h : ∀ a b, W a b → rank a < rank b) (a : α) : ¬ Relation.TransGen W a a :=
  fun hc => Nat.lt_irrefl _ (rank_lt_of_transGen rank h hc)

/-- From any party with `p` that waits are confined to, some party with `p` waits for nobody. -/
theorem exists_unblocked (h : ∀ a b, W a b → rank a < rank b) {N : ℕ} (hN : ∀ a, rank a ≤ N)
    {p : α → Prop} (hp : ∀ a b, p a → W a b → p b) {a : α} (ha : p a) :
    ∃ b, p b ∧ ∀ c, ¬ W b c := by
  induction hk : N - rank a using Nat.strongRecOn generalizing a with
  | ind k ih =>
    by_cases hw : ∃ b, W a b
    · obtain ⟨b, hab⟩ := hw
      have hlt := h a b hab
      have hb := hN b
      exact ih (N - rank b) (by omega) (hp a b ha hab) rfl
    · exact ⟨a, ha, fun c hc => hw ⟨c, hc⟩⟩

end Librarian.Foundation.WaitsFor
