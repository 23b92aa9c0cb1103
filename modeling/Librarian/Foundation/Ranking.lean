import Mathlib.Data.List.Basic
import Mathlib.Data.List.Nodup
import Mathlib.Order.Lattice

/-! # First row of each group, and the best few by rank

`distinctOn` keeps the first row of every key, as `SELECT DISTINCT ON` does after its
`ORDER BY`. `byRank` sorts by falling rank; rows of equal rank keep the order in which
they come, so an arbitrary arrangement of the input yields an arbitrary order of ties.
-/
namespace Librarian.Foundation.Ranking

variable {α K R : Type}

section Distinct
variable [DecidableEq K] (key : α → K)

def distinctOn : List α → List α
  | [] => []
  | a :: l => a :: (distinctOn l).filter fun b => key b ≠ key a

theorem distinctOn_subset (l : List α) : distinctOn key l ⊆ l := by
  induction l with
  | nil => simp [distinctOn]
  | cons a l ih =>
    intro b hb
    rcases List.mem_cons.mp hb with rfl | hb
    · exact List.mem_cons_self
    · exact List.mem_cons_of_mem _ (ih (List.mem_filter.mp hb).1)

/-- No key is kept twice. -/
theorem distinctOn_nodup (l : List α) : ((distinctOn key l).map key).Nodup := by
  induction l with
  | nil => simp [distinctOn]
  | cons a l ih =>
    rw [distinctOn, List.map_cons, List.nodup_cons]
    constructor
    · intro hm
      obtain ⟨b, hb, hk⟩ := List.mem_map.mp hm
      simp [hk] at hb
    · exact (ih.of_map key |>.filter _).map_on fun x hx y hy hxy =>
        List.inj_on_of_nodup_map ih (List.mem_filter.mp hx).1 (List.mem_filter.mp hy).1 hxy

/-- Every key of the input is kept. -/
theorem exists_mem_distinctOn {l : List α} {b : α} (hb : b ∈ l) :
    ∃ a ∈ distinctOn key l, key a = key b := by
  induction l with
  | nil => simp at hb
  | cons x l ih =>
    by_cases hk : key x = key b
    · exact ⟨x, List.mem_cons_self, hk⟩
    · have hbl : b ∈ l := by
        rcases List.mem_cons.mp hb with rfl | hbl
        · exact absurd rfl hk
        · exact hbl
      obtain ⟨a, ha, hak⟩ := ih hbl
      refine ⟨a, List.mem_cons_of_mem _ (List.mem_filter.mpr ⟨ha, ?_⟩), hak⟩
      simpa [hak] using Ne.symm hk

/-- The row kept for a key comes before all others with that key. -/
theorem distinctOn_first {r : α → α → Prop} {l : List α} (hl : l.Pairwise r) {a b : α}
    (ha : a ∈ distinctOn key l) (hb : b ∈ l) (hk : key a = key b) : a = b ∨ r a b := by
  induction l with
  | nil => simp at hb
  | cons x l ih =>
    rw [List.pairwise_cons] at hl
    rcases List.mem_cons.mp ha with rfl | ha
    · rcases List.mem_cons.mp hb with rfl | hb
      · exact .inl rfl
      · exact .inr (hl.1 b hb)
    · obtain ⟨ha, hne⟩ := List.mem_filter.mp ha
      rcases List.mem_cons.mp hb with rfl | hb
      · simp [hk] at hne
      · exact ih hl.2 ha hb

end Distinct

section Rank
variable [LinearOrder R] (rank : α → R)

/-- The rows in falling rank. -/
def byRank (l : List α) : List α := l.mergeSort fun a b => decide (rank b ≤ rank a)

theorem byRank_perm (l : List α) : (byRank rank l).Perm l := List.mergeSort_perm _ _

theorem byRank_pairwise (l : List α) :
    (byRank rank l).Pairwise fun a b => rank b ≤ rank a := by
  have h : (byRank rank l).Pairwise fun a b => decide (rank b ≤ rank a) = true := by
    refine List.pairwise_mergeSort ?_ ?_ l
    · intro a b c hab hbc
      simp only [decide_eq_true_eq] at *
      exact le_trans hbc hab
    · intro a b
      simpa using le_total (rank b) (rank a)
  exact h.imp fun h => by simpa using h

theorem byRank_of_pairwise {l : List α} (h : l.Pairwise fun a b => rank b ≤ rank a) :
    byRank rank l = l :=
  List.mergeSort_of_pairwise (by simpa using h)

/-- `best` are the `n` rows of highest rank among `all`, in falling rank, or all of them if there
are fewer. -/
structure TopOf (n : ℕ) (all best : List α) : Prop where
  rest : ∃ rest : List α, (best ++ rest).Perm all ∧ ∀ a ∈ best, ∀ b ∈ rest, rank b ≤ rank a
  falling : best.Pairwise fun a b => rank b ≤ rank a
  length : best.length = min n all.length

theorem topOf_take {l all : List α} (h : l.Perm all) (n : ℕ) :
    TopOf rank n all ((byRank rank l).take n) := by
  have hperm : (byRank rank l).Perm all := (byRank_perm rank l).trans h
  have hsorted := byRank_pairwise rank l
  rw [← List.take_append_drop n (byRank rank l), List.pairwise_append] at hsorted
  constructor
  · refine ⟨(byRank rank l).drop n, ?_, hsorted.2.2⟩
    rw [List.take_append_drop]
    exact hperm
  · exact hsorted.1
  · rw [List.length_take, hperm.length_eq]

/-- A row among the first `n` of a falling order has fewer than `n` rows of higher rank. -/
theorem count_above_lt_of_mem_take {l : List α} (hl : l.Pairwise fun a b => rank b ≤ rank a)
    {a : α} {n : ℕ} (ha : a ∈ l.take n) : (l.filter fun b => rank a < rank b).length < n := by
  obtain ⟨s, t, hst⟩ := List.append_of_mem ha
  have hs : s.length < n := by
    have := congrArg List.length hst
    simp only [List.length_take, List.length_append, List.length_cons] at this
    omega
  have hlst : l = s ++ a :: (t ++ l.drop n) := by
    rw [← List.cons_append, ← List.append_assoc, ← hst, List.take_append_drop]
  generalize t ++ l.drop n = u at hlst
  subst hlst
  -- from `a` on no rank is higher, so only the rows of `s` count
  have hrest : (a :: u).filter (fun b => decide (rank a < rank b)) = [] := by
    rw [List.filter_eq_nil_iff]
    intro b hb
    rcases List.mem_cons.mp hb with rfl | hb
    · simp
    · have := (List.pairwise_cons.mp (List.pairwise_append.mp hl).2.1).1 b hb
      simpa using this
  rw [List.filter_append, hrest, List.append_nil]
  exact Nat.lt_of_le_of_lt (List.length_filter_le _ _) hs

/-- With fewer than `n` rows of higher rank, some falling order has the row among its first `n`. -/
theorem exists_order_of_count_above_lt {l : List α} {a : α} (ha : a ∈ l) {n : ℕ}
    (hn : (l.filter fun b => rank a < rank b).length < n) :
    ∃ m : List α, m.Perm l ∧ (m.Pairwise fun a b => rank b ≤ rank a) ∧ a ∈ m.take n := by
  obtain ⟨s, t, rfl⟩ := List.append_of_mem ha
  let above := (s ++ t).filter fun b => rank a < rank b
  let below := (s ++ t).filter fun b => !decide (rank a < rank b)
  have hlen : above.length < n := by
    have : (s ++ a :: t).filter (fun b => rank a < rank b) = above := by
      simp [above, List.filter_append]
    rwa [this] at hn
  refine ⟨byRank rank above ++ a :: byRank rank below, ?_, ?_, ?_⟩
  · calc byRank rank above ++ a :: byRank rank below
        |>.Perm (a :: (byRank rank above ++ byRank rank below)) := List.perm_middle
      _ |>.Perm (a :: (above ++ below)) :=
          .cons a ((byRank_perm rank above).append (byRank_perm rank below))
      _ |>.Perm (a :: (s ++ t)) := .cons a (List.filter_append_perm _ _)
      _ |>.Perm (s ++ a :: t) := List.perm_middle.symm
  · refine List.pairwise_append.mpr ⟨byRank_pairwise rank above, ?_, ?_⟩
    · refine List.pairwise_cons.mpr ⟨?_, byRank_pairwise rank below⟩
      intro b hb
      have hb' := (List.mem_filter.mp ((byRank_perm rank below).mem_iff.mp hb)).2
      simpa using hb'
    · intro b hb c hc
      have hab : rank a < rank b := by
        simpa using (List.mem_filter.mp ((byRank_perm rank above).mem_iff.mp hb)).2
      rcases List.mem_cons.mp hc with rfl | hc
      · exact le_of_lt hab
      · have hca : rank c ≤ rank a := by
          simpa using (List.mem_filter.mp ((byRank_perm rank below).mem_iff.mp hc)).2
        exact le_trans hca (le_of_lt hab)
  · obtain ⟨m, rfl⟩ : ∃ m, n = (byRank rank above).length + (m + 1) := by
      have hl : (byRank rank above).length = above.length := (byRank_perm rank above).length_eq
      exact ⟨n - above.length - 1, by omega⟩
    rw [List.take_length_add_append]
    simp

end Rank
end Librarian.Foundation.Ranking
