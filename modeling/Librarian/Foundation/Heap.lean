import Mathlib.Data.List.Basic
import Mathlib.Data.List.Nodup
import Mathlib.Logic.Function.Basic

/-! # Multiversion heaps

A heap keeps every inserted row with the transaction that wrote it. Committing and
aborting only change the writer's status, so what a reader sees is a filter of one
growing list. Keys are unique among the rows that are not aborted.
-/
namespace Librarian.Foundation

/-- `committing` is a transaction whose commit was sent and not yet decided. -/
inductive TxStatus where
  | idle
  | active
  | failed
  | committing
  | committed
  | aborted
  deriving DecidableEq

def TxStatus.inProgress : TxStatus → Bool
  | .active | .failed | .committing => true
  | _ => false

def TxStatus.alive (s : TxStatus) : Bool := s.inProgress || s = .committed

@[simp] theorem TxStatus.alive_committed : TxStatus.alive .committed = true := rfl

theorem TxStatus.alive_of_inProgress {s : TxStatus} (h : s.inProgress = true) : s.alive = true := by
  simp [alive, h]

theorem TxStatus.ne_committed_of_inProgress {s : TxStatus} (h : s.inProgress = true) :
    s ≠ .committed := by
  rintro rfl
  simp [inProgress] at h

theorem TxStatus.ne_idle_of_inProgress {s : TxStatus} (h : s.inProgress = true) : s ≠ .idle := by
  rintro rfl
  simp [inProgress] at h

/-- A row with its writer. -/
structure Tuple (W Row : Type) where
  xmin : W
  row : Row
  deriving DecidableEq

abbrev Heap (W Row : Type) := List (Tuple W Row)

namespace Heap
variable {W Row K : Type} (status : W → TxStatus)

def committedRows (heap : Heap W Row) : List Row :=
  (heap.filter fun t => status t.xmin = .committed).map (·.row)

def UniqueKey (key : Row → K) (heap : Heap W Row) : Prop :=
  heap.Pairwise fun t u =>
    (status t.xmin).alive = true → (status u.xmin).alive = true → key t.row ≠ key u.row

variable {status} {key : Row → K} {heap : Heap W Row} {w : W} {k : K}

theorem mem_committedRows {r : Row} :
    r ∈ committedRows status heap ↔ ∃ t ∈ heap, status t.xmin = .committed ∧ t.row = r := by
  simp [committedRows, and_assoc]

theorem committedRows_insert (r : Row) (h : status w ≠ .committed) :
    committedRows status (heap ++ [⟨w, r⟩]) = committedRows status heap := by
  simp [committedRows, h]

/-- Uniqueness survives a change of status that brings no writer of the heap to life. -/
theorem UniqueKey.restatus {status' : W → TxStatus} (h : UniqueKey status key heap)
    (hs : ∀ t ∈ heap, (status' t.xmin).alive = true → (status t.xmin).alive = true) :
    UniqueKey status' key heap :=
  List.Pairwise.imp_of_mem (fun ht hu htu hta hua => htu (hs _ ht hta) (hs _ hu hua)) h

theorem UniqueKey.eq_of_mem (h : UniqueKey status key heap) {t u : Tuple W Row} (ht : t ∈ heap)
    (hu : u ∈ heap) (hta : (status t.xmin).alive = true) (hua : (status u.xmin).alive = true)
    (hk : key t.row = key u.row) : t = u := by
  obtain ⟨i, hi, rfl⟩ := List.mem_iff_getElem.mp ht
  obtain ⟨j, hj, rfl⟩ := List.mem_iff_getElem.mp hu
  rcases Nat.lt_trichotomy i j with hij | rfl | hij
  · exact absurd hk (List.pairwise_iff_getElem.mp h i j hi hj hij hta hua)
  · rfl
  · exact absurd hk.symm (List.pairwise_iff_getElem.mp h j i hj hi hij hua hta)

theorem UniqueKey.eq_of_mem_committed (h : UniqueKey status key heap) {r s : Row}
    (hr : r ∈ committedRows status heap) (hs : s ∈ committedRows status heap)
    (hk : key r = key s) : r = s := by
  obtain ⟨t, ht, htc, rfl⟩ := mem_committedRows.mp hr
  obtain ⟨u, hu, huc, rfl⟩ := mem_committedRows.mp hs
  rw [h.eq_of_mem ht hu (by simp [htc]) (by simp [huc]) hk]

/-- The committed rows of a heap with unique keys carry no key twice. -/
theorem UniqueKey.nodup_committed (h : UniqueKey status key heap) :
    ((committedRows status heap).map key).Nodup := by
  rw [committedRows, List.map_map, List.Nodup, List.pairwise_map, List.pairwise_filter]
  refine h.imp ?_
  intro t u htu ht hu
  rw [decide_eq_true_eq] at ht hu
  exact htu (by simp [ht]) (by simp [hu])

/-- A lookup by a unique key finds the row that carries it. -/
theorem UniqueKey.find?_eq_some [DecidableEq K] (h : UniqueKey status key heap) {r : Row} :
    (committedRows status heap).find? (fun s => key s = k) = some r ↔
      r ∈ committedRows status heap ∧ key r = k := by
  constructor
  · intro hf
    exact ⟨List.mem_of_find?_eq_some hf, by simpa using List.find?_some hf⟩
  · rintro ⟨hr, hk⟩
    cases hf : (committedRows status heap).find? (fun s => key s = k) with
    | none => exact absurd hk (by simpa using List.find?_eq_none.mp hf r hr)
    | some s =>
      have hs := List.mem_of_find?_eq_some hf
      have hsk : key s = k := by simpa using List.find?_some hf
      rw [h.eq_of_mem_committed hs hr (hsk.trans hk.symm)]

variable [DecidableEq W]

/-- The rows one transaction wrote. -/
def rowsOf (w : W) (heap : Heap W Row) : List Row := (heap.filter fun t => t.xmin = w).map (·.row)

theorem mem_rowsOf {r : Row} : r ∈ rowsOf w heap ↔ ⟨w, r⟩ ∈ heap := by
  simp only [rowsOf, List.mem_map, List.mem_filter, decide_eq_true_eq]
  constructor
  · rintro ⟨⟨x, y⟩, ⟨ht, rfl⟩, rfl⟩
    exact ht
  · intro h
    exact ⟨_, ⟨h, rfl⟩, rfl⟩

@[simp] theorem rowsOf_append_self (r : Row) :
    rowsOf w (heap ++ [⟨w, r⟩]) = rowsOf w heap ++ [r] := by
  simp [rowsOf]

theorem rowsOf_append_other {u : W} (h : u ≠ w) (r : Row) :
    rowsOf w (heap ++ [⟨u, r⟩]) = rowsOf w heap := by
  simp [rowsOf, h]

theorem mem_committedRows_iff_rowsOf {r : Row} :
    r ∈ committedRows status heap ↔ ∃ w, status w = .committed ∧ r ∈ rowsOf w heap := by
  simp only [mem_committedRows, mem_rowsOf]
  constructor
  · rintro ⟨t, ht, hs, rfl⟩
    exact ⟨t.xmin, hs, ht⟩
  · rintro ⟨w, hs, ht⟩
    exact ⟨_, ht, hs, rfl⟩

/-- A transaction that is not committed before or after a change of its status changes no
committed row. -/
theorem committedRows_update {s : TxStatus} (h : status w ≠ .committed) (h' : s ≠ .committed) :
    committedRows (Function.update status w s) heap = committedRows status heap := by
  rw [committedRows, committedRows]
  congr 2
  funext t
  by_cases ht : t.xmin = w <;> simp [ht, h, h']

/-- Committing adds exactly the rows of the transaction. -/
theorem mem_committedRows_commit {r : Row} :
    r ∈ committedRows (Function.update status w .committed) heap ↔
      r ∈ committedRows status heap ∨ r ∈ rowsOf w heap := by
  simp only [mem_committedRows, mem_rowsOf]
  constructor
  · rintro ⟨t, ht, hs, rfl⟩
    by_cases hx : t.xmin = w
    · subst hx
      exact .inr ht
    · rw [Function.update_of_ne hx] at hs
      exact .inl ⟨t, ht, hs, rfl⟩
  · rintro (⟨t, ht, hs, rfl⟩ | ht)
    · by_cases hx : t.xmin = w
      · exact ⟨t, ht, by simp [hx], rfl⟩
      · exact ⟨t, ht, by rwa [Function.update_of_ne hx], rfl⟩
    · exact ⟨_, ht, by simp, rfl⟩

theorem committedRows_commit_perm (heap : Heap W Row) (h : status w ≠ .committed) :
    (committedRows (Function.update status w .committed) heap).Perm
      (committedRows status heap ++ rowsOf w heap) := by
  induction heap with
  | nil => exact .nil
  | cons t heap ih =>
    by_cases ht : t.xmin = w
    · have hown : rowsOf w (t :: heap) = t.row :: rowsOf w heap := by simp [rowsOf, ht]
      have hnew : committedRows (Function.update status w .committed) (t :: heap) =
          t.row :: committedRows (Function.update status w .committed) heap := by
        simp [committedRows, ht]
      have hold : committedRows status (t :: heap) = committedRows status heap := by
        simp [committedRows, ht, h]
      rw [hown, hnew, hold]
      exact (ih.cons _).trans List.perm_middle.symm
    · have hown : rowsOf w (t :: heap) = rowsOf w heap := by simp [rowsOf, ht]
      by_cases hs : status t.xmin = .committed
      · simpa [committedRows, ht, hs, hown] using ih
      · simpa [committedRows, ht, hs, hown] using ih

/-- A transaction sees what is committed and, while it runs, its own writes. -/
def visible (status : W → TxStatus) (w : W) (t : Tuple W Row) : Bool :=
  status t.xmin = .committed || (t.xmin = w && (status w).inProgress)

def visibleRows (status : W → TxStatus) (w : W) (heap : Heap W Row) : List Row :=
  (heap.filter (visible status w)).map (·.row)

theorem mem_visibleRows {r : Row} :
    r ∈ visibleRows status w heap ↔ ∃ t ∈ heap, visible status w t = true ∧ t.row = r := by
  simp [visibleRows, and_assoc]

/-- Outside its own transaction a reader sees exactly the committed rows. -/
theorem visibleRows_of_not_inProgress (h : (status w).inProgress = false) :
    visibleRows status w heap = committedRows status heap := by
  rw [visibleRows, committedRows]
  congr 2
  funext t
  simp [visible, h]

/-- A reader that wrote nothing sees exactly the committed rows. -/
theorem visibleRows_of_rowsOf_nil (h : rowsOf w heap = []) :
    visibleRows status w heap = committedRows status heap := by
  rw [visibleRows, committedRows]
  congr 1
  apply List.filter_congr
  intro t ht
  have hx : t.xmin ≠ w := by
    rintro rfl
    have hm : t.row ∈ rowsOf t.xmin heap := mem_rowsOf.mpr ht
    simp [h] at hm
  simp [visible, hx]

variable [DecidableEq K]

/-- The other transactions in progress that inserted key `k`; an insert of `k` waits for them. -/
def inserters (status : W → TxStatus) (key : Row → K) (k : K) (w : W) (heap : Heap W Row) : List W :=
  (heap.filter fun t => key t.row = k ∧ t.xmin ≠ w ∧ (status t.xmin).inProgress).map (·.xmin)

def present (status : W → TxStatus) (key : Row → K) (k : K) (w : W) (heap : Heap W Row) : Bool :=
  (visibleRows status w heap).any fun r => key r = k

theorem inserters_eq_nil :
    inserters status key k w heap = [] ↔
      ∀ t ∈ heap, key t.row = k → t.xmin ≠ w → (status t.xmin).inProgress = false := by
  simp [inserters, List.filter_eq_nil_iff]

theorem mem_inserters {u : W} :
    u ∈ inserters status key k w heap ↔
      ∃ t ∈ heap, key t.row = k ∧ t.xmin ≠ w ∧ (status t.xmin).inProgress = true ∧ t.xmin = u := by
  simp [inserters, and_assoc]

theorem present_eq_true :
    present status key k w heap = true ↔
      ∃ t ∈ heap, visible status w t = true ∧ key t.row = k := by
  simp only [present, List.any_eq_true, mem_visibleRows, decide_eq_true_eq]
  constructor
  · rintro ⟨_, ⟨t, ht, hv, rfl⟩, hk⟩
    exact ⟨t, ht, hv, hk⟩
  · rintro ⟨t, ht, hv, hk⟩
    exact ⟨_, ⟨t, ht, hv, rfl⟩, hk⟩

theorem present_eq_false :
    present status key k w heap = false ↔
      ∀ t ∈ heap, visible status w t = true → key t.row ≠ k := by
  rw [← Bool.not_eq_true, present_eq_true]
  push Not
  rfl

/-- An insert that waits for nobody and meets no visible row meets no living row at all. -/
theorem not_alive_of_free (hw : inserters status key k w heap = [])
    (hp : present status key k w heap = false) {t : Tuple W Row} (ht : t ∈ heap)
    (hk : key t.row = k) : (status t.xmin).alive = false := by
  have hv := present_eq_false.mp hp t ht
  by_contra ha
  have ha' : (status t.xmin).alive = true := by simpa using ha
  rw [TxStatus.alive, Bool.or_eq_true, decide_eq_true_eq] at ha'
  rcases ha' with hi | hc
  · by_cases hx : t.xmin = w
    · exact hv (by simp [visible, hx, hx ▸ hi]) hk
    · simp [inserters_eq_nil.mp hw t ht hk hx] at hi
  · exact hv (by simp [visible, hc]) hk

theorem UniqueKey.insert (h : UniqueKey status key heap) {r : Row}
    (hw : inserters status key (key r) w heap = [])
    (hp : present status key (key r) w heap = false) :
    UniqueKey status key (heap ++ [⟨w, r⟩]) := by
  refine List.pairwise_append.mpr ⟨h, List.pairwise_singleton _ _, ?_⟩
  intro t ht u hu hta _ hk
  rw [List.mem_singleton] at hu
  subst hu
  simp [not_alive_of_free hw hp ht hk] at hta

end Heap
end Librarian.Foundation
