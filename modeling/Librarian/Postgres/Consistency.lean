import Librarian.Postgres.Footprint

/-! # The invariant of the database

Unique keys and CHECK constraints hold by the schema. The rest holds because of what a put
does: versions without gaps, one version and one put operation for each transaction that
commits, and one writer at a time for each document.
-/
namespace Librarian.Postgres
open Foundation

/-- What a call has written fits together: a created document starts at version 1, a put
operation names the version beside it, and nothing commits without one. -/
structure Footprint.WellFormed (f : Footprint) : Prop where
  connection : f.connections ≤ 1
  document : f.documents.length ≤ 1
  version : f.versions.length ≤ 1
  operation : f.operations.length ≤ 1
  created : ∀ d ∈ f.documents, ∀ v ∈ f.versions, v.key = (d.documentId, 1)
  recorded : ∀ o ∈ f.operations, ∃ v ∈ f.versions, v.key = o.key
  complete : f.status = .committing ∨ f.status = .committed → f.operations ≠ []
  checked : ∀ v ∈ f.versions, v.satisfiesChecks = true
  target : ∀ t, (t, LockMode.forUpdate) ∈ f.locks → ∃ d, t = .document d

theorem eq_of_mem_of_length_le_one {α : Type} {l : List α} (h : l.length ≤ 1) {a b : α}
    (ha : a ∈ l) (hb : b ∈ l) : a = b := by
  match l, h with
  | [], _ => simp at ha
  | [x], _ =>
    rw [List.mem_singleton] at ha hb
    rw [ha, hb]

theorem eq_singleton_of_mem {α : Type} {l : List α} (h : l.length ≤ 1) {a : α} (ha : a ∈ l) :
    l = [a] := by
  match l, h with
  | [], _ => simp at ha
  | [x], _ => rw [List.mem_singleton.mp ha]

theorem length_le_one_of_eq {α : Type} {l : List α} (h : l.Nodup)
    (heq : ∀ a ∈ l, ∀ b ∈ l, a = b) : l.length ≤ 1 := by
  cases l with
  | nil => exact Nat.zero_le 1
  | cons a l =>
    -- a second element would equal the first
    cases l with
    | nil => exact le_refl 1
    | cons b l =>
      have hnot := (List.nodup_cons.mp h).1
      rw [heq a List.mem_cons_self b (by simp)] at hnot
      exact absurd List.mem_cons_self hnot

theorem Footprint.wellFormed_empty : Footprint.empty.WellFormed := by
  constructor <;> simp [Footprint.empty]

namespace Database

/-- `c` took the lock of `LOCK_DOCUMENT_SQL`. -/
def Locks (db : Database) (c : Call) (d : Uuid) : Prop :=
  (RowId.document d, LockMode.forUpdate) ∈ (db.footprint c).locks

def HasDocument (db : Database) (d : Uuid) : Prop :=
  ∃ row ∈ db.committedDocuments, row.documentId = d

structure Consistent (db : Database) : Prop where
  documentKey : Heap.UniqueKey db.status (·.documentId) db.documents
  versionKey : Heap.UniqueKey db.status VersionRow.key db.documentVersions
  operationKey : Heap.UniqueKey db.status (·.requestId) db.putOperations
  wellFormed : ∀ c, (db.footprint c).WellFormed
  locked : ∀ c d, db.Locks c d → db.HasDocument d
  exclusive : ∀ c c' d, (db.status c).inProgress → (db.status c').inProgress → db.Locks c d →
    db.Locks c' d → c = c'
  next : ∀ c, (db.status c).inProgress → ∀ v ∈ (db.footprint c).versions,
    (db.footprint c).documents = [] →
      db.Locks c v.documentId ∧ v.version = latestVersion db.committedVersions v.documentId + 1
  contiguous : ∀ row ∈ db.committedVersions, ∀ k, 1 ≤ k → k ≤ row.version →
    ∃ row' ∈ db.committedVersions, row'.key = (row.documentId, k)
  parent : ∀ row ∈ db.committedVersions, db.HasDocument row.documentId

variable {db db' : Database} {c c' : Call}

theorem footprint_empty (clock : ℤ) (c : Call) : (Database.empty clock).footprint c = .empty := rfl

theorem consistent_empty (clock : ℤ) : (Database.empty clock).Consistent where
  documentKey := .nil
  versionKey := .nil
  operationKey := .nil
  wellFormed _ := Footprint.wellFormed_empty
  locked := by simp [Locks, footprint_empty, Footprint.empty]
  exclusive := by simp [Locks, footprint_empty, Footprint.empty]
  next := by simp [footprint_empty, Footprint.empty]
  contiguous := by simp [committedVersions, Database.empty, Heap.committedRows]
  parent := by simp [committedVersions, Database.empty, Heap.committedRows]

theorem mem_documents {row : DocumentRow} :
    row ∈ (db.footprint c).documents ↔ ⟨c, row⟩ ∈ db.documents := Heap.mem_rowsOf

theorem mem_versions {row : VersionRow} :
    row ∈ (db.footprint c).versions ↔ ⟨c, row⟩ ∈ db.documentVersions := Heap.mem_rowsOf

theorem mem_operations {row : PutOperationRow} :
    row ∈ (db.footprint c).operations ↔ ⟨c, row⟩ ∈ db.putOperations := Heap.mem_rowsOf

theorem mem_committedDocuments {row : DocumentRow} :
    row ∈ db.committedDocuments ↔
      ∃ c, db.status c = .committed ∧ row ∈ (db.footprint c).documents :=
  Heap.mem_committedRows_iff_rowsOf

theorem mem_committedVersions {row : VersionRow} :
    row ∈ db.committedVersions ↔
      ∃ c, db.status c = .committed ∧ row ∈ (db.footprint c).versions :=
  Heap.mem_committedRows_iff_rowsOf

theorem mem_committedOperations {row : PutOperationRow} :
    row ∈ db.committedOperations ↔
      ∃ c, db.status c = .committed ∧ row ∈ (db.footprint c).operations :=
  Heap.mem_committedRows_iff_rowsOf

namespace Consistent

/-- A document that some call in progress created is not committed. -/
theorem not_hasDocument (h : db.Consistent) (hi : (db.status c).inProgress) {row : DocumentRow}
    (hrow : row ∈ (db.footprint c).documents) : ¬ db.HasDocument row.documentId := by
  rintro ⟨row', hrow', hid⟩
  obtain ⟨w, hw, hm⟩ := mem_committedDocuments.mp hrow'
  have heq := h.documentKey.eq_of_mem (mem_documents.mp hm) (mem_documents.mp hrow) (by simp [hw])
    (TxStatus.alive_of_inProgress hi) hid
  cases heq
  exact TxStatus.ne_committed_of_inProgress hi hw

/-- Two calls in progress never hold the same document. -/
theorem holds_unique (h : db.Consistent) (hi : (db.status c).inProgress)
    (hi' : (db.status c').inProgress) {d : Uuid} (hd : db.Holds c d) (hd' : db.Holds c' d) :
    c = c' := by
  rcases hd with ⟨row, hrow, rfl⟩ | hl
  · rcases hd' with ⟨row', hrow', hid⟩ | hl'
    · have heq := h.documentKey.eq_of_mem (mem_documents.mp hrow) (mem_documents.mp hrow')
        (TxStatus.alive_of_inProgress hi) (TxStatus.alive_of_inProgress hi') hid.symm
      exact congrArg Tuple.xmin heq
    · exact absurd (h.locked c' _ hl') (h.not_hasDocument hi hrow)
  · rcases hd' with ⟨row', hrow', rfl⟩ | hl'
    · exact absurd (h.locked c _ hl) (h.not_hasDocument hi' hrow')
    · exact h.exclusive c c' d hi hi' hl hl'

/-- Whoever writes a version holds its document. -/
theorem holds_of_version (h : db.Consistent) (hi : (db.status c).inProgress) {v : VersionRow}
    (hv : v ∈ (db.footprint c).versions) : db.Holds c v.documentId := by
  cases hdocs : (db.footprint c).documents with
  | nil => exact .inr (h.next c hi v hv hdocs).1
  | cons d l =>
    have hd : d ∈ (db.footprint c).documents := by simp [hdocs]
    have hkey := (h.wellFormed c).created d hd v hv
    exact .inl ⟨d, hd, (congrArg Prod.fst hkey).symm⟩

/-- A quiet statement keeps the invariant when it keeps the keys unique and what it adds to
its own footprint fits. -/
theorem quiet (h : db.Consistent) (q : db.Quiet c db')
    (documentKey : Heap.UniqueKey db'.status (·.documentId) db'.documents)
    (versionKey : Heap.UniqueKey db'.status VersionRow.key db'.documentVersions)
    (operationKey : Heap.UniqueKey db'.status (·.requestId) db'.putOperations)
    (wellFormed : (db'.footprint c).WellFormed)
    (locked : ∀ d, db'.Locks c d → db.HasDocument d)
    (exclusive : (db'.status c).inProgress → ∀ d, db'.Locks c d → ∀ c', c' ≠ c →
      (db.status c').inProgress → ¬ db.Locks c' d)
    (next : (db'.status c).inProgress → ∀ v ∈ (db'.footprint c).versions,
      (db'.footprint c).documents = [] →
        db'.Locks c v.documentId ∧ v.version = latestVersion db.committedVersions v.documentId + 1) :
    db'.Consistent where
  documentKey := documentKey
  versionKey := versionKey
  operationKey := operationKey
  wellFormed x := by
    by_cases hx : x = c
    · rw [hx]
      exact wellFormed
    · rw [q.others x hx]
      exact h.wellFormed x
  locked x d hl := by
    rw [HasDocument, q.documents]
    by_cases hx : x = c
    · exact locked d (hx ▸ hl)
    · rw [Locks, q.others x hx] at hl
      exact h.locked x d hl
  exclusive x y d hx hy hxl hyl := by
    by_cases hxc : x = c
    · subst hxc
      by_contra hxy
      have hne : y ≠ x := fun e => hxy e.symm
      rw [q.status hne] at hy
      rw [Locks, q.others y hne] at hyl
      exact exclusive hx d hxl y hne hy hyl
    · rw [q.status hxc] at hx
      rw [Locks, q.others x hxc] at hxl
      by_cases hyc : y = c
      · subst hyc
        exact absurd hxl (exclusive hy d hyl x hxc hx)
      · rw [q.status hyc] at hy
        rw [Locks, q.others y hyc] at hyl
        exact h.exclusive x y d hx hy hxl hyl
  next x hx v hv hd := by
    rw [q.versions]
    by_cases hxc : x = c
    · subst hxc
      exact next hx v hv hd
    · rw [q.status hxc] at hx
      rw [q.others x hxc] at hv hd
      rw [Locks, q.others x hxc]
      exact h.next x hx v hv hd
  contiguous := by
    rw [q.versions]
    exact h.contiguous
  parent := by
    rw [q.versions]
    intro row hrow
    rw [HasDocument, q.documents]
    exact h.parent row hrow

/-- A transaction that ends without a commit, fails, or whose commit is sent. -/
theorem restatus (h : db.Consistent) (hi : (db.status c).inProgress) {s : TxStatus}
    (hs : s ≠ .committed)
    (hsent : s = .committing → (db.footprint c).operations ≠ []) : (db.setStatus c s).Consistent := by
  have halive : ∀ x, ((db.setStatus c s).status x).alive = true → (db.status x).alive = true := by
    intro x hx
    by_cases hxc : x = c
    · rw [hxc]
      exact TxStatus.alive_of_inProgress hi
    · simpa [setStatus, hxc] using hx
  have hw := h.wellFormed c
  apply h.quiet (quiet_setStatus (TxStatus.ne_committed_of_inProgress hi) hs)
  · exact h.documentKey.restatus fun t _ => halive t.xmin
  · exact h.versionKey.restatus fun t _ => halive t.xmin
  · exact h.operationKey.restatus fun t _ => halive t.xmin
  · rw [footprint_setStatus]
    exact { hw with complete := fun e => e.elim hsent fun e => absurd e hs }
  · intro d hl
    simp only [Locks, footprint_setStatus] at hl
    exact h.locked c d hl
  · intro _ d hl c' hne hi' hl'
    simp only [Locks, footprint_setStatus] at hl
    exact hne (h.exclusive c' c d hi' hi hl' hl)
  · intro _ v hv hd
    simp only [Locks, footprint_setStatus] at hv hd ⊢
    exact h.next c hi v hv hd

theorem begin (h : db.Consistent) (hf : db.footprint c = .connected) : (db.begin c).Consistent := by
  have hidle : db.status c = .idle := congrArg Footprint.status hf
  have halive : ∀ x, x ≠ c → ((db.begin c).status x).alive = true → (db.status x).alive = true := by
    intro x hx ha
    simpa [Database.begin, setStatus, hx] using ha
  have hown : (db.begin c).footprint c = .begun := by
    rw [footprint_begin, hf]
    rfl
  apply h.quiet (quiet_begin (by simp [hidle]))
  · apply h.documentKey.restatus
    intro t ht
    apply halive
    rintro rfl
    simpa [hf, Footprint.connected] using mem_documents.mpr ht
  · apply h.versionKey.restatus
    intro t ht
    apply halive
    rintro rfl
    simpa [hf, Footprint.connected] using mem_versions.mpr ht
  · apply h.operationKey.restatus
    intro t ht
    apply halive
    rintro rfl
    simpa [hf, Footprint.connected] using mem_operations.mpr ht
  · rw [hown]
    constructor <;> simp [Footprint.begun]
  · simp [Locks, hown, Footprint.begun]
  · simp [Locks, hown, Footprint.begun]
  · simp [hown, Footprint.begun]

/-- Keys and rows do not depend on the pool. -/
theorem pooled (h : db.Consistent) (q : db.Quiet c db') (hd : db'.documents = db.documents)
    (hv : db'.documentVersions = db.documentVersions) (ho : db'.putOperations = db.putOperations)
    (hs : db'.status = db.status) (hl : db'.locks = db.locks)
    (hc : (db'.footprint c).connections ≤ 1) : db'.Consistent := by
  have hf : db'.footprint c =
      { db.footprint c with connections := (db'.footprint c).connections } := by
    simp [footprint, hd, hv, ho, hs, hl]
  apply h.quiet q
  · rw [hs, hd]
    exact h.documentKey
  · rw [hs, hv]
    exact h.versionKey
  · rw [hs, ho]
    exact h.operationKey
  · rw [hf]
    exact { h.wellFormed c with connection := hc }
  · intro d hlock
    rw [Locks, hf] at hlock
    exact h.locked c d hlock
  · intro hi d hlock c' hne hi' hlock'
    rw [Locks, hf] at hlock
    rw [hs] at hi
    exact hne (h.exclusive c' c d hi' hi hlock' hlock)
  · intro hi v hrow hdocs
    rw [hf] at hrow hdocs
    rw [hs] at hi
    rw [Locks, hf]
    exact h.next c hi v hrow hdocs

end Consistent
end Database
end Librarian.Postgres
