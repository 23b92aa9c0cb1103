import Librarian.Postgres.Database

/-! # What one call contributes to the database

The footprint of a call is its connections and its transaction's status with the rows it
wrote and the locks it took. A statement changes the footprint of its own call only, so claims
about one call are stated about its footprint, and everything the others see are the committed
rows.
-/
namespace Librarian.Postgres
open Foundation

@[ext] structure Footprint where
  status : TxStatus
  connections : ℕ
  documents : List DocumentRow
  versions : List VersionRow
  operations : List PutOperationRow
  locks : List (RowId × LockMode)

def Footprint.empty : Footprint := ⟨.idle, 0, [], [], [], []⟩

/-- A call with a connection, before its transaction. -/
def Footprint.connected : Footprint := ⟨.idle, 1, [], [], [], []⟩

/-- A call that has only begun its transaction. -/
def Footprint.begun : Footprint := ⟨.active, 1, [], [], [], []⟩

namespace Database
variable (db : Database) (c : Call)

def footprint : Footprint where
  status := db.status c
  connections := db.connections.count c
  documents := Heap.rowsOf c db.documents
  versions := Heap.rowsOf c db.documentVersions
  operations := Heap.rowsOf c db.putOperations
  locks := (db.locks.filter fun l => l.owner = c).map fun l => (l.target, l.mode)

def committedDocuments : List DocumentRow := Heap.committedRows db.status db.documents

def committedVersions : List VersionRow := Heap.committedRows db.status db.documentVersions

def committedOperations : List PutOperationRow := Heap.committedRows db.status db.putOperations

/-- `c` excludes all other writers of document `d`: it created `d` or locked it for update. -/
def Holds (d : Uuid) : Prop :=
  (∃ row ∈ (db.footprint c).documents, row.documentId = d) ∨
    (RowId.document d, LockMode.forUpdate) ∈ (db.footprint c).locks

/-- The committed rows of `db` stay. -/
structure Grows (db' : Database) : Prop where
  documents : db.committedDocuments ⊆ db'.committedDocuments
  versions : db.committedVersions ⊆ db'.committedVersions
  operations : db.committedOperations ⊆ db'.committedOperations

/-- Only call `c` did something, and no committed row is new. -/
structure Quiet (db' : Database) : Prop where
  others : ∀ c', c' ≠ c → db'.footprint c' = db.footprint c'
  documents : db'.committedDocuments = db.committedDocuments
  versions : db'.committedVersions = db.committedVersions
  operations : db'.committedOperations = db.committedOperations

/-- What the other calls may do to the database while `c` is between two statements. -/
structure Rely (db' : Database) : Prop where
  footprint : db'.footprint c = db.footprint c
  grows : db.Grows db'
  held : (db.status c).inProgress → ∀ d, db.Holds c d → ∀ row ∈ db'.committedVersions,
    row.documentId = d → row ∈ db.committedVersions

variable {db c} {db' db'' : Database}

theorem Grows.refl (db : Database) : db.Grows db :=
  ⟨List.Subset.refl _, List.Subset.refl _, List.Subset.refl _⟩

theorem Grows.trans (h : db.Grows db') (h' : db'.Grows db'') : db.Grows db'' where
  documents := List.Subset.trans h.documents h'.documents
  versions := List.Subset.trans h.versions h'.versions
  operations := List.Subset.trans h.operations h'.operations

theorem Quiet.grows (h : db.Quiet c db') : db.Grows db' where
  documents := by rw [h.documents]; exact List.Subset.refl _
  versions := by rw [h.versions]; exact List.Subset.refl _
  operations := by rw [h.operations]; exact List.Subset.refl _

theorem Quiet.status (h : db.Quiet c db') {c' : Call} (hne : c' ≠ c) :
    db'.status c' = db.status c' := congrArg Footprint.status (h.others c' hne)

theorem Quiet.trans (h : db.Quiet c db') (h' : db'.Quiet c db'') : db.Quiet c db'' where
  others c' hne := (h'.others c' hne).trans (h.others c' hne)
  documents := h'.documents.trans h.documents
  versions := h'.versions.trans h.versions
  operations := h'.operations.trans h.operations

theorem holds_congr (h : db'.footprint c = db.footprint c) (d : Uuid) :
    db'.Holds c d ↔ db.Holds c d := by
  rw [Holds, Holds, h]

theorem Rely.refl (db : Database) (c : Call) : db.Rely c db :=
  ⟨rfl, .refl db, fun _ _ _ _ h _ => h⟩

theorem Rely.trans (h : db.Rely c db') (h' : db'.Rely c db'') : db.Rely c db'' where
  footprint := h'.footprint.trans h.footprint
  grows := h.grows.trans h'.grows
  held hi d hd row hrow hid := by
    have hi' : (db'.status c).inProgress := by
      have hs : db'.status c = db.status c := congrArg Footprint.status h.footprint
      rwa [hs]
    exact h.held hi d hd row (h'.held hi' d ((holds_congr h.footprint d).mpr hd) row hrow hid) hid

/-- What is quiet for `c` is within what every other call relies on. -/
theorem Quiet.rely (h : db.Quiet c db') {c' : Call} (hne : c' ≠ c) : db.Rely c' db' where
  footprint := h.others c' hne
  grows := h.grows
  held _ _ _ row hrow _ := by rwa [h.versions] at hrow

/-- The latest version of a document that `c` holds does not move. -/
theorem Rely.latestVersion (h : db.Rely c db') (hi : (db.status c).inProgress) {d : Uuid}
    (hd : db.Holds c d) :
    latestVersion db'.committedVersions d = latestVersion db.committedVersions d :=
  latestVersion_congr fun row hrow =>
    ⟨fun hm => h.held hi d hd row hm hrow, fun hm => h.grows.versions hm⟩

section Updates

@[simp] theorem footprint_acquire :
    (db.acquire c).footprint c =
      { db.footprint c with connections := (db.footprint c).connections + 1 } := by
  simp [footprint, acquire]

@[simp] theorem footprint_release :
    (db.release c).footprint c =
      { db.footprint c with connections := (db.footprint c).connections - 1 } := by
  simp [footprint, release]

@[simp] theorem footprint_setStatus (s : TxStatus) :
    (db.setStatus c s).footprint c = { db.footprint c with status := s } := by
  simp [footprint, setStatus]

@[simp] theorem footprint_begin :
    (db.begin c).footprint c = { db.footprint c with status := .active } := by
  simp [footprint, begin, setStatus]

@[simp] theorem footprint_addLock (target : RowId) (mode : LockMode) :
    (db.addLock c target mode).footprint c =
      { db.footprint c with locks := (target, mode) :: (db.footprint c).locks } := by
  simp [footprint, addLock]

@[simp] theorem footprint_addDocument (row : DocumentRow) :
    (db.addDocument c row).footprint c =
      { db.footprint c with documents := (db.footprint c).documents ++ [row] } := by
  simp [footprint, addDocument]

@[simp] theorem footprint_addVersion (row : VersionRow) :
    (db.addVersion c row).footprint c =
      { db.footprint c with versions := (db.footprint c).versions ++ [row] } := by
  simp [footprint, addVersion]

@[simp] theorem footprint_addPutOperation (row : PutOperationRow) :
    (db.addPutOperation c row).footprint c =
      { db.footprint c with operations := (db.footprint c).operations ++ [row] } := by
  simp [footprint, addPutOperation]

theorem footprint_setStatus_other {s : TxStatus} {c' : Call} (h : c' ≠ c) :
    (db.setStatus c s).footprint c' = db.footprint c' := by
  simp [footprint, setStatus, h]

theorem quiet_acquire : db.Quiet c (db.acquire c) where
  others _ hne := by simp [footprint, acquire, hne.symm]
  documents := rfl
  versions := rfl
  operations := rfl

theorem quiet_release : db.Quiet c (db.release c) where
  others _ hne := by simp [footprint, release, List.count_erase_of_ne hne]
  documents := rfl
  versions := rfl
  operations := rfl

theorem quiet_tick (now : ℤ) : db.Quiet c (db.tick now) := ⟨fun _ _ => rfl, rfl, rfl, rfl⟩

/-- A change of status is quiet when the transaction is committed neither before nor after. -/
theorem quiet_setStatus {s : TxStatus} (h : db.status c ≠ .committed) (hs : s ≠ .committed) :
    db.Quiet c (db.setStatus c s) where
  others _ hne := footprint_setStatus_other hne
  documents := Heap.committedRows_update h hs
  versions := Heap.committedRows_update h hs
  operations := Heap.committedRows_update h hs

theorem quiet_begin (h : db.status c ≠ .committed) : db.Quiet c (db.begin c) where
  others _ hne := by simp [footprint, begin, setStatus, hne]
  documents := Heap.committedRows_update h (by simp)
  versions := Heap.committedRows_update h (by simp)
  operations := Heap.committedRows_update h (by simp)

theorem quiet_addLock (target : RowId) (mode : LockMode) :
    db.Quiet c (db.addLock c target mode) where
  others _ hne := by simp [footprint, addLock, hne.symm]
  documents := rfl
  versions := rfl
  operations := rfl

theorem quiet_addDocument (row : DocumentRow) (h : db.status c ≠ .committed) :
    db.Quiet c (db.addDocument c row) where
  others _ hne := by simp [footprint, addDocument, Heap.rowsOf_append_other hne.symm]
  documents := Heap.committedRows_insert row h
  versions := rfl
  operations := rfl

theorem quiet_addVersion (row : VersionRow) (h : db.status c ≠ .committed) :
    db.Quiet c (db.addVersion c row) where
  others _ hne := by simp [footprint, addVersion, Heap.rowsOf_append_other hne.symm]
  documents := rfl
  versions := Heap.committedRows_insert row h
  operations := rfl

theorem quiet_addPutOperation (row : PutOperationRow) (h : db.status c ≠ .committed) :
    db.Quiet c (db.addPutOperation c row) where
  others _ hne := by simp [footprint, addPutOperation, Heap.rowsOf_append_other hne.symm]
  documents := rfl
  versions := rfl
  operations := Heap.committedRows_insert row h

end Updates
end Database
end Librarian.Postgres
