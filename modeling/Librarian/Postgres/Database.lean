import Librarian.Foundation.Heap
import Librarian.Postgres.Schema
import Mathlib.Logic.Function.Basic

/-! # The database engine, one statement at a time

Every statement runs under READ COMMITTED: it reads the rows committed when it runs and the
rows of its own transaction. Inserts wait for other transactions that inserted the same
key, row locks wait for conflicting locks, and locks and uncommitted rows last until their
transaction ends. The references a foreign key checks are statements of their own
(`keyShare`), so that the lock they take comes after the row is inserted.
-/
namespace Librarian.Postgres
open Foundation

/-- One call of the repository, made by one process. A call has at most one transaction. -/
structure Call where
  process : ℕ
  serial : ℕ
  deriving DecidableEq

inductive RowId where
  | document (documentId : Uuid)
  | version (documentId : Uuid) (version : ℤ)
  deriving DecidableEq

/-- `FOR KEY SHARE` is the lock a foreign key takes on the row it refers to. -/
inductive LockMode where
  | forKeyShare
  | forUpdate
  deriving DecidableEq

def LockMode.conflicts : LockMode → LockMode → Bool
  | .forKeyShare, .forKeyShare => false
  | _, _ => true

structure Lock where
  owner : Call
  target : RowId
  mode : LockMode
  deriving DecidableEq

/-- `connections` are the calls that hold a pooled connection, and `startedAt` is
`transaction_timestamp()`. -/
structure Database where
  documents : Heap Call DocumentRow
  documentVersions : Heap Call VersionRow
  putOperations : Heap Call PutOperationRow
  status : Call → TxStatus
  startedAt : Call → ℤ
  locks : List Lock
  connections : List Call
  clock : ℤ

/-- A database whose migrations have just run. -/
def Database.empty (clock : ℤ) : Database where
  documents := []
  documentVersions := []
  putOperations := []
  status _ := .idle
  startedAt _ := 0
  locks := []
  connections := []
  clock := clock

/-- The statements of the repository, each with its parameters. -/
inductive Stmt where
  | connection
  | findPutOperation (requestId : Uuid)
  | transaction
  | insertDocument (documentId : Uuid)
  | lockDocument (documentId : Uuid)
  | nextVersion (documentId : Uuid)
  | insertVersion (documentId : Uuid) (version : ℤ) (document : PutDocument) (digest : List UInt8)
  | keyShare (target : RowId)
  | insertPutOperation (requestId documentId : Uuid) (version : ℤ)
  | rollback
  | commit
  | findVersion (documentId : Uuid) (version : ℤ)
  | findLatestVersion (documentId : Uuid)
  | search (query : String) (limit : ℤ)
  deriving DecidableEq

/-- What a statement returns when it succeeds; an insert `ON CONFLICT DO NOTHING` returns the
number of rows inserted. -/
def Stmt.Row : Stmt → Type
  | .findPutOperation _ => Option (Uuid × ℤ)
  | .lockDocument _ => Bool
  | .nextVersion _ => ℤ
  | .insertPutOperation _ _ _ => ℕ
  | .findVersion _ _ | .findLatestVersion _ => Option VersionRow
  | .search _ _ => List SearchHit
  | _ => Unit

inductive Outcome (α : Type) where
  | blocked
  | error
  | row (a : α) (db : Database)

def Outcome.isError {α : Type} : Outcome α → Bool
  | .error => true
  | _ => false

/-- The pool size each process uses. -/
def defaultMaxPoolSize : ℕ := 10

namespace Database
variable (db : Database) (c : Call)

def inProgress : Bool := (db.status c).inProgress

def setStatus (s : TxStatus) : Database := { db with status := Function.update db.status c s }

/-- A statement of an open transaction failed: PostgreSQL refuses all further ones. -/
def fail : Database := if db.status c = .active then db.setStatus c .failed else db

/-- The rollback that dropping an open `Transaction` performs. -/
def dropTransaction : Database :=
  if db.status c = .active ∨ db.status c = .failed then db.setStatus c .aborted else db

def acquire : Database := { db with connections := c :: db.connections }

def release : Database := { db with connections := db.connections.erase c }

def tick (now : ℤ) : Database := { db with clock := now }

def addLock (target : RowId) (mode : LockMode) : Database :=
  { db with locks := ⟨c, target, mode⟩ :: db.locks }

def begin : Database :=
  { db.setStatus c .active with startedAt := Function.update db.startedAt c db.clock }

def addDocument (row : DocumentRow) : Database :=
  { db with documents := db.documents ++ [⟨c, row⟩] }

def addVersion (row : VersionRow) : Database :=
  { db with documentVersions := db.documentVersions ++ [⟨c, row⟩] }

def addPutOperation (row : PutOperationRow) : Database :=
  { db with putOperations := db.putOperations ++ [⟨c, row⟩] }

/-- The other transactions in progress whose lock on `target` conflicts with `mode`. -/
def lockers (target : RowId) (mode : LockMode) : List Call :=
  (db.locks.filter fun l => l.target = target ∧ l.owner ≠ c ∧ db.inProgress l.owner ∧
    mode.conflicts l.mode).map (·.owner)

/-- Whether a snapshot taken now shows the row. -/
def sees : RowId → Bool
  | .document d => Heap.present db.status (·.documentId) d c db.documents
  | .version d v => Heap.present db.status VersionRow.key (d, v) c db.documentVersions

/-- The transactions a statement has to wait for. -/
def blockers : Stmt → List Call
  | .insertDocument d => Heap.inserters db.status (·.documentId) d c db.documents
  | .lockDocument d => if db.sees c (.document d) then db.lockers c (.document d) .forUpdate else []
  | .insertVersion d v _ _ => Heap.inserters db.status VersionRow.key (d, v) c db.documentVersions
  | .keyShare target => if db.sees c target then db.lockers c target .forKeyShare else []
  | .insertPutOperation r _ _ => Heap.inserters db.status (·.requestId) r c db.putOperations
  | _ => []

def poolFull : Bool :=
  defaultMaxPoolSize ≤ (db.connections.filter fun x => x.process = c.process).length

/-- The row `INSERT_VERSION_SQL` writes, with the default of `created_at`. -/
def newVersion (d : Uuid) (v : ℤ) (document : PutDocument) (digest : List UInt8) : VersionRow where
  documentId := d
  version := v
  content := document.content
  contentType := document.contentType
  title := document.title
  sourceUri := document.sourceUri
  contentDigest := digest
  createdAt := db.startedAt c

/-- The versions one statement of `c` reads. -/
def versionsSeen : List VersionRow := Heap.visibleRows db.status c db.documentVersions

/-- `ORDER BY version DESC LIMIT 1` over the rows of one document. -/
def latestRow (rows : List VersionRow) (d : Uuid) : Option VersionRow :=
  ((rows.filter fun r => r.documentId = d).mergeSort fun a b => b.version ≤ a.version).head?

theorem latestRow_eq_some {rows : List VersionRow} {d : Uuid} {row : VersionRow}
    (h : latestRow rows d = some row) :
    row ∈ rows ∧ row.documentId = d ∧ ∀ r ∈ rows, r.documentId = d → r.version ≤ row.version := by
  have hsorted : ((rows.filter fun r => r.documentId = d).mergeSort fun a b =>
      decide (b.version ≤ a.version)).Pairwise fun a b => decide (b.version ≤ a.version) = true := by
    apply List.pairwise_mergeSort
    · intro a b c hab hbc
      simp only [decide_eq_true_eq] at *
      omega
    · intro a b
      simp only [Bool.or_eq_true, decide_eq_true_eq]
      omega
  have hmem : ∀ r, r ∈ (rows.filter fun r => r.documentId = d).mergeSort (fun a b =>
      decide (b.version ≤ a.version)) ↔ r ∈ rows ∧ r.documentId = d := by
    intro r
    rw [List.mem_mergeSort, List.mem_filter, decide_eq_true_eq]
  rw [latestRow] at h
  generalize (rows.filter fun r => r.documentId = d).mergeSort (fun a b =>
    decide (b.version ≤ a.version)) = sorted at h hsorted hmem
  cases sorted with
  | nil => simp at h
  | cons x l =>
    obtain rfl : x = row := by simpa using h
    obtain ⟨hx, hd⟩ := (hmem x).mp List.mem_cons_self
    refine ⟨hx, hd, ?_⟩
    intro r hr hrd
    rcases List.mem_cons.mp ((hmem r).mpr ⟨hr, hrd⟩) with rfl | hl
    · exact Int.le_refl _
    · simpa using (List.pairwise_cons.mp hsorted).1 r hl

theorem latestRow_eq_none {rows : List VersionRow} {d : Uuid} (h : latestRow rows d = none) :
    ∀ r ∈ rows, r.documentId ≠ d := by
  intro r hr hd
  rw [latestRow, List.head?_eq_none_iff] at h
  have hm : r ∈ (rows.filter fun r => r.documentId = d).mergeSort fun a b =>
      decide (b.version ≤ a.version) := by
    simp [hr, hd]
  simp [h] at hm

/-- Statements of a transaction fail outside one and after a failure; the others wait for
`blockers` before they do anything. -/
def inTransaction (s : Stmt) (o : Outcome s.Row) : Outcome s.Row :=
  if db.status c ≠ .active then .error else if db.blockers c s ≠ [] then .blocked else o

/-- One statement of call `c`. -/
def exec [TextSearch] (plan : Plan) : (s : Stmt) → Outcome s.Row
  | .connection =>
    if db.poolFull c then .blocked else .row () (db.acquire c)
  | .findPutOperation r =>
    .row (((Heap.visibleRows db.status c db.putOperations).find? fun o => o.requestId = r).map
      (·.key)) db
  | .transaction =>
    if db.status c = .idle then .row () (db.begin c) else .error
  | .insertDocument d =>
    db.inTransaction c (.insertDocument d) <|
      if db.sees c (.document d) then .error
      else .row () (db.addDocument c ⟨d, db.startedAt c⟩)
  | .lockDocument d =>
    db.inTransaction c (.lockDocument d) <|
      if db.sees c (.document d) then .row true (db.addLock c (.document d) .forUpdate)
      else .row false db
  | .nextVersion d =>
    db.inTransaction c (.nextVersion d) <|
      if latestVersion (db.versionsSeen c) d + 1 ≤ i64Max then
        .row (latestVersion (db.versionsSeen c) d + 1) db
      else .error
  | .insertVersion d v document digest =>
    db.inTransaction c (.insertVersion d v document digest) <|
      if (db.newVersion c d v document digest).isStorable = false ∨ db.sees c (.version d v) then
        .error
      else .row () (db.addVersion c (db.newVersion c d v document digest))
  | .keyShare target =>
    db.inTransaction c (.keyShare target) <|
      if db.sees c target then .row () (db.addLock c target .forKeyShare) else .error
  | .insertPutOperation r d v =>
    db.inTransaction c (.insertPutOperation r d v) <|
      if Heap.present db.status (·.requestId) r c db.putOperations then .row (0 : ℕ) db
      else .row (1 : ℕ) (db.addPutOperation c ⟨r, d, v, db.startedAt c⟩)
  | .rollback => if db.inProgress c then .row () (db.setStatus c .aborted) else .error
  | .commit =>
    -- COMMIT of a failed transaction is answered like a ROLLBACK
    if db.status c = .active then .row () (db.setStatus c .committed)
    else if db.status c = .failed then .row () (db.setStatus c .aborted)
    else .error
  | .findVersion d v => .row ((db.versionsSeen c).find? fun r => r.key = (d, v)) db
  | .findLatestVersion d => .row (latestRow (db.versionsSeen c) d) db
  | .search query limit =>
    if limit < 0 ∨ isQuery query = false then .error
    else .row (searchSql plan (db.versionsSeen c) query limit.toNat) db

end Database
end Librarian.Postgres
