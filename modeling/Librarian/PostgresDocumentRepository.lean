import Librarian.Foundation.Program
import Librarian.Postgres.Database

/-! # The document repository as a program over SQL statements

`put`, `get` and `search` in the order of the source. Every failed statement, whatever the
reason, becomes the error `repository` and ends the operation; the transaction and the
connection it leaves behind are dropped by the store. Identifiers are read from their text
without loss, so that parsing is not modelled.
-/
namespace Librarian.PostgresDocumentRepository
open Foundation Postgres

/-- A statement failed or its answer never came. -/
inductive PostgresError where
  | error
  deriving DecidableEq

inductive Effect where
  | sql (s : Stmt)
  | newUuid

def Effect.Ans : Effect → Type
  | .sql s => Except PostgresError s.Row
  | .newUuid => Uuid

abbrev Repo (α : Type) := Fallible Effect Effect.Ans DocumentError α

/-- One statement, with `map_err(|_| DocumentError::Repository)?`. -/
def query (s : Stmt) : Repo s.Row :=
  ExceptT.mk (.call (.sql s) fun ans => .ret (ans.mapError fun _ => .repository))

def newUuid : Repo Uuid := ExceptT.mk (.call .newUuid fun u => .ret (.ok u))

/-- `INSERT_VERSION_SQL` and the check of its foreign key. -/
def insertVersionSql [Sha256] (documentId : Uuid) (version : ℤ) (document : PutDocument) :
    Repo Unit := do
  query (.insertVersion documentId version document document.contentDigest.toList)
  query (.keyShare (.document documentId))

/-- `INSERT_PUT_OPERATION_SQL` and the checks of its foreign keys when a row is inserted. -/
def insertPutOperationSql (requestId documentId : Uuid) (version : ℤ) : Repo ℕ := do
  let inserted : ℕ ← query (.insertPutOperation requestId documentId version)
  if inserted = 0 then pure 0
  else do
    query (.keyShare (.document documentId))
    query (.keyShare (.version documentId version))
    pure inserted

/-- The document and version a put writes: a fresh document, or the next version of one that
is locked first. -/
def target (documentId : Option Uuid) : Repo (Uuid × ℤ) :=
  match documentId with
  | none => do
    let documentId ← newUuid
    query (.insertDocument documentId)
    pure (documentId, 1)
  | some documentId => do
    let found : Bool ← query (.lockDocument documentId)
    if found then do
      let nextVersion : ℤ ← query (.nextVersion documentId)
      pure (documentId, nextVersion)
    else throw .unknownDocument

/-- The branch for a lost race: discard this attempt and report the winner's result. -/
def reportWinner (requestId : Uuid) : Repo PutOutcome := do
  query .rollback
  let row : Option (Uuid × ℤ) ← query (.findPutOperation requestId)
  match row with
  | some (documentId, version) => pure ⟨documentId, version, true⟩
  | none => throw .repository

/-- The transaction of a put whose request is not recorded yet. -/
def write [Sha256] (requestId : Uuid) (document : PutDocument) : Repo PutOutcome := do
  query .transaction
  let (documentId, version) ← target document.documentId
  insertVersionSql documentId version document
  let inserted ← insertPutOperationSql requestId documentId version
  if inserted = 0 then reportWinner requestId
  else do
    query .commit
    pure ⟨documentId, version, false⟩

def put [Sha256] (requestId : Uuid) (document : PutDocument) : Repo PutOutcome :=
  if isBlank document.content then throw .emptyContent
  else if isBlank document.contentType then throw .emptyContentType
  else do
    query .connection
    let row : Option (Uuid × ℤ) ← query (.findPutOperation requestId)
    match row with
    | some (documentId, version) => pure ⟨documentId, version, true⟩
    | none => write requestId document

/-- `extract(epoch FROM created_at)::bigint` of a time in microseconds: rounded to the nearest
second, halves away from zero. -/
def epochSeconds (micros : ℤ) : ℤ :=
  if 0 ≤ micros then (micros + 500000) / 1000000 else -((500000 - micros) / 1000000)

/-- The conversion of a row, with the digest that has to have 32 bytes. -/
def readVersion (row : VersionRow) : Except DocumentError DocumentVersion :=
  if h : row.contentDigest.length = 32 then
    .ok {
      documentId := row.documentId
      version := row.version
      content := row.content
      contentType := row.contentType
      title := row.title
      sourceUri := row.sourceUri
      contentDigest := ⟨row.contentDigest.toArray, by simpa using h⟩
      createdAtUnix := epochSeconds row.createdAt }
  else .error .repository

def findVersion (documentId : Uuid) (version : Option ℤ) : Repo (Option VersionRow) :=
  match version with
  | some version => query (.findVersion documentId version)
  | none => query (.findLatestVersion documentId)

def get (documentId : Uuid) (version : Option ℤ) : Repo DocumentVersion := do
  query .connection
  let row ← findVersion documentId version
  match row with
  | some row => ExceptT.mk (.ret (readVersion row))
  | none => throw .notFound

def search (queryText : String) (limit : ℤ) : Repo (List SearchHit) := do
  query .connection
  query (.search queryText limit)

end Librarian.PostgresDocumentRepository
