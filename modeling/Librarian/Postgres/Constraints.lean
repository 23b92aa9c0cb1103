import Librarian.Postgres.Consistency
import Librarian.Postgres.Migrations

/-! # What the constraints of the schema say about rows

A row maps the names of its columns to values. Statements leave a generated column to the table,
which may fail to generate it. A CHECK constraint refuses a row only where its condition is false:
with NULL most conditions are neither true nor false.
-/
namespace Librarian.Postgres
open Foundation

/-- A search vector is given by the title and the content it is made of. -/
inductive Value where
  | null
  | uuid (u : Uuid)
  | timestamptz (micros : ℤ)
  | bigint (n : ℤ)
  | text (s : String)
  | bytea (bytes : List UInt8)
  | tsvector (title content : String)
  deriving DecidableEq

abbrev Record := String → Value

namespace Value

def hasType : SqlType → Value → Bool
  | _, .null => true
  | .uuid, .uuid _ => true
  | .timestamptz, .timestamptz _ => true
  | .bigint, .bigint n => i64Min ≤ n && n ≤ i64Max
  | .text, .text s => isText s
  | .bytea, .bytea _ => true
  | .tsvector, .tsvector _ _ => true
  | _, _ => false

/-- The vector of `0002_search.sql`, unless it is too long; only the title is coalesced. -/
def searchVector [TextSearch] : Value → Value → Option Value
  | .text title, .text content =>
    if TextSearch.fits title content then some (.tsvector title content) else none
  | _, .text content => if TextSearch.fits "" content then some (.tsvector "" content) else none
  | _, _ => some .null

end Value

/-- `OR`, where `none` is NULL. -/
def orNull : Option Bool → Option Bool → Option Bool
  | some true, _ | _, some true => some true
  | some false, some false => some false
  | _, _ => none

@[simp] theorem orNull_false (b : Option Bool) : orNull (some false) b = b := by
  rcases b with _ | _ | _ <;> rfl

/-- The value of a condition, or `none` where it is NULL. -/
def Condition.eval (r : Record) : Condition → Option Bool
  | .atLeast column n =>
    match r column with
    | .bigint v => some (n ≤ v)
    | _ => none
  | .charLengthBetween column lo hi =>
    match r column with
    | .text s => some (Postgres.charLengthBetween lo hi s)
    | _ => none
  | .octetLength column n =>
    match r column with
    | .bytea bytes => some (bytes.length = n)
    | _ => none
  | .isNull column => some (r column = .null)
  | .or a b => orNull (a.eval r) (b.eval r)

def Column.accepts (column : Column) (r : Record) : Bool :=
  (r column.name).hasType column.type && (!column.notNull || r column.name ≠ .null)

/-- The row with the column generated, whatever a statement wrote there. -/
def Column.generate [TextSearch] (r : Record) (column : Column) : Option Record :=
  match column.fill with
  | .searchVector =>
    (Value.searchVector (r "title") (r "content")).map (Function.update r column.name)
  | _ => some r

/-- The table makes a row of what a statement wrote, and the row meets the constraints. -/
def Table.accepts [TextSearch] (t : Table) (r : Record) : Bool :=
  (t.columns.foldlM Column.generate r).any fun row =>
    t.columns.all (·.accepts row) && t.checks.all fun check => check.eval row ≠ some false

/-- The rows of a table meet its constraints. A foreign key with a NULL refers to nothing. -/
structure Table.Valid [TextSearch] (t : Table) (name : String) (rows : String → List Record) : Prop where
  accepted : ∀ r ∈ rows name, t.accepts r = true
  primaryKey : ((rows name).map fun r => t.primaryKey.map r).Nodup
  foreignKeys : ∀ key ∈ t.foreignKeys, ∀ r ∈ rows name, (∃ column ∈ key.columns, r column = .null) ∨
    ∃ parent ∈ rows key.table, key.referenced.map parent = key.columns.map r

def DocumentRow.record (row : DocumentRow) : Record
  | "document_id" => .uuid row.documentId
  | "created_at" => .timestamptz row.createdAt
  | _ => .null

def VersionRow.record (row : VersionRow) : Record
  | "document_id" => .uuid row.documentId
  | "version" => .bigint row.version
  | "content" => .text row.content
  | "content_type" => .text row.contentType
  | "title" => row.title.elim .null .text
  | "source_uri" => row.sourceUri.elim .null .text
  | "content_digest" => .bytea row.contentDigest
  | "created_at" => .timestamptz row.createdAt
  | _ => .null

def PutOperationRow.record (row : PutOperationRow) : Record
  | "request_id" => .uuid row.requestId
  | "document_id" => .uuid row.documentId
  | "version" => .bigint row.version
  | "processed_at" => .timestamptz row.processedAt
  | _ => .null

/-- The committed rows by table. -/
def Database.records (db : Database) : String → List Record
  | "documents" => db.committedDocuments.map DocumentRow.record
  | "document_versions" => db.committedVersions.map VersionRow.record
  | "put_operations" => db.committedOperations.map PutOperationRow.record
  | _ => []

section Tables
variable [TextSearch] {db : Database}

theorem documents_accepts (row : DocumentRow) : documents.accepts row.record = true := by
  simp [Table.accepts, documents, Column.generate, Column.accepts, DocumentRow.record, Value.hasType]

theorem putOperations_accepts {row : PutOperationRow} :
    putOperations.accepts row.record = true ↔ i64Min ≤ row.version ∧ row.version ≤ i64Max := by
  simp [Table.accepts, putOperations, Column.generate, Column.accepts, PutOperationRow.record,
    Value.hasType]

/-- The engine refuses for itself the rows that the table does not accept. -/
theorem documentVersions_accepts {row : VersionRow} :
    (documentVersions.add searchVector).accepts row.record = true ↔
      row.isStorable = true ∧ row.version ≤ i64Max := by
  have hmin : 1 ≤ row.version → i64Min ≤ row.version := fun h => by
    unfold i64Min
    omega
  -- an optional text is NULL and passes, or is a text and has to pass
  cases htitle : row.title <;> cases hsource : row.sourceUri <;>
    cases hfits : TextSearch.fits (row.title.getD "") row.content <;>
    simp only [htitle, Option.getD_some, Option.getD_none] at hfits <;>
    simp [Table.accepts, documentVersions, Table.add, searchVector, Column.generate, Column.accepts,
      VersionRow.record, Value.hasType, Value.searchVector, Condition.eval, VersionRow.isStorable,
      VersionRow.satisfiesChecks, Function.update, htitle, hsource, hfits] <;>
    tauto

theorem valid_documents (h : db.Consistent) : documents.Valid "documents" db.records where
  accepted := by
    intro r hr
    rcases List.mem_map.mp hr with ⟨row, -, rfl⟩
    exact documents_accepts row
  primaryKey := by
    change ((db.committedDocuments.map DocumentRow.record).map _).Nodup
    have hkeys := h.documentKey.nodup_committed.map (f := fun d => [Value.uuid d])
      fun d d' heq => by simpa using heq
    rwa [List.map_map] at hkeys ⊢
  foreignKeys := by simp [documents]

theorem valid_versions (h : db.Consistent)
    (hstorable : ∀ row ∈ db.committedVersions, row.isStorable = true ∧ row.version ≤ i64Max) :
    (documentVersions.add searchVector).Valid "document_versions" db.records where
  accepted := by
    intro r hr
    rcases List.mem_map.mp hr with ⟨row, hrow, rfl⟩
    exact documentVersions_accepts.mpr (hstorable row hrow)
  primaryKey := by
    change ((db.committedVersions.map VersionRow.record).map _).Nodup
    have hkeys := h.versionKey.nodup_committed.map (f := fun k => [Value.uuid k.1, Value.bigint k.2])
      fun k k' heq => by simpa [Prod.ext_iff] using heq
    rwa [List.map_map] at hkeys ⊢
  foreignKeys := by
    intro key hkey r hr
    rw [List.mem_singleton.mp hkey]
    rcases List.mem_map.mp hr with ⟨row, hrow, rfl⟩
    rcases h.parent row hrow with ⟨document, hdocument, hid⟩
    exact .inr ⟨document.record, List.mem_map_of_mem hdocument, by
      simp [DocumentRow.record, VersionRow.record, hid]⟩

/-- A recorded put names a version that is there, and so a document. -/
theorem valid_putOperations (h : db.Consistent)
    (hmax : ∀ row ∈ db.committedVersions, row.version ≤ i64Max) :
    putOperations.Valid "put_operations" db.records := by
  have hversion : ∀ o ∈ db.committedOperations, ∃ row ∈ db.committedVersions, row.key = o.key := by
    intro o ho
    rcases Database.mem_committedOperations.mp ho with ⟨c, hc, hwritten⟩
    rcases (h.wellFormed c).recorded o hwritten with ⟨row, hrow, hkey⟩
    exact ⟨row, Database.mem_committedVersions.mpr ⟨c, hc, hrow⟩, hkey⟩
  constructor
  · intro r hr
    rcases List.mem_map.mp hr with ⟨o, ho, rfl⟩
    rcases hversion o ho with ⟨row, hrow, hkey⟩
    rcases Prod.mk.inj hkey with ⟨-, heq⟩
    rcases Database.mem_committedVersions.mp hrow with ⟨c, -, hwritten⟩
    have hone := VersionRow.one_le_version ((h.wellFormed c).checked row hwritten)
    have hle := hmax row hrow
    rw [putOperations_accepts, ← heq]
    exact ⟨by unfold i64Min; omega, hle⟩
  · change ((db.committedOperations.map PutOperationRow.record).map _).Nodup
    have hkeys := h.operationKey.nodup_committed.map (f := fun r => [Value.uuid r])
      fun r r' heq => by simpa using heq
    rwa [List.map_map] at hkeys ⊢
  · intro key hkey r hr
    rcases List.mem_map.mp hr with ⟨o, ho, rfl⟩
    rcases hversion o ho with ⟨row, hrow, hkey'⟩
    rcases Prod.mk.inj hkey' with ⟨hid, heq⟩
    simp only [putOperations, List.mem_cons, List.not_mem_nil, or_false] at hkey
    rcases hkey with rfl | rfl
    · rcases h.parent row hrow with ⟨document, hdocument, hparent⟩
      exact .inr ⟨document.record, List.mem_map_of_mem hdocument, by
        simp [DocumentRow.record, PutOperationRow.record, hparent, hid]⟩
    · exact .inr ⟨row.record, List.mem_map_of_mem hrow, by
        simp [VersionRow.record, PutOperationRow.record, hid, heq]⟩

end Tables
end Librarian.Postgres
