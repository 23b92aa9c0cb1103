import Librarian.Foundation.Guarded
import Librarian.Postgres.Schema
import Mathlib.Logic.Function.Basic

/-! # The migrations

The statements of `0001_documents.sql` and `0002_search.sql` and what PostgreSQL does with them.
All of them are guarded by `IF NOT EXISTS`, which looks at names only. Tables and indexes share
their names.
-/
namespace Librarian.Postgres
open Foundation

inductive SqlType where
  | uuid
  | timestamptz
  | bigint
  | text
  | bytea
  | tsvector
  deriving DecidableEq

/-- What a column holds when an insert does not say. `searchVector` is
`setweight(to_tsvector('english', coalesce(title, '')), 'A') ||
setweight(to_tsvector('english', content), 'B')`, always generated and stored. -/
inductive Fill where
  | null
  | transactionTimestamp
  | searchVector
  deriving DecidableEq

structure Column where
  name : String
  type : SqlType
  notNull : Bool
  fill : Fill
  deriving DecidableEq

/-- The conditions of CHECK constraints. -/
inductive Condition where
  | atLeast (column : String) (n : ℤ)
  | charLengthBetween (column : String) (lo hi : ℕ)
  | octetLength (column : String) (n : ℕ)
  | isNull (column : String)
  | or (a b : Condition)
  deriving DecidableEq

structure ForeignKey where
  columns : List String
  table : String
  referenced : List String
  deriving DecidableEq

structure Table where
  columns : List Column
  checks : List Condition
  primaryKey : List String
  foreignKeys : List ForeignKey
  deriving DecidableEq

/-- The keys of a B-tree, each ascending or descending, or the columns of a GIN index. -/
inductive IndexKeys where
  | btree (keys : List (String × Bool))
  | gin (keys : List String)
  deriving DecidableEq

def IndexKeys.columns : IndexKeys → List String
  | .btree keys => keys.map (·.1)
  | .gin keys => keys

structure Index where
  table : String
  keys : IndexKeys
  deriving DecidableEq

inductive Relation where
  | table (t : Table)
  | index (i : Index)
  deriving DecidableEq

/-- The relations of a schema by their names. -/
abbrev Catalog := String → Option Relation

inductive Ddl where
  | createTable (name : String) (table : Table)
  | createIndex (name : String) (index : Index)
  | addColumn (table : String) (column : Column)
  deriving DecidableEq

def Table.typeOf (t : Table) (column : String) : Option SqlType :=
  (t.columns.find? fun c => c.name = column).map (·.type)

def Table.hasColumn (t : Table) (column : String) : Bool := (t.typeOf column).isSome

def Table.add (t : Table) (column : Column) : Table := { t with columns := t.columns ++ [column] }

namespace Catalog
variable (c : Catalog)

def table (name : String) : Option Table :=
  match c name with
  | some (.table t) => some t
  | _ => none

/-- The key refers to the primary key of a table, column by column of the same type. -/
def admits (t : Table) (key : ForeignKey) : Bool :=
  match c.table key.table with
  | some parent => parent.primaryKey = key.referenced ∧ key.columns.all t.hasColumn ∧
      key.columns.map t.typeOf = key.referenced.map parent.typeOf
  | none => false

def set (name : String) (r : Relation) : Catalog := Function.update c name (some r)

/-- One statement, or `none` where it fails. -/
def exec : Ddl → Option Catalog
  | .createTable name t =>
    if (c name).isSome then some c
    else if t.foreignKeys.all (c.admits t) then some (c.set name (.table t))
    else none
  | .createIndex name i =>
    match c.table i.table with
    | some t =>
      if ¬ i.keys.columns.all t.hasColumn then none
      else if (c name).isSome then some c
      else some (c.set name (.index i))
    | none => none
  | .addColumn name column =>
    match c.table name with
    | some t =>
      if t.hasColumn column.name then some c
      else if column.fill = .searchVector ∧ ¬ ["title", "content"].all t.hasColumn then none
      else some (c.set name (.table (t.add column)))
    | none => none

end Catalog

def documents : Table where
  columns := [⟨"document_id", .uuid, true, .null⟩, ⟨"created_at", .timestamptz, true, .transactionTimestamp⟩]
  checks := []
  primaryKey := ["document_id"]
  foreignKeys := []

def documentVersions : Table where
  columns :=
    [⟨"document_id", .uuid, true, .null⟩, ⟨"version", .bigint, true, .null⟩,
      ⟨"content", .text, true, .null⟩, ⟨"content_type", .text, true, .null⟩,
      ⟨"title", .text, false, .null⟩, ⟨"source_uri", .text, false, .null⟩,
      ⟨"content_digest", .bytea, true, .null⟩, ⟨"created_at", .timestamptz, true, .transactionTimestamp⟩]
  checks :=
    [.atLeast "version" 1, .charLengthBetween "content_type" 1 200,
      .or (.isNull "title") (.charLengthBetween "title" 1 500),
      .or (.isNull "source_uri") (.charLengthBetween "source_uri" 1 2000),
      .octetLength "content_digest" 32]
  primaryKey := ["document_id", "version"]
  foreignKeys := [⟨["document_id"], "documents", ["document_id"]⟩]

def documentVersionsLatestIdx : Index :=
  ⟨"document_versions", .btree [("document_id", true), ("version", false)]⟩

def putOperations : Table where
  columns :=
    [⟨"request_id", .uuid, true, .null⟩, ⟨"document_id", .uuid, true, .null⟩,
      ⟨"version", .bigint, true, .null⟩, ⟨"processed_at", .timestamptz, true, .transactionTimestamp⟩]
  checks := []
  primaryKey := ["request_id"]
  foreignKeys :=
    [⟨["document_id"], "documents", ["document_id"]⟩,
      ⟨["document_id", "version"], "document_versions", ["document_id", "version"]⟩]

def searchVector : Column := ⟨"search_vector", .tsvector, false, .searchVector⟩

def documentVersionsSearchIdx : Index := ⟨"document_versions", .gin ["search_vector"]⟩

/-- `0001_documents.sql`. -/
def documentsSql : List Ddl :=
  [.createTable "documents" documents, .createTable "document_versions" documentVersions,
    .createIndex "document_versions_latest_idx" documentVersionsLatestIdx,
    .createTable "put_operations" putOperations]

/-- `0002_search.sql`. -/
def searchSqlMigration : List Ddl :=
  [.addColumn "document_versions" searchVector,
    .createIndex "document_versions_search_idx" documentVersionsSearchIdx]

/-- The batch of `Database::migrate`. It is one transaction, so a failure changes nothing. -/
def migrations : List Ddl := documentsSql ++ searchSqlMigration

def Catalog.migrate (c : Catalog) : Option Catalog := System.run Catalog.exec c migrations

example : (Catalog.migrate fun _ => none).isSome = true := by decide

end Librarian.Postgres
