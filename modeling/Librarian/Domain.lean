import Mathlib.Data.Int.Notation
import Mathlib.Data.List.DropRight
import Mathlib.Data.List.TakeWhile

/-! # Documents, versions and the errors of the repository

The data of the domain layer, with the two checks a put makes before it touches the
database. SHA-256 comes from a crate and is a parameter.
-/
namespace Librarian

/-- UUIDs are 128-bit values; PostgreSQL orders them as unsigned numbers. -/
abbrev Uuid := BitVec 128

/-- The `sha2` crate's digest of a byte string. -/
class Sha256 where
  digest : List UInt8 → Vector UInt8 32

structure DocumentVersion where
  documentId : Uuid
  version : ℤ
  content : String
  contentType : String
  title : Option String
  sourceUri : Option String
  contentDigest : Vector UInt8 32
  createdAtUnix : ℤ
  deriving DecidableEq

structure SearchHit where
  documentId : Uuid
  version : ℤ
  title : Option String
  snippet : String
  deriving DecidableEq

/-- A put without a `documentId` creates a document, one with it appends a version. -/
structure PutDocument where
  documentId : Option Uuid
  content : String
  contentType : String
  title : Option String
  sourceUri : Option String
  deriving DecidableEq

def PutDocument.contentDigest [Sha256] (document : PutDocument) : Vector UInt8 32 :=
  Sha256.digest document.content.toUTF8.data.toList

inductive DocumentError where
  | notFound
  | emptyContent
  | emptyContentType
  | unknownDocument
  | repository
  deriving DecidableEq

def DocumentError.display : DocumentError → String
  | .notFound => "document was not found"
  | .emptyContent => "document content must not be empty"
  | .emptyContentType => "content type must not be empty"
  | .unknownDocument => "cannot version a document that does not exist"
  | .repository => "document repository failed"

structure PutOutcome where
  documentId : Uuid
  version : ℤ
  wasAlreadyProcessed : Bool
  deriving DecidableEq

/-- The methods of the trait `DocumentRepository` with their arguments. -/
inductive RepositoryCall where
  | put (requestId : Uuid) (document : PutDocument)
  | get (documentId : Uuid) (version : Option ℤ)
  | search (query : String) (limit : ℤ)
  deriving DecidableEq

inductive RepositoryResult where
  | put (outcome : Except DocumentError PutOutcome)
  | get (document : Except DocumentError DocumentVersion)
  | search (hits : Except DocumentError (List SearchHit))
  deriving DecidableEq

/-- The answer `DocumentError::Repository`. -/
def RepositoryResult.isFailure : RepositoryResult → Bool
  | .put (.error .repository) | .get (.error .repository) | .search (.error .repository) => true
  | _ => false

/-- The characters with the Unicode property White_Space. -/
def isWhitespace (c : Char) : Bool :=
  let n := c.toNat
  (9 ≤ n && n ≤ 13) || n == 0x20 || n == 0x85 || n == 0xA0 || n == 0x1680 ||
    (0x2000 ≤ n && n ≤ 0x200A) || n == 0x2028 || n == 0x2029 || n == 0x202F || n == 0x205F ||
    n == 0x3000

/-- `str::trim`: leading and trailing whitespace removed. -/
def trim (s : String) : String :=
  .ofList ((s.toList.dropWhile isWhitespace).reverse.dropWhile isWhitespace).reverse

/-- `s.trim().is_empty()`, the test both checks of a put make. -/
def isBlank (s : String) : Bool := (trim s).isEmpty

/-- A string is blank exactly when it has no character other than whitespace. -/
theorem isBlank_iff (s : String) : isBlank s = true ↔ ∀ c ∈ s.toList, isWhitespace c = true := by
  rw [isBlank, trim, String.isEmpty_iff, String.ofList_eq_empty_iff, List.reverse_eq_nil_iff,
    List.dropWhile_eq_nil_iff]
  constructor
  · intro h
    have hd : (s.toList.dropWhile isWhitespace).dropWhile isWhitespace = [] :=
      List.dropWhile_eq_nil_iff.mpr fun c hc => h c (List.mem_reverse.mpr hc)
    rw [List.dropWhile_idempotent] at hd
    exact List.dropWhile_eq_nil_iff.mp hd
  · intro h c hc
    rw [List.mem_reverse] at hc
    exact h c ((List.dropWhile_suffix _).subset hc)

end Librarian
