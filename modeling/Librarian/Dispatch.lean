import Librarian.Kernel.Port
import Librarian.Postgres.Schema

/-! # The interpretation of a routed request

The action selects the repository call, the scope carries its argument.
-/
namespace Librarian

/-- The text parser of the `uuid` crate. -/
class UuidText where
  parse : String → Option Uuid

def putAction : String := "librarian.document.put"
def getAction : String := "librarian.document.get"
def searchAction : String := "librarian.document.search"

/-- Every action this service subscribes to and performs. -/
def actions : List String := [putAction, getAction, searchAction]

def searchResultLimit : ℤ := 10

inductive DispatchOutcome where
  | put (documentId : Uuid) (version : ℤ) (wasAlreadyProcessed : Bool)
  | get (documentId : Uuid) (version : ℤ) (contentType : String)
  | search (query : String) (hitCount : ℕ)
  deriving DecidableEq

/-- `str::split_once`: the parts before and after the first `sep`. -/
def splitOnce (sep : Char) (s : String) : Option (String × String) :=
  if sep ∈ s.toList then
    some (.ofList (s.toList.takeWhile (· ≠ sep)), .ofList (s.toList.dropWhile (· ≠ sep)).tail)
  else none

/-- The value of a list of ASCII digits, or nothing when there are none or others among them. -/
def parseDigits (digits : List Char) : Option ℕ :=
  if digits = [] ∨ !digits.all Char.isDigit then none
  else some (digits.foldl (fun n c => 10 * n + (c.toNat - '0'.toNat)) 0)

/-- `str::parse::<i64>`: an optional sign, then digits, with a value that fits. -/
def parseI64 (s : String) : Option ℤ :=
  let value : Option ℤ :=
    match s.toList with
    | '-' :: digits => (parseDigits digits).map fun n => -(n : ℤ)
    | '+' :: digits => (parseDigits digits).map fun n => (n : ℤ)
    | digits => (parseDigits digits).map fun n => (n : ℤ)
  value.filter fun v => Postgres.i64Min ≤ v ∧ v ≤ Postgres.i64Max

/-- A document id, optionally followed by `@` and a version. -/
def parseGetScope [UuidText] (scope : String) : Except LibrarianError (Uuid × Option ℤ) :=
  match splitOnce '@' scope with
  | some (documentId, version) => do
    let documentId ← (UuidText.parse documentId).elim
      (.error (.malformedScope "document ID must be a UUID")) .ok
    let version ← (parseI64 version).elim
      (.error (.malformedScope "version must be an integer")) .ok
    pure (documentId, some version)
  | none => do
    let documentId ← (UuidText.parse scope).elim
      (.error (.malformedScope "document ID must be a UUID")) .ok
    pure (documentId, none)

/-- The document a put request asks to store. -/
def requestedDocument (scope : String) : PutDocument where
  documentId := none
  content := scope
  contentType := "text/plain"
  title := none
  sourceUri := none

def dispatch [UuidText] (action : String) (requestId : Uuid) (scope : String) : Work DispatchOutcome :=
  if action = putAction then do
    let outcome ← Work.put requestId (requestedDocument scope)
    pure (.put outcome.documentId outcome.version outcome.wasAlreadyProcessed)
  else if action = getAction then do
    let (documentId, version) ← (parseGetScope scope : Except LibrarianError _)
    let document ← Work.get documentId version
    pure (.get document.documentId document.version document.contentType)
  else if action = searchAction then do
    let hits ← Work.search scope searchResultLimit
    pure (.search scope hits.length)
  else throw (.unknownAction action)

example : parseI64 "-9223372036854775808" = some (-9223372036854775808) := by decide

section Scopes
variable [UuidText] {s before after : String}

theorem parseGetScope_of_none (hs : splitOnce '@' s = none) :
    parseGetScope s = (UuidText.parse s).elim (.error (.malformedScope "document ID must be a UUID"))
      fun id => .ok (id, none) := by
  simp only [parseGetScope, hs]
  cases UuidText.parse s <;> rfl

theorem parseGetScope_of_some (hs : splitOnce '@' s = some (before, after)) :
    parseGetScope s = (UuidText.parse before).elim
      (.error (.malformedScope "document ID must be a UUID")) fun id =>
        (parseI64 after).elim (.error (.malformedScope "version must be an integer"))
          fun v => .ok (id, some v) := by
  simp only [parseGetScope, hs]
  cases UuidText.parse before with
  | none => rfl
  | some id => cases parseI64 after <;> rfl

/-- All that can come of the scope of a get. -/
inductive ScopeRead (s : String) : Except LibrarianError (Uuid × Option ℤ) → Prop
  | malformed (reason : String) : ScopeRead s (.error (.malformedScope reason))
  | latest {d : Uuid} (hs : splitOnce '@' s = none) (hd : UuidText.parse s = some d) :
      ScopeRead s (.ok (d, none))
  | version {before after : String} {d : Uuid} {v : ℤ}
      (hs : splitOnce '@' s = some (before, after)) (hd : UuidText.parse before = some d)
      (hv : parseI64 after = some v) : ScopeRead s (.ok (d, some v))

theorem scopeRead_parseGetScope (s : String) : ScopeRead s (parseGetScope s) := by
  cases hs : splitOnce '@' s with
  | none =>
    rw [parseGetScope_of_none hs]
    cases hd : UuidText.parse s with
    | none => exact .malformed _
    | some d => exact .latest hs hd
  | some parts =>
    rw [parseGetScope_of_some hs]
    cases hd : UuidText.parse parts.1 with
    | none => exact .malformed _
    | some d =>
      cases hv : parseI64 parts.2 with
      | none => exact .malformed _
      | some v => exact .version hs hd hv

/-- A refused scope is refused as malformed, whatever is wrong with it. -/
theorem parseGetScope_error {e : LibrarianError} (h : parseGetScope s = .error e) :
    ∃ reason, e = .malformedScope reason := by
  have hread := scopeRead_parseGetScope s
  rw [h] at hread
  cases hread with
  | malformed reason => exact ⟨reason, rfl⟩

end Scopes
end Librarian
