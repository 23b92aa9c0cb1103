import Librarian.Domain
import Mathlib.Logic.Function.Basic

/-! # The library as its callers see it

The abstract store: for every document the list of its versions, oldest first, and for
every processed request the version it produced. One call is one step, and only the first
put of a request changes anything.
-/
namespace Librarian

structure Library where
  documents : Uuid → List DocumentVersion
  recorded : Uuid → Option (Uuid × ℤ)

namespace Library
variable (L : Library)

def empty : Library := ⟨fun _ => [], fun _ => none⟩

/-- Version `version` of a document, counted from 1. -/
def find (documentId : Uuid) (version : ℤ) : Option DocumentVersion :=
  if 1 ≤ version then (L.documents documentId)[(version - 1).toNat]? else none

def get (documentId : Uuid) (version : Option ℤ) : Except DocumentError DocumentVersion :=
  match version with
  | some version => (L.find documentId version).elim (.error .notFound) .ok
  | none => (L.documents documentId).getLast?.elim (.error .notFound) .ok

/-- A new version of a document, recorded for its request in the same step. -/
def append (requestId : Uuid) (entry : DocumentVersion) : Library where
  documents := Function.update L.documents entry.documentId
    (L.documents entry.documentId ++ [entry])
  recorded := Function.update L.recorded requestId (some (entry.documentId, entry.version))

/-- The version a document becomes when it is stored. -/
def entry [Sha256] (documentId : Uuid) (version : ℤ) (document : PutDocument) (createdAtUnix : ℤ) :
    DocumentVersion where
  documentId := documentId
  version := version
  content := document.content
  contentType := document.contentType
  title := document.title
  sourceUri := document.sourceUri
  contentDigest := document.contentDigest
  createdAtUnix := createdAtUnix

def nextVersion (documentId : Uuid) : ℤ := (L.documents documentId).length + 1

/-- `L.Put r document res L'`: a put may answer `res` and leave `L'`. -/
inductive Put [Sha256] (requestId : Uuid) (document : PutDocument) :
    Except DocumentError PutOutcome → Library → Prop where
  | emptyContent (h : isBlank document.content = true) : Put requestId document (.error .emptyContent) L
  | emptyContentType (h : isBlank document.content = false)
      (ht : isBlank document.contentType = true) : Put requestId document (.error .emptyContentType) L
  | recorded {d : Uuid} {v : ℤ} (h : isBlank document.content = false)
      (ht : isBlank document.contentType = false) (hr : L.recorded requestId = some (d, v)) :
      Put requestId document (.ok ⟨d, v, true⟩) L
  | created {d : Uuid} {t : ℤ} (h : isBlank document.content = false)
      (ht : isBlank document.contentType = false) (hr : L.recorded requestId = none)
      (hd : document.documentId = none) (hfresh : L.documents d = []) :
      Put requestId document (.ok ⟨d, 1, false⟩) (L.append requestId (entry d 1 document t))
  | appended {d : Uuid} {t : ℤ} (h : isBlank document.content = false)
      (ht : isBlank document.contentType = false) (hr : L.recorded requestId = none)
      (hd : document.documentId = some d) (hknown : L.documents d ≠ []) :
      Put requestId document (.ok ⟨d, L.nextVersion d, false⟩)
        (L.append requestId (entry d (L.nextVersion d) document t))
  | unknownDocument {d : Uuid} (h : isBlank document.content = false)
      (ht : isBlank document.contentType = false) (hr : L.recorded requestId = none)
      (hd : document.documentId = some d) (hunknown : L.documents d = []) :
      Put requestId document (.error .unknownDocument) L

/-- One call of `put` or `get` against the abstract store. -/
inductive Step [Sha256] (L : Library) : RepositoryCall → RepositoryResult → Library → Prop where
  | put {r : Uuid} {document : PutDocument} {res : Except DocumentError PutOutcome} {L' : Library}
      (h : L.Put r document res L') : Step L (.put r document) (.put res) L'
  | get (d : Uuid) (v : Option ℤ) : Step L (.get d v) (.get (L.get d v)) L

theorem get_ne_failure (d : Uuid) (v : Option ℤ) : L.get d v ≠ .error .repository := by
  cases v with
  | none =>
    simp only [get]
    cases (L.documents d).getLast? <;> simp
  | some v =>
    simp only [get]
    cases L.find d v <;> simp

/-- The abstract store never fails. -/
theorem Step.not_failure [Sha256] {op : RepositoryCall} {res : RepositoryResult} {L' : Library}
    (h : L.Step op res L') : res.isFailure = false := by
  cases h with
  | put h => cases h <;> rfl
  | get d v =>
    have hne := L.get_ne_failure d v
    generalize L.get d v = res at hne
    cases res with
    | ok document => rfl
    | error e => cases e <;> first | rfl | exact absurd rfl hne

/-- The answers of calls that failed in the database. -/
def Failed : RepositoryCall → RepositoryResult → Prop
  | .put _ _, .put res => res = .error .repository
  | .get _ _, .get res => res = .error .repository
  | .search _ _, .search res => res = .error .repository
  | _, _ => False

theorem Failed.isFailure {op : RepositoryCall} {res : RepositoryResult} (h : Failed op res) :
    res.isFailure = true := by
  cases op <;> cases res <;> simp_all [Failed, RepositoryResult.isFailure]

/-- Like `Step`, and a call may also fail without any effect. -/
inductive StepOrFail [Sha256] (L : Library) : RepositoryCall → RepositoryResult → Library → Prop where
  | step {op : RepositoryCall} {res : RepositoryResult} {L' : Library} (h : L.Step op res L') :
      StepOrFail L op res L'
  | fail {op : RepositoryCall} {res : RepositoryResult} (h : Failed op res) : StepOrFail L op res L

end Library
end Librarian
