import Mathlib.Data.List.TakeWhile

/-! # Targets of requests

A reader of paths and queries. It takes only segments that mean the same to every server: those
without an escape, a separator or a step to another directory.
-/
namespace Librarian.Foundation

structure Target where
  path : List String
  query : Option String
  deriving DecidableEq

namespace Target

/-- The characters that stand for themselves wherever they occur. -/
def isUnreserved (c : Char) : Bool := c.isAlphanum || c ∈ ['-', '.', '_', '~']

def isSegment (s : String) : Bool :=
  s ≠ "" && s ≠ "." && s ≠ ".." && s.toList.all isUnreserved

def readPath (text : List Char) : Option (List String) :=
  match text.splitOn '/' with
  | [] :: path => if (path.map String.ofList).all isSegment then some (path.map String.ofList) else none
  | _ => none

/-- A fragment is not part of the target, and a query begins behind the first question mark. -/
def read (text : List Char) : Option Target :=
  let target := text.takeWhile (· ≠ '#')
  (readPath (target.takeWhile (· ≠ '?'))).map fun path =>
    ⟨path, (target.dropWhile (· ≠ '?')).tail?.map String.ofList⟩

variable {path : List String} {text : List Char} {target : Target}

end Target
end Librarian.Foundation
