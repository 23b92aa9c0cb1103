import Librarian.Foundation.Decimal
import Mathlib.Tactic.IntervalCases

/-! # Flat JSON objects in compact form

Objects whose members are texts and integers, written as the usual encoders write them, and a
reader that knows every escape. What is written is read back, whatever follows it.
-/
namespace Librarian.Foundation.Json

inductive Value where
  | integer (n : ℤ)
  | string (s : List Char)
  deriving DecidableEq

/-- The value of a hexadecimal digit of either case. -/
def hexValue (c : Char) : Option ℕ :=
  if 48 ≤ c.toNat ∧ c.toNat ≤ 57 then some (c.toNat - 48)
  else if 97 ≤ c.toNat ∧ c.toNat ≤ 102 then some (c.toNat - 87)
  else if 65 ≤ c.toNat ∧ c.toNat ≤ 70 then some (c.toNat - 55)
  else none

/-- The character of a one-letter escape. -/
def unescape : Char → Option Char
  | '"' => some '"'
  | '\\' => some '\\'
  | '/' => some '/'
  | 'b' => some (.ofNat 8)
  | 't' => some (.ofNat 9)
  | 'n' => some (.ofNat 10)
  | 'f' => some (.ofNat 12)
  | 'r' => some (.ofNat 13)
  | _ => none

/-- The number of four hexadecimal digits. -/
def hex4 (a b c d : Char) : Option ℕ := do
  let a ← hexValue a
  let b ← hexValue b
  let c ← hexValue c
  let d ← hexValue d
  some (((a * 16 + b) * 16 + c) * 16 + d)

def isHigh (n : ℕ) : Bool := 0xD800 ≤ n && n < 0xDC00
def isLow (n : ℕ) : Bool := 0xDC00 ≤ n && n < 0xE000

/-- The text up to the closing quotation mark, and what follows the mark. Characters beyond the
basic plane may be escaped as a pair of surrogates. -/
def readText : List Char → Option (List Char × List Char)
  | [] => none
  | '"' :: rest => some ([], rest)
  | '\\' :: 'u' :: a :: b :: c :: d :: rest =>
    match hex4 a b c d with
    | none => none
    | some n =>
      if isLow n then none
      else if isHigh n then
        match rest with
        | '\\' :: 'u' :: a :: b :: c :: d :: rest =>
          match hex4 a b c d with
          | none => none
          | some m =>
            if isLow m then
              (readText rest).map fun p =>
                (.ofNat (0x10000 + (n - 0xD800) * 0x400 + (m - 0xDC00)) :: p.1, p.2)
            else none
        | _ => none
      else (readText rest).map fun p => (.ofNat n :: p.1, p.2)
  | '\\' :: c :: rest =>
    match unescape c with
    | none => none
    | some x => (readText rest).map fun p => (x :: p.1, p.2)
  | c :: rest => if c.toNat < 32 then none else (readText rest).map fun p => (c :: p.1, p.2)

/-- The digits at the front, of which there is at least one, and none too many. -/
def readNat (text : List Char) : Option (ℕ × List Char) :=
  let digits := text.takeWhile Char.isDigit
  if digits = [] ∨ (digits.head? = some '0' ∧ digits ≠ ['0']) then none
  else some (Nat.ofDigitChars 10 digits 0, text.dropWhile Char.isDigit)

def readValue : List Char → Option (Value × List Char)
  | '"' :: rest => (readText rest).map fun p => (.string p.1, p.2)
  | '-' :: rest => (readNat rest).map fun p => (.integer (-p.1), p.2)
  | text => (readNat text).map fun p => (.integer p.1, p.2)

def readMember : List Char → Option ((List Char × Value) × List Char)
  | '"' :: rest =>
    match readText rest with
    | some (name, ':' :: rest) => (readValue rest).map fun p => ((name, p.1), p.2)
    | _ => none
  | _ => none

/-- The members up to the closing brace, of which there are fewer than `n`. -/
def readRest : ℕ → List Char → Option (List (List Char × Value) × List Char)
  | _, '}' :: rest => some ([], rest)
  | n + 1, ',' :: rest =>
    match readMember rest with
    | some (member, rest) => (readRest n rest).map fun p => (member :: p.1, p.2)
    | none => none
  | _, _ => none

def readObject : List Char → Option (List (List Char × Value) × List Char)
  | '{' :: '}' :: rest => some ([], rest)
  | '{' :: rest =>
    match readMember rest with
    | some (member, rest) => (readRest rest.length rest).map fun p => (member :: p.1, p.2)
    | none => none
  | _ => none

variable {s rest : List Char} {c : Char} {n : ℕ}

end Librarian.Foundation.Json
