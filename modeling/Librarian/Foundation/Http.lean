import Librarian.Foundation.Decimal
import Librarian.Foundation.Utf8

/-! # HTTP/1.1 messages with a Content-Length

A reader of messages, apart from any program that writes them, and the messages that it reads back
as they were written, whatever follows them.
-/
namespace Librarian.Foundation.Http
open Utf8

structure Message where
  start : List Char
  fields : List (List Char × List Char)
  body : List UInt8
  deriving DecidableEq

def crlf : List UInt8 := [13, 10]

def fieldLine (field : List Char × List Char) : List UInt8 :=
  encode (field.1 ++ ':' :: ' ' :: field.2)

def Message.write (m : Message) : List UInt8 :=
  encode m.start ++ (crlf ++ ((m.fields.flatMap fun field => fieldLine field ++ crlf) ++
    (crlf ++ m.body)))

/-- The bytes before the first end of a line, and those after it. -/
def takeLine : List UInt8 → Option (List UInt8 × List UInt8)
  | 13 :: 10 :: rest => some ([], rest)
  | b :: rest => (takeLine rest).map fun p => (b :: p.1, p.2)
  | [] => none

/-- The lines before an empty one, of which there are fewer than `n`. -/
def takeLines : ℕ → List UInt8 → Option (List (List UInt8) × List UInt8)
  | 0, _ => none
  | n + 1, bytes =>
    match takeLine bytes with
    | some ([], rest) => some ([], rest)
    | some (line, rest) => (takeLines n rest).map fun p => (line :: p.1, p.2)
    | none => none

def readField (line : List UInt8) : Option (List Char × List Char) :=
  let text := decodeLossy line
  if ':' ∈ text then
    some (text.takeWhile (· ≠ ':'), (text.dropWhile (· ≠ ':')).tail.dropWhile (· = ' '))
  else none

/-- Names are compared without regard to case. -/
def contentLength (fields : List (List Char × List Char)) : Option ℕ :=
  (fields.find? fun field => field.1.map Char.toLower = "content-length".toList).bind fun field =>
    if field.2 ≠ [] ∧ field.2.all Char.isDigit then some (Nat.ofDigitChars 10 field.2 0) else none

/-- The first message and the bytes behind it. -/
def read (bytes : List UInt8) : Option (Message × List UInt8) := do
  let (start, rest) ← takeLine bytes
  let (lines, rest) ← takeLines rest.length rest
  let fields ← lines.mapM readField
  let length ← contentLength fields
  if length ≤ rest.length then
    some (⟨decodeLossy start, fields, rest.take length⟩, rest.drop length)
  else none

/-- No text ends its line early, and the length is that of the body. -/
structure Message.WellFormed (m : Message) : Prop where
  start : '\r' ∉ m.start
  name : ∀ field ∈ m.fields, '\r' ∉ field.1 ∧ ':' ∉ field.1
  value : ∀ field ∈ m.fields, '\r' ∉ field.2 ∧ field.2.head? ≠ some ' '
  length : contentLength m.fields = some m.body.length

variable {s : List Char} {line rest : List UInt8} {field : List Char × List Char}
  {fields : List (List Char × List Char)} {m : Message}

theorem not_mem_encode (h : '\r' ∉ s) : (13 : UInt8) ∉ encode s := by
  intro hmem
  rcases List.mem_flatMap.mp hmem with ⟨c, hc, hb⟩
  have hnat := toNat_of_mem (by decide) hb
  have hcr : c = '\r' := Char.toNat_inj.mp hnat
  exact h (hcr ▸ hc)

theorem takeLine_append (h : (13 : UInt8) ∉ line) :
    takeLine (line ++ (crlf ++ rest)) = some (line, rest) := by
  induction line with
  | nil => rfl
  | cons b line ih =>
    rw [List.mem_cons, not_or] at h
    rw [List.cons_append, takeLine, ih h.2]
    · rfl
    · intro tail hb _
      exact h.1 hb.symm

theorem fieldLine_ne_nil : fieldLine field ≠ [] := by
  intro h
  have hdecoded := decodeLossy_encode (field.1 ++ ':' :: ' ' :: field.2)
  rw [← fieldLine, h, decodeLossy] at hdecoded
  simp at hdecoded

theorem takeLines_append (bytes : List UInt8) (h : ∀ field ∈ fields, (13 : UInt8) ∉ fieldLine field) {n : ℕ}
    (hn : fields.length < n) :
    takeLines n ((fields.flatMap fun field => fieldLine field ++ crlf) ++ (crlf ++ bytes)) =
      some (fields.map fieldLine, bytes) := by
  induction fields generalizing n with
  | nil =>
    cases n with
    | zero => simp at hn
    | succ n => rfl
  | cons field fields ih =>
    rw [List.forall_mem_cons] at h
    cases n with
    | zero => simp at hn
    | succ n =>
      have hrest := ih h.2 (Nat.lt_of_succ_lt_succ hn)
      rw [List.flatMap_cons, List.append_assoc, List.append_assoc, takeLines,
        takeLine_append h.1]
      cases hline : fieldLine field with
      | nil => exact absurd hline fieldLine_ne_nil
      | cons b line => simp [hrest, hline]

theorem length_lt_lines (fields : List (List Char × List Char)) (bytes : List UInt8) :
    fields.length <
      ((fields.flatMap fun field => fieldLine field ++ crlf) ++ (crlf ++ bytes)).length := by
  induction fields with
  | nil => simp [crlf]
  | cons field fields ih =>
    simp only [List.flatMap_cons, List.length_append, List.length_cons, crlf, List.length_nil] at ih ⊢
    omega

theorem readField_fieldLine (hname : ':' ∉ field.1) (hvalue : field.2.head? ≠ some ' ') :
    readField (fieldLine field) = some field := by
  have hne : ∀ c ∈ field.1, (decide (c ≠ ':')) = true := by
    rintro c hc
    rw [decide_eq_true_eq]
    rintro rfl
    exact hname hc
  have hdrop : field.2.dropWhile (· = ' ') = field.2 := by
    cases hsecond : field.2 with
    | nil => rfl
    | cons c s =>
      rw [hsecond] at hvalue
      rw [List.dropWhile_cons_of_neg]
      simpa using hvalue
  rw [readField, fieldLine, decodeLossy_encode]
  simp only [List.takeWhile_append_of_pos hne, List.dropWhile_append_of_pos hne]
  simp [hdrop]

theorem mapM_readField (h : m.WellFormed) :
    (m.fields.map fieldLine).mapM readField = some m.fields := by
  have hread := fun field hfield => readField_fieldLine (h.name field hfield).2 (h.value field hfield).2
  clear h
  generalize m.fields = fields at hread
  induction fields with
  | nil => rfl
  | cons field fields ih =>
    rw [List.forall_mem_cons] at hread
    rw [List.map_cons, List.mapM_cons, hread.1, ih hread.2]
    rfl

theorem read_write (h : m.WellFormed) (rest : List UInt8) : read (m.write ++ rest) = some (m, rest) := by
  have hlines : ∀ field ∈ m.fields, (13 : UInt8) ∉ fieldLine field := by
    intro field hfield
    apply not_mem_encode
    simp [(h.name field hfield).1, (h.value field hfield).1]
  have hbytes : m.write ++ rest = encode m.start ++ (crlf ++
      ((m.fields.flatMap fun field => fieldLine field ++ crlf) ++ (crlf ++ (m.body ++ rest)))) := by
    simp [Message.write]
  have htake :=
    takeLines_append (m.body ++ rest) hlines (length_lt_lines m.fields (m.body ++ rest))
  rw [hbytes, read, takeLine_append (not_mem_encode h.start)]
  simp only [Option.bind_eq_bind, Option.bind_some, htake, mapM_readField h, h.length,
    decodeLossy_encode]
  simp

end Librarian.Foundation.Http
