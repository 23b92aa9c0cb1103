import Mathlib.Data.List.Basic

/-! # UTF-8 with replacement characters

Bytes that begin with no encoded character are replaced: one U+FFFD stands for as many of them as
could have begun a character, or for the first of them.
-/
namespace Librarian.Foundation.Utf8

def encode (s : List Char) : List UInt8 := s.flatMap String.utf8EncodeChar

/-- The character whose encoding the bytes begin with. -/
def firstChar (bytes : List UInt8) : Option Char := bytes.toByteArray.utf8DecodeChar? 0

def isContinuation (b : UInt8) : Bool := 0x80 ≤ b && b ≤ 0xBF

/-- How many bytes an encoding has that begins with `first`; 1 for a byte that begins none. -/
def width (first : UInt8) : ℕ :=
  if 0xC2 ≤ first ∧ first ≤ 0xDF then 2
  else if 0xE0 ≤ first ∧ first ≤ 0xEF then 3
  else if 0xF0 ≤ first ∧ first ≤ 0xF4 then 4
  else 1

/-- The second bytes that keep an encoding of three or four bytes shortest and in range. -/
def fits (first second : UInt8) : Bool :=
  if first = 0xE0 then 0xA0 ≤ second && second ≤ 0xBF
  else if first = 0xED then 0x80 ≤ second && second ≤ 0x9F
  else if first = 0xF0 then 0x90 ≤ second && second ≤ 0xBF
  else if first = 0xF4 then 0x80 ≤ second && second ≤ 0x8F
  else isContinuation second

/-- The bytes after `first` that share its replacement character. -/
def broken (first : UInt8) : List UInt8 → ℕ
  | second :: rest =>
    if width first < 3 ∨ ¬ fits first second then 0
    else if width first = 4 ∧ rest.head?.any isContinuation then 2
    else 1
  | [] => 0

/-- `String::from_utf8_lossy`. -/
def decodeLossy : List UInt8 → List Char
  | [] => []
  | b :: rest =>
    match firstChar (b :: rest) with
    | some c => c :: decodeLossy (rest.drop (c.utf8Size - 1))
    | none => '\uFFFD' :: decodeLossy (rest.drop (broken b rest))
  termination_by bytes => bytes.length
  decreasing_by all_goals simp only [List.length_drop, List.length_cons]; omega

variable {s : List Char} {c : Char} {b : UInt8}

theorem encode_cons : encode (c :: s) = String.utf8EncodeChar c ++ encode s := rfl

theorem encode_append {t : List Char} : encode (s ++ t) = encode s ++ encode t :=
  List.flatMap_append

theorem firstChar_append (c : Char) (rest : List UInt8) :
    firstChar (String.utf8EncodeChar c ++ rest) = some c := by
  rw [firstChar, List.toByteArray_append]
  exact ByteArray.utf8DecodeChar?_utf8EncodeChar_append

/-- Whatever follows, what was encoded is decoded. -/
theorem decodeLossy_append (s : List Char) (rest : List UInt8) :
    decodeLossy (encode s ++ rest) = s ++ decodeLossy rest := by
  induction s with
  | nil => rfl
  | cons c s ih =>
    have hfirst := firstChar_append c (encode s ++ rest)
    have hlength := String.length_utf8EncodeChar c
    rw [encode_cons, List.append_assoc]
    cases hbytes : String.utf8EncodeChar c with
    | nil =>
      rw [hbytes, List.length_nil] at hlength
      have hpos := c.utf8Size_pos
      omega
    | cons b tail =>
      rw [hbytes, List.cons_append] at hfirst
      rw [hbytes, List.length_cons] at hlength
      rw [List.cons_append, decodeLossy, hfirst]
      have hdrop : (tail ++ (encode s ++ rest)).drop (c.utf8Size - 1) = encode s ++ rest :=
        List.drop_left' (by omega)
      simp only [hdrop, ih, List.cons_append]

theorem decodeLossy_encode (s : List Char) : decodeLossy (encode s) = s := by
  have h := decodeLossy_append s []
  rwa [List.append_nil, decodeLossy, List.append_nil] at h

/-- A byte of seven bits is the encoding of its character and part of no other. -/
theorem toNat_of_mem (hb : b.toNat < 128) (h : b ∈ String.utf8EncodeChar c) : c.toNat = b.toNat := by
  -- all bytes of a longer encoding have their highest bit set
  have hor : ∀ x k : UInt8, 128 ≤ k.toNat → b ≠ x ||| k := by
    rintro x k hk rfl
    rw [UInt8.toNat_or] at hb
    have hle : k.toNat ≤ x.toNat ||| k.toNat := Nat.right_le_or
    omega
  rcases Char.utf8Size_eq c with hsize | hsize | hsize | hsize
  · rw [String.utf8EncodeChar_eq_singleton hsize, List.mem_singleton] at h
    have hval : c.val.toNat ≤ 127 := UInt32.le_iff_toNat_le.mp (Char.utf8Size_eq_one_iff.mp hsize)
    rw [h, UInt32.toNat_toUInt8, Char.toNat]
    omega
  · rw [String.utf8EncodeChar_eq_cons_cons hsize] at h
    simp [hor] at h
  · rw [String.utf8EncodeChar_eq_cons_cons_cons hsize] at h
    simp [hor] at h
  · rw [String.utf8EncodeChar_eq_cons_cons_cons_cons hsize] at h
    simp [hor] at h

end Librarian.Foundation.Utf8
