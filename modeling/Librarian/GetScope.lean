import Librarian.Dispatch
import Librarian.Foundation.Decimal
import Mathlib.Algebra.Group.Nat.Defs

/-! # The scopes of get requests

A scope names a document, and with `@` one version of it. The grammar is stated apart from
the parser; of the crate's UUID parser only two facts are used.
-/
namespace Librarian
open Foundation Postgres

/-- What `parse_get_scope` relies on in the `uuid` crate, whose `Display` is `display`. -/
structure UuidTextLaws [UuidText] (display : Uuid → String) : Prop where
  parse_display : ∀ id, UuidText.parse (display id) = some id
  at_free : ∀ {s id}, UuidText.parse s = some id → '@' ∉ s.toList

/-- The texts of versions: signed numerals in the range of `i64`. -/
def VersionText (s : String) (v : ℤ) : Prop :=
  SignedNumeral s.toList v ∧ i64Min ≤ v ∧ v ≤ i64Max

/-- The grammar of scopes with the target each one names. -/
inductive GetScope [UuidText] : String → Uuid × Option ℤ → Prop
  | latest {s : String} {d : Uuid} (hd : UuidText.parse s = some d) : GetScope s (d, none)
  | version {s t : String} {d : Uuid} {v : ℤ} (hd : UuidText.parse s = some d)
      (hv : VersionText t v) : GetScope (s ++ "@" ++ t) (d, some v)

section Parts
variable {s before after : String} {sep : Char} {digits : List Char} {n : ℕ} {v : ℤ}

theorem splitOnce_eq_none : splitOnce sep s = none ↔ sep ∉ s.toList := by
  simp [splitOnce]

/-- The split is at the first occurrence of the separator. -/
theorem splitOnce_eq_some :
    splitOnce sep s = some (before, after) ↔
      s.toList = before.toList ++ sep :: after.toList ∧ sep ∉ before.toList := by
  constructor
  · intro h
    rw [splitOnce] at h
    split at h
    · rename_i hmem
      rw [Option.some.injEq, Prod.mk.injEq] at h
      rcases h with ⟨rfl, rfl⟩
      have hne : s.toList.dropWhile (· ≠ sep) ≠ [] := by
        rw [ne_eq, List.dropWhile_eq_nil_iff]
        intro hall
        simpa using hall sep hmem
      have hhead : (s.toList.dropWhile (· ≠ sep)).head hne = sep := by
        simpa using List.head_dropWhile_not (· ≠ sep) hne
      constructor
      · have htail : s.toList.dropWhile (· ≠ sep) = sep :: (s.toList.dropWhile (· ≠ sep)).tail := by
          conv_lhs => rw [← List.cons_head_tail hne]
          rw [hhead]
        rw [String.toList_ofList, String.toList_ofList, ← htail, List.takeWhile_append_dropWhile]
      · rw [String.toList_ofList]
        intro htake
        simpa using List.mem_takeWhile_imp htake
    · exact absurd h (by simp)
  · rintro ⟨hs, hbefore⟩
    have hall : ∀ c ∈ before.toList, decide (c ≠ sep) = true := by
      intro c hc
      rw [decide_eq_true_eq]
      rintro rfl
      exact hbefore hc
    rw [splitOnce, if_pos (by simp [hs]), hs, List.takeWhile_append_of_pos hall,
      List.dropWhile_append_of_pos hall]
    simp

theorem parseDigits_eq_some : parseDigits digits = some n ↔ Numeral digits n := by
  constructor
  · intro h
    rw [parseDigits] at h
    split at h
    · exact absurd h (by simp)
    · rename_i hdigits
      rw [not_or] at hdigits
      have hall : ∀ c ∈ digits, c.isDigit = true := by simpa using hdigits.2
      rw [← Option.some.inj h, ← Nat.ofDigitChars_eq_foldl]
      exact .of_digits hdigits.1 hall
  · intro h
    have hall : digits.all Char.isDigit = true := List.all_eq_true.mpr h.isDigit
    rw [parseDigits, if_neg (by simp [h.ne_nil, hall]), ← Nat.ofDigitChars_eq_foldl, ← h.value]

theorem signed_eq_some {f : ℤ → ℤ} :
    (do let n ← parseDigits digits; pure (n : ℤ) : Option ℤ).map f = some v ↔
      ∃ n : ℕ, Numeral digits n ∧ f n = v := by
  simp only [← parseDigits_eq_some]
  cases parseDigits digits <;> simp

/-- The integer parser accepts exactly the texts of versions. -/
theorem parseI64_eq_some : parseI64 s = some v ↔ VersionText s v := by
  rw [VersionText]
  simp only [parseI64, Option.filter_eq_some_iff, decide_eq_true_eq]
  refine and_congr_left fun _ => ?_
  constructor
  · intro h
    split at h
    · rename_i hs
      rcases signed_eq_some.mp h with ⟨n, hn, rfl⟩
      exact hs ▸ .minus hn
    · rename_i hs
      rcases signed_eq_some.mp h with ⟨n, hn, rfl⟩
      exact hs ▸ .plus hn
    · rcases signed_eq_some.mp h with ⟨n, hn, rfl⟩
      exact .plain hn
  · intro h
    generalize s.toList = cs at h ⊢
    cases h with
    | plus h => exact signed_eq_some.mpr ⟨_, h, rfl⟩
    | minus h => exact signed_eq_some.mpr ⟨_, h, rfl⟩
    | plain h =>
      split
      · exact absurd (h.isDigit '-' List.mem_cons_self) (by decide)
      · exact absurd (h.isDigit '+' List.mem_cons_self) (by decide)
      · exact signed_eq_some.mpr ⟨_, h, rfl⟩

theorem versionText_toString (hmin : i64Min ≤ v) (hmax : v ≤ i64Max) :
    VersionText (toString v) v :=
  ⟨SignedNumeral.toString v, hmin, hmax⟩

end Parts

section Scopes
variable [UuidText] {display : Uuid → String} {s before after : String} {d : Uuid} {v : ℤ}

theorem parseGetScope_ok {target : Uuid × Option ℤ} (h : parseGetScope s = .ok target) :
    GetScope s target := by
  have hread := scopeRead_parseGetScope s
  rw [h] at hread
  cases hread with
  | latest _ hd => exact .latest hd
  | @version before after _ _ hs hd hv =>
    have hparts : s = before ++ "@" ++ after := by
      rw [← String.toList_inj, (splitOnce_eq_some.mp hs).1]
      simp
    rw [hparts]
    exact .version hd (parseI64_eq_some.mp hv)

/-- The parser accepts exactly the grammar, with the targets it gives. -/
theorem parseGetScope_ok_iff (laws : UuidTextLaws display) {target : Uuid × Option ℤ} :
    parseGetScope s = .ok target ↔ GetScope s target := by
  constructor
  · exact parseGetScope_ok
  · intro h
    cases h with
    | latest hd =>
      rw [parseGetScope_of_none (splitOnce_eq_none.mpr (laws.at_free hd)), hd]
      rfl
    | @version s t d v hd hv =>
      have hsplit : splitOnce '@' (s ++ "@" ++ t) = some (s, t) := by
        rw [splitOnce_eq_some]
        exact ⟨by simp, laws.at_free hd⟩
      rw [parseGetScope_of_some hsplit, hd, parseI64_eq_some.mpr hv]
      rfl

/-- `parse_get_scope` accepts exactly its grammar, refuses everything else as malformed, never
takes an explicit version as the latest, and inverts the rendering of a target. -/
theorem parseGetScope_exact (laws : UuidTextLaws display) :
    (∀ s d, parseGetScope s = .ok (d, none) ↔ UuidText.parse s = some d) ∧
      (∀ s d v, parseGetScope s = .ok (d, some v) ↔
        ∃ id version, s = id ++ "@" ++ version ∧ UuidText.parse id = some d ∧
          VersionText version v) ∧
      (∀ s, (∀ target, ¬ GetScope s target) →
        ∃ reason, parseGetScope s = .error (.malformedScope reason)) ∧
      (∀ s d, '@' ∈ s.toList → parseGetScope s ≠ .ok (d, none)) ∧
      (∀ d, parseGetScope (display d) = .ok (d, none)) ∧
      ∀ d v, i64Min ≤ v → v ≤ i64Max →
        parseGetScope (display d ++ "@" ++ toString v) = .ok (d, some v) := by
  refine ⟨fun s d => ?_, fun s d v => ?_, fun s hs => ?_, fun s d hat h => ?_, fun d => ?_,
    fun d v hmin hmax => ?_⟩
  · rw [parseGetScope_ok_iff laws]
    exact ⟨fun h => by cases h; assumption, .latest⟩
  · rw [parseGetScope_ok_iff laws]
    constructor
    · intro h
      cases h with
      | @version id version _ _ hd hv => exact ⟨id, version, rfl, hd, hv⟩
    · rintro ⟨id, version, rfl, hd, hv⟩
      exact .version hd hv
  · cases h : parseGetScope s with
    | ok target => exact absurd ((parseGetScope_ok_iff laws).mp h) (hs target)
    | error e =>
      rcases parseGetScope_error h with ⟨reason, rfl⟩
      exact ⟨reason, rfl⟩
  · rw [parseGetScope_ok_iff laws] at h
    cases h with
    | latest hd => exact laws.at_free hd hat
  · exact (parseGetScope_ok_iff laws).mpr (.latest (laws.parse_display d))
  · exact (parseGetScope_ok_iff laws).mpr
      (.version (laws.parse_display d) (versionText_toString hmin hmax))

end Scopes

section Sample

/-- The `k` last hexadecimal digits of a number. -/
def hexDigits : ℕ → ℕ → List Char
  | 0, _ => []
  | k + 1, n => hexDigits k (n / 16) ++ [Nat.digitChar (n % 16)]

def hexValue (c : Char) : ℕ := if c.isDigit then c.toNat - '0'.toNat else c.toNat - 'a'.toNat + 10

/-- A text cut into groups by hyphens. -/
def hyphenate : List ℕ → List Char → List Char
  | [], cs => cs
  | group :: groups, cs => cs.take group ++ '-' :: hyphenate groups (cs.drop group)

/-- The hyphenated lowercase text of a UUID. -/
def hyphenated (id : Uuid) : String := .ofList (hyphenate [8, 4, 4, 4] (hexDigits 32 id.toNat))

/-- A parser of the hyphenated lowercase form alone. -/
@[reducible] def hyphenatedUuidText : UuidText where
  parse s :=
    let hex := s.toList.filter (· ≠ '-')
    let id : Uuid := .ofNat 128 (hex.foldl (fun n c => 16 * n + hexValue c) 0)
    if s = hyphenated id then some id else none

theorem digitChar_lt (k : Fin 16) :
    hexValue (Nat.digitChar k) = k ∧ Nat.digitChar k ≠ '-' ∧ Nat.digitChar k ≠ '@' := by
  decide +revert

theorem hexDigits_value (k n : ℕ) :
    (hexDigits k n).foldl (fun n c => 16 * n + hexValue c) 0 = n % 16 ^ k := by
  induction k generalizing n with
  | zero => simp [hexDigits, Nat.mod_one]
  | succ k ih =>
    have hlast : hexValue (Nat.digitChar (n % 16)) = n % 16 :=
      (digitChar_lt ⟨n % 16, Nat.mod_lt _ (by decide)⟩).1
    rw [hexDigits, List.foldl_append, ih, List.foldl_cons, List.foldl_nil, hlast, Nat.pow_succ',
      Nat.mod_mul]
    omega

theorem hexDigits_ne {k n : ℕ} {c : Char} (hc : c ∈ hexDigits k n) : c ≠ '-' ∧ c ≠ '@' := by
  induction k generalizing n with
  | zero => exact absurd hc (by simp [hexDigits])
  | succ k ih =>
    rcases List.mem_append.mp hc with hfront | hlast
    · exact ih hfront
    · rw [List.mem_singleton.mp hlast]
      exact (digitChar_lt ⟨n % 16, Nat.mod_lt _ (by decide)⟩).2

theorem filter_hyphenate {groups : List ℕ} {cs : List Char} (h : ∀ c ∈ cs, c ≠ '-') :
    (hyphenate groups cs).filter (· ≠ '-') = cs := by
  induction groups generalizing cs with
  | nil => exact List.filter_eq_self.mpr fun c hc => decide_eq_true (h c hc)
  | cons group groups ih =>
    have htake : (cs.take group).filter (· ≠ '-') = cs.take group :=
      List.filter_eq_self.mpr fun c hc => decide_eq_true (h c (List.mem_of_mem_take hc))
    rw [hyphenate, List.filter_append, htake, List.filter_cons_of_neg (by simp),
      ih fun c hc => h c (List.mem_of_mem_drop hc), List.take_append_drop]

theorem mem_hyphenate {groups : List ℕ} {cs : List Char} {c : Char} (h : c ∈ hyphenate groups cs) :
    c = '-' ∨ c ∈ cs := by
  induction groups generalizing cs with
  | nil => exact .inr h
  | cons group groups ih =>
    rcases List.mem_append.mp h with htake | hrest
    · exact .inr (List.mem_of_mem_take htake)
    · rcases List.mem_cons.mp hrest with hhyphen | hdrop
      · exact .inl hhyphen
      · exact (ih hdrop).imp id List.mem_of_mem_drop

theorem hyphenatedUuidText_laws : @UuidTextLaws hyphenatedUuidText hyphenated := by
  refine @UuidTextLaws.mk hyphenatedUuidText _ (fun id => ?_) fun {s id} h => ?_
  · have hvalue : ((hyphenated id).toList.filter (· ≠ '-')).foldl
        (fun n c => 16 * n + hexValue c) 0 = id.toNat := by
      rw [hyphenated, String.toList_ofList, filter_hyphenate fun c hc => (hexDigits_ne hc).1,
        hexDigits_value]
      exact Nat.mod_eq_of_lt id.isLt
    simp only [UuidText.parse, hvalue, BitVec.ofNat_toNat, BitVec.setWidth_eq, if_pos]
  · simp only [UuidText.parse] at h
    split at h
    · rename_i hs
      rw [hs, hyphenated, String.toList_ofList]
      intro hat
      rcases mem_hyphenate hat with hhyphen | hdigit
      · exact absurd hhyphen (by decide)
      · exact (hexDigits_ne hdigit).2 rfl
    · exact absurd h (by simp)

theorem parseGetScope_exact_hyphenated :
    @parseGetScope hyphenatedUuidText "00000000-0000-0000-0000-0000000000ff@-7" =
      .ok (255, some (-7)) := by
  have h := (@parseGetScope_exact hyphenatedUuidText hyphenated
    hyphenatedUuidText_laws).2.2.2.2.2 255 (-7) (by decide) (by decide)
  have htext : hyphenated 255 ++ "@" ++ toString (-7 : ℤ) =
      "00000000-0000-0000-0000-0000000000ff@-7" := by decide +kernel
  rwa [htext] at h

end Sample
end Librarian
