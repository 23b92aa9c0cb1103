import Librarian.Domain
import Librarian.Foundation.Ranking

/-! # The tables of the two migrations and the search query over them

Rows carry the columns that statements write. `satisfiesChecks` is the conjunction of the CHECK
constraints of `document_versions`; text columns also refuse the character NUL. The match, rank
and headline of text search are PostgreSQL's and stay parameters, and so do the sizes it takes.
-/
namespace Librarian.Postgres
open Foundation

structure DocumentRow where
  documentId : Uuid
  createdAt : ℤ
  deriving DecidableEq

structure VersionRow where
  documentId : Uuid
  version : ℤ
  content : String
  contentType : String
  title : Option String
  sourceUri : Option String
  contentDigest : List UInt8
  createdAt : ℤ
  deriving DecidableEq

structure PutOperationRow where
  requestId : Uuid
  documentId : Uuid
  version : ℤ
  processedAt : ℤ
  deriving DecidableEq

/-- The primary key of `document_versions`. -/
def VersionRow.key (row : VersionRow) : Uuid × ℤ := (row.documentId, row.version)

/-- The version a put operation refers to. -/
def PutOperationRow.key (row : PutOperationRow) : Uuid × ℤ := (row.documentId, row.version)

/-- `char_length(s) BETWEEN lo AND hi`. -/
def charLengthBetween (lo hi : ℕ) (s : String) : Bool := lo ≤ s.length && s.length ≤ hi

/-- PostgreSQL text holds no NUL character. -/
def isText (s : String) : Bool := !s.toList.contains '\x00'

def VersionRow.satisfiesChecks (row : VersionRow) : Bool :=
  1 ≤ row.version &&
    isText row.content && isText row.contentType &&
    row.title.all isText && row.sourceUri.all isText &&
    charLengthBetween 1 200 row.contentType &&
    row.title.all (charLengthBetween 1 500) &&
    row.sourceUri.all (charLengthBetween 1 2000) &&
    row.contentDigest.length = 32

theorem VersionRow.one_le_version {row : VersionRow} (h : row.satisfiesChecks = true) :
    1 ≤ row.version := by
  simp only [satisfiesChecks, Bool.and_eq_true, decide_eq_true_eq] at h
  omega

theorem VersionRow.digest_length {row : VersionRow} (h : row.satisfiesChecks = true) :
    row.contentDigest.length = 32 := by
  simp only [satisfiesChecks, Bool.and_eq_true, decide_eq_true_eq] at h
  exact h.2

/-- The range of a `bigint`. -/
def i64Min : ℤ := -9223372036854775808
def i64Max : ℤ := 9223372036854775807

/-- `COALESCE(MAX(version), 0)` over the rows of one document. -/
def latestVersion (rows : List VersionRow) (documentId : Uuid) : ℤ :=
  ((rows.filter fun r => r.documentId = documentId).map (·.version)).foldr max 0

theorem latestVersion_cons (x : VersionRow) (rows : List VersionRow) (d : Uuid) :
    latestVersion (x :: rows) d =
      if x.documentId = d then max x.version (latestVersion rows d) else latestVersion rows d := by
  by_cases h : x.documentId = d <;> simp [latestVersion, h]

theorem latestVersion_nonneg (rows : List VersionRow) (d : Uuid) : 0 ≤ latestVersion rows d := by
  induction rows with
  | nil => simp [latestVersion]
  | cons x rows ih =>
    rw [latestVersion_cons]
    split <;> omega

theorem le_latestVersion {rows : List VersionRow} {r : VersionRow} (hr : r ∈ rows) :
    r.version ≤ latestVersion rows r.documentId := by
  induction rows with
  | nil => simp at hr
  | cons x rows ih =>
    rw [latestVersion_cons]
    rcases List.mem_cons.mp hr with rfl | hr
    · rw [if_pos rfl]
      omega
    · have h := ih hr
      split <;> omega

/-- A positive latest version is the version of a row. -/
theorem exists_row_of_latestVersion_pos (rows : List VersionRow) (d : Uuid)
    (h : 0 < latestVersion rows d) :
    ∃ r ∈ rows, r.documentId = d ∧ r.version = latestVersion rows d := by
  induction rows with
  | nil => simp [latestVersion] at h
  | cons x rows ih =>
    rw [latestVersion_cons] at h ⊢
    split at h
    · rename_i hx
      rw [if_pos hx]
      by_cases hle : latestVersion rows d ≤ x.version
      · exact ⟨x, List.mem_cons_self, hx, by omega⟩
      · obtain ⟨r, hr, hd, hv⟩ := ih (by have := latestVersion_nonneg rows d; omega)
        exact ⟨r, List.mem_cons_of_mem _ hr, hd, by omega⟩
    · rename_i hx
      rw [if_neg hx]
      obtain ⟨r, hr, hd, hv⟩ := ih h
      exact ⟨r, List.mem_cons_of_mem _ hr, hd, hv⟩

theorem latestVersion_le {rows : List VersionRow} {d : Uuid} {n : ℤ} (hn : 0 ≤ n)
    (h : ∀ r ∈ rows, r.documentId = d → r.version ≤ n) : latestVersion rows d ≤ n := by
  by_cases hp : 0 < latestVersion rows d
  · obtain ⟨r, hr, hd, hv⟩ := exists_row_of_latestVersion_pos rows d hp
    exact hv ▸ h r hr hd
  · omega

theorem latestVersion_congr {rows rows' : List VersionRow} {d : Uuid}
    (h : ∀ r, r.documentId = d → (r ∈ rows ↔ r ∈ rows')) :
    latestVersion rows d = latestVersion rows' d := by
  apply Int.le_antisymm
  · apply latestVersion_le (latestVersion_nonneg _ _)
    intro r hr hd
    have := le_latestVersion ((h r hd).mp hr)
    rwa [hd] at this
  · apply latestVersion_le (latestVersion_nonneg _ _)
    intro r hr hd
    have := le_latestVersion ((h r hd).mpr hr)
    rwa [hd] at this

/-- PostgreSQL's text search with the configuration `english`. A vector has a largest size, which
the one of a title and a content `fits` or not, and so has a query, which it `admits` or not. -/
class TextSearch where
  Rank : Type
  order : LinearOrder Rank
  isMatch : VersionRow → String → Bool
  rank : VersionRow → String → Rank
  headline : VersionRow → String → String
  fits (title content : String) : Bool
  admits : String → Bool

instance [TextSearch] : LinearOrder TextSearch.Rank := TextSearch.order

/-- The row satisfies its checks, and `search_vector` can be generated for it. -/
def VersionRow.isStorable [TextSearch] (row : VersionRow) : Bool :=
  row.satisfiesChecks && TextSearch.fits (row.title.getD "") row.content

theorem VersionRow.checks_of_isStorable [TextSearch] {row : VersionRow}
    (h : row.isStorable = true) : row.satisfiesChecks = true := (Bool.and_eq_true_iff.mp h).1

/-- `plainto_tsquery` takes the text. -/
def isQuery [TextSearch] (query : String) : Bool := isText query && TextSearch.admits query

/-- The order in which an execution plan happens to hand rows to the last sort. -/
structure Plan where
  arrange : List VersionRow → List VersionRow
  perm : ∀ rows, (arrange rows).Perm rows

/-- `ORDER BY document_id, version DESC`. -/
def byDocumentThenVersion (a b : VersionRow) : Bool :=
  a.documentId < b.documentId || (a.documentId = b.documentId && b.version ≤ a.version)

theorem byDocumentThenVersion_trans {a b c : VersionRow} (hab : byDocumentThenVersion a b = true)
    (hbc : byDocumentThenVersion b c = true) : byDocumentThenVersion a c = true := by
  simp only [byDocumentThenVersion, Bool.or_eq_true, Bool.and_eq_true, decide_eq_true_eq] at *
  rcases hab with hab | ⟨hab, hv⟩
  · rcases hbc with hbc | ⟨hbc, -⟩
    · exact .inl (BitVec.lt_trans hab hbc)
    · exact .inl (hbc ▸ hab)
  · rcases hbc with hbc | ⟨hbc, hw⟩
    · exact .inl (hab ▸ hbc)
    · exact .inr ⟨hab.trans hbc, by omega⟩

theorem byDocumentThenVersion_total (a b : VersionRow) :
    (byDocumentThenVersion a b || byDocumentThenVersion b a) = true := by
  simp only [byDocumentThenVersion, Bool.or_eq_true, Bool.and_eq_true, decide_eq_true_eq]
  rcases BitVec.lt_trichotomy a.documentId b.documentId with h | h | h
  · exact .inl (.inl h)
  · rcases Int.le_total a.version b.version with hv | hv
    · exact .inr (.inr ⟨h.symm, hv⟩)
    · exact .inl (.inr ⟨h, hv⟩)
  · exact .inr (.inl h)

section Search
variable [TextSearch]

/-- The subquery `latest_matching_version` of `SEARCH_SQL`. -/
def latestMatchingVersion (rows : List VersionRow) (query : String) : List VersionRow :=
  Ranking.distinctOn (·.documentId)
    ((rows.filter fun r => TextSearch.isMatch r query).mergeSort byDocumentThenVersion)

def toHit (query : String) (row : VersionRow) : SearchHit where
  documentId := row.documentId
  version := row.version
  title := row.title
  snippet := TextSearch.headline row query

/-- `SEARCH_SQL` for a limit that is not negative. -/
def searchSql (plan : Plan) (rows : List VersionRow) (query : String) (limit : ℕ) : List SearchHit :=
  ((Ranking.byRank (fun r => TextSearch.rank r query)
    (plan.arrange (latestMatchingVersion rows query))).take limit).map (toHit query)

end Search
end Librarian.Postgres
