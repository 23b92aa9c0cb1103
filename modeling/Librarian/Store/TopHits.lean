import Librarian.Store.Search
import Mathlib.Data.List.Dedup

/-! # A search returns the best matches

One hit for each document at most, its newest matching version, in falling rank and cut off
at the limit: nothing left out ranks higher.
-/
namespace Librarian.Store
open Foundation Postgres PostgresDocumentRepository Program

section Rows
variable [TextSearch] {rows : List VersionRow} {query : String}

def newestMatch (rows : List VersionRow) (query : String) (d : Uuid) : Option VersionRow :=
  (newestMatches rows query).find? fun row => row.documentId = d

def matchingDocuments (rows : List VersionRow) (query : String) : List Uuid :=
  ((rows.filter fun row => TextSearch.isMatch row query).map (·.documentId)).dedup

/-- `hits` are the best `limit` documents of all that match, each shown by its newest match. -/
structure TopHits (rows : List VersionRow) (query : String) (limit : ℤ) (hits : List SearchHit) :
    Prop where
  distinct : (hits.map (·.documentId)).Nodup
  newest : ∀ hit ∈ hits, ∃ row, newestMatch rows query hit.documentId = some row ∧
    hit.version = row.version ∧ hit.title = row.title
  falling : hits.Pairwise fun a b => ∀ x ∈ newestMatch rows query a.documentId,
    ∀ y ∈ newestMatch rows query b.documentId, TextSearch.rank y query ≤ TextSearch.rank x query
  count : (hits.length : ℤ) = min limit (matchingDocuments rows query).length
  best : ∀ d ∈ matchingDocuments rows query, d ∉ hits.map (·.documentId) →
    ∀ hit ∈ hits, ∀ x ∈ newestMatch rows query hit.documentId, ∀ y ∈ newestMatch rows query d,
      TextSearch.rank y query ≤ TextSearch.rank x query

theorem newestMatches_nodup (hkeys : (rows.map VersionRow.key).Nodup) :
    ((newestMatches rows query).map (·.documentId)).Nodup := by
  apply List.Nodup.map_on _ (hkeys.of_map.filter _)
  intro x hx y hy hid
  rcases mem_newestMatches.mp hx with ⟨hxr, hxm, hxn⟩
  rcases mem_newestMatches.mp hy with ⟨hyr, hym, hyn⟩
  have hkey : x.key = y.key := by
    rw [VersionRow.key, VersionRow.key, hid,
      Int.le_antisymm (hyn x hxr hid hxm) (hxn y hyr hid.symm hym)]
  exact List.inj_on_of_nodup_map hkeys hxr hyr hkey

theorem newestMatch_eq_some (hkeys : (rows.map VersionRow.key).Nodup) {d : Uuid}
    {row : VersionRow} : newestMatch rows query d = some row ↔
      row ∈ newestMatches rows query ∧ row.documentId = d := by
  constructor
  · intro h
    exact ⟨List.mem_of_find?_eq_some h, by simpa using List.find?_some h⟩
  · rintro ⟨hrow, rfl⟩
    cases hf : newestMatch rows query row.documentId with
    | none => simpa using List.find?_eq_none.mp hf row hrow
    | some found =>
      have hid : found.documentId = row.documentId := by simpa using List.find?_some hf
      rw [List.inj_on_of_nodup_map (newestMatches_nodup hkeys) (List.mem_of_find?_eq_some hf) hrow hid]

theorem mem_matchingDocuments {d : Uuid} : d ∈ matchingDocuments rows query ↔
    ∃ row ∈ rows, TextSearch.isMatch row query = true ∧ row.documentId = d := by
  simp [matchingDocuments, and_assoc]

/-- Every document with a match has a newest one. -/
theorem documents_newestMatches (hkeys : (rows.map VersionRow.key).Nodup) :
    ((newestMatches rows query).map (·.documentId)).Perm (matchingDocuments rows query) := by
  rw [matchingDocuments, List.perm_ext_iff_of_nodup (newestMatches_nodup hkeys) (List.nodup_dedup _)]
  intro d
  rw [← matchingDocuments, mem_matchingDocuments, List.mem_map]
  constructor
  · rintro ⟨row, hrow, rfl⟩
    rcases mem_newestMatches.mp hrow with ⟨hr, hmatch, -⟩
    exact ⟨row, hr, hmatch, rfl⟩
  · rintro ⟨row, hrow, hmatch, rfl⟩
    have hin : row ∈ (rows.filter fun r => TextSearch.isMatch r query).mergeSort
        byDocumentThenVersion := by
      rw [List.mem_mergeSort, List.mem_filter]
      exact ⟨hrow, hmatch⟩
    rcases Ranking.exists_mem_distinctOn (·.documentId) hin with ⟨first, hfirst, hid⟩
    exact ⟨first, (mem_latestMatchingVersion hkeys).mp hfirst, hid⟩

/-- Whatever plan the engine chooses, `SEARCH_SQL` returns the best matches. -/
theorem topHits_searchSql (hkeys : (rows.map VersionRow.key).Nodup) (plan : Plan) {limit : ℤ}
    (hl : 0 ≤ limit) : TopHits rows query limit (searchSql plan rows query limit.toNat) := by
  have hperm : (plan.arrange (latestMatchingVersion rows query)).Perm (newestMatches rows query) :=
    (plan.perm _).trans (latestMatchingVersion_perm hkeys)
  have htop := Ranking.topOf_take (fun r => TextSearch.rank r query) hperm limit.toNat
  have hdocuments : ((newestMatches rows query).map (·.documentId)).Perm
      (matchingDocuments rows query) := documents_newestMatches hkeys
  rw [searchSql]
  generalize (Ranking.byRank (fun r => TextSearch.rank r query)
    (plan.arrange (latestMatchingVersion rows query))).take limit.toNat = best at htop ⊢
  rcases htop with ⟨⟨rest, hrest, hbest⟩, hfalling, hlength⟩
  have hmem : ∀ row ∈ best, row ∈ newestMatches rows query := fun row hrow =>
    hrest.mem_iff.mp (List.mem_append_left _ hrow)
  have hshown : ∀ row ∈ best, newestMatch rows query (toHit query row).documentId = some row :=
    fun row hrow => (newestMatch_eq_some hkeys).mpr ⟨hmem row hrow, rfl⟩
  constructor
  · have hnodup := ((hrest.map (·.documentId)).nodup_iff).mpr (newestMatches_nodup hkeys)
    rw [List.map_append] at hnodup
    rw [List.map_map]
    exact hnodup.of_append_left
  · intro hit hhit
    rcases List.mem_map.mp hhit with ⟨row, hrow, rfl⟩
    exact ⟨row, hshown row hrow, rfl, rfl⟩
  · rw [List.pairwise_map]
    apply hfalling.imp_of_mem
    intro a b ha hb hab x hx y hy
    rw [hshown a ha] at hx
    rw [hshown b hb] at hy
    cases hx
    cases hy
    exact hab
  · have hcount : (newestMatches rows query).length = (matchingDocuments rows query).length := by
      simpa using hdocuments.length_eq
    rw [List.length_map, hlength, ← hcount]
    omega
  · intro d hd hout hit hhit x hx y hy
    rcases List.mem_map.mp hhit with ⟨row, hrow, rfl⟩
    cases (hshown row hrow).symm.trans hx
    rcases (newestMatch_eq_some hkeys).mp hy with ⟨hmatch, rfl⟩
    apply hbest _ hrow y
    rcases List.mem_append.mp (hrest.mem_iff.mpr hmatch) with hin | hin
    · exact absurd (List.mem_map.mpr ⟨_, List.mem_map.mpr ⟨y, hin, rfl⟩, rfl⟩) hout
    · exact hin

end Rows

section Runs
variable [Sha256] [TextSearch] {t : List (State × Action)} {s : State} {query : String} {limit : ℤ}

omit [Sha256] [TextSearch] in
theorem get_of_committed {db : Database} (h : db.Consistent) {row : VersionRow}
    (hrow : row ∈ db.committedVersions) : ∃ document, document.title = row.title ∧
      db.library.get row.documentId (some row.version) = .ok document := by
  rcases h.readVersion_ok hrow with ⟨document, hread⟩
  have hget : db.library.get row.documentId (some row.version) = .ok document := by
    rw [h.library_get_some, h.versionRow_eq_some.mpr ⟨hrow, rfl⟩]
    exact hread
  have htitle : document.title = row.title := by
    rw [readVersion, dif_pos (VersionRow.digest_length (h.checked hrow))] at hread
    cases hread
    rfl
  exact ⟨document, htitle, hget⟩

/-- In every reachable state the search statement selects the best matches. A search that
returned did so in the middle of its run; it fails only after a fault or where its query is none,
and the version of every hit can be read from then on. -/
theorem topHits_of_trace (h : system.Trace t s) (hl : 0 ≤ limit) :
    (∀ plan, TopHits s.database.committedVersions query limit
      (searchSql plan s.database.committedVersions query limit.toNat)) ∧
    ∀ c res, s.client c = .finished (.search query limit) res →
      (faulty t c = false → isQuery query = true → ∃ hits, res = .search (.ok hits)) ∧
      ∀ hits, res = .search (.ok hits) →
        (∃ p ∈ t, p.2.actor = some c ∧ TopHits p.1.database.committedVersions query limit hits) ∧
        ∀ hit ∈ hits, ∃ document, document.title = hit.title ∧
          s.database.library.get hit.documentId (some hit.version) = .ok document := by
  have hinv := invariant_of_trace h
  refine ⟨fun plan => topHits_searchSql hinv.consistent.versionKey.nodup_committed plan hl, ?_⟩
  intro c res hc
  have hfit := hinv.fits c
  rw [Fits, hc] at hfit
  have hanswers := hfit.2.2 _ (hinv.isView c)
  generalize hop : RepositoryCall.search query limit = op at hanswers
  cases hanswers with
  | failed hf he =>
    subst hop
    refine ⟨fun hno hq => ?_, fun hits hres => ?_⟩
    · rcases he with hfaulty | hneg | hbad
      · cases hno.symm.trans hfaulty
      · exact absurd hl (Int.not_le.mpr hneg)
      · cases hq.symm.trans hbad
    · subst hres
      cases hf
  | wrote => cases hop
  | read _ _ hstep =>
    subst hop
    cases hstep
  | @searched _ _ db hdb plan _ =>
    cases hop
    rcases List.mem_map.mp hdb with ⟨p, hp, rfl⟩
    rw [List.mem_filter, decide_eq_true_eq] at hp
    rcases hinv.past p hp.1 with ⟨hcon, hgrows⟩
    have htop : TopHits _ query _ _ :=
      topHits_searchSql hcon.versionKey.nodup_committed plan hl
    refine ⟨fun _ _ => ⟨_, rfl⟩, fun hits hres => ?_⟩
    cases hres
    refine ⟨⟨p, hp.1, hp.2, htop⟩, fun hit hhit => ?_⟩
    rcases htop.newest hit hhit with ⟨row, hrow, hversion, htitle⟩
    rcases (newestMatch_eq_some hcon.versionKey.nodup_committed).mp hrow with ⟨hmatch, hid⟩
    have hcommitted := hgrows.versions (mem_newestMatches.mp hmatch).1
    rw [← hid, hversion, htitle]
    exact get_of_committed hinv.consistent hcommitted

end Runs

section Sample

/-- Two versions of document 7 and one of document 8 match a search that has room for one. -/
def searchRun : List Action :=
  createRun ⟨0, 0⟩ 1 7 "alpha" ++ appendRun ⟨0, 1⟩ 2 7 "alpha" ++ createRun ⟨1, 0⟩ 3 8 "alpha" ++
    createRun ⟨1, 1⟩ 4 9 "beta" ++
    .invoke ⟨2, 0⟩ (.search "alpha" 1) :: (execs ⟨2, 0⟩ 2 ++ [.finish ⟨2, 0⟩ true])

/-- The two documents have equal rank, and whichever the plan puts first is shown by its newest
version. -/
theorem topHits_searchRun :
    (∀ plan, @TopHits sampleSearch
      ((sampleRun searchRun).get (by decide +kernel)).database.committedVersions "alpha" 1
      (@searchSql sampleSearch plan
        ((sampleRun searchRun).get (by decide +kernel)).database.committedVersions "alpha" 1)) ∧
    ∃ hits, ((sampleRun searchRun).get (by decide +kernel)).client ⟨2, 0⟩ =
        .finished (.search "alpha" 1) (.search (.ok hits)) ∧
      (∃ p ∈ sampleRecord searchRun, p.2.actor = some ⟨2, 0⟩ ∧
        @TopHits sampleSearch p.1.database.committedVersions "alpha" 1 hits) ∧
      ∀ hit ∈ hits, ∃ document, document.title = hit.title ∧
        ((sampleRun searchRun).get (by decide +kernel)).database.library.get hit.documentId
          (some hit.version) = .ok document := by
  have htop := @topHits_of_trace sampleSha256 sampleSearch _ _ "alpha" 1
    (trace_sampleRun (by decide +kernel : (sampleRun searchRun).isSome = true)) (by decide)
  exact ⟨htop.1, _, rfl, (htop.2 ⟨2, 0⟩ _ rfl).2 _ rfl⟩

end Sample
end Librarian.Store
