import Librarian.Store.Linearizability

/-! # What a search returns

`SEARCH_SQL` filters by the match before it selects one version of each document, so it
finds the newest matching version, which need not be the newest. Such a row stays out of
the answer exactly when the limit is filled by documents of higher rank.
-/
namespace Librarian.Store
open Foundation Postgres PostgresDocumentRepository Program

section Rows
variable [TextSearch] {rows : List VersionRow} {query : String}

/-- The newest version of its document among those that match. -/
def IsNewestMatch (rows : List VersionRow) (query : String) (row : VersionRow) : Prop :=
  TextSearch.isMatch row query = true ∧ ∀ r ∈ rows, r.documentId = row.documentId →
    TextSearch.isMatch r query = true → r.version ≤ row.version

instance (rows : List VersionRow) (query : String) :
    DecidablePred (IsNewestMatch rows query) := fun _ => inferInstanceAs (Decidable (_ ∧ _))

def newestMatches (rows : List VersionRow) (query : String) : List VersionRow :=
  rows.filter fun row => IsNewestMatch rows query row

theorem mem_newestMatches {row : VersionRow} :
    row ∈ newestMatches rows query ↔ row ∈ rows ∧ IsNewestMatch rows query row := by
  rw [newestMatches, List.mem_filter, decide_eq_true_eq]

/-- The subquery selects the newest matching version of each document. -/
theorem mem_latestMatchingVersion (hkeys : (rows.map VersionRow.key).Nodup) {row : VersionRow} :
    row ∈ latestMatchingVersion rows query ↔ row ∈ newestMatches rows query := by
  have hsorted : ((rows.filter fun r => TextSearch.isMatch r query).mergeSort
      byDocumentThenVersion).Pairwise fun a b => byDocumentThenVersion a b = true := by
    apply List.pairwise_mergeSort
    · intro a b c
      exact byDocumentThenVersion_trans
    · exact byDocumentThenVersion_total
  have hmem : ∀ r, r ∈ (rows.filter fun r => TextSearch.isMatch r query).mergeSort
      byDocumentThenVersion ↔ r ∈ rows ∧ TextSearch.isMatch r query = true := by
    intro r
    rw [List.mem_mergeSort, List.mem_filter]
  have hfirst : ∀ a ∈ latestMatchingVersion rows query, ∀ b ∈ rows,
      TextSearch.isMatch b query = true → a.documentId = b.documentId → b.version ≤ a.version := by
    intro a ha b hb hmatch hid
    rcases Ranking.distinctOn_first _ hsorted ha ((hmem b).mpr ⟨hb, hmatch⟩) hid with rfl | hab
    · exact Int.le_refl _
    · simp only [byDocumentThenVersion, Bool.or_eq_true, Bool.and_eq_true, decide_eq_true_eq] at hab
      rcases hab with hlt | ⟨-, hv⟩
      · rw [hid] at hlt
        exact absurd hlt (BitVec.lt_irrefl _)
      · exact hv
  rw [mem_newestMatches, IsNewestMatch]
  constructor
  · intro hrow
    have hin := (hmem row).mp (Ranking.distinctOn_subset _ _ hrow)
    exact ⟨hin.1, hin.2, fun r hr hid hmatch => hfirst row hrow r hr hmatch hid.symm⟩
  · rintro ⟨hrow, hmatch, hnewest⟩
    rcases Ranking.exists_mem_distinctOn (·.documentId) ((hmem row).mpr ⟨hrow, hmatch⟩) with
      ⟨a, ha, hid⟩
    have hin := (hmem a).mp (Ranking.distinctOn_subset _ _ ha)
    have hle := hnewest a hin.1 hid hin.2
    have hge := hfirst a ha row hrow hmatch hid
    have hkey : a.key = row.key := by
      rw [VersionRow.key, VersionRow.key, hid, Int.le_antisymm hle hge]
    rwa [← List.inj_on_of_nodup_map hkeys hin.1 hrow hkey]

theorem latestMatchingVersion_perm (hkeys : (rows.map VersionRow.key).Nodup) :
    (latestMatchingVersion rows query).Perm (newestMatches rows query) := by
  rw [List.perm_ext_iff_of_nodup]
  · intro row
    exact mem_latestMatchingVersion hkeys
  · exact (Ranking.distinctOn_nodup _ _).of_map
  · exact hkeys.of_map.filter _

def outranking (rows : List VersionRow) (query : String) (row : VersionRow) : List VersionRow :=
  (newestMatches rows query).filter fun r =>
    TextSearch.rank row query < TextSearch.rank r query

/-- A row can be returned exactly when it is the newest match of its document and fewer rows
than the limit outrank it. -/
theorem exists_plan_iff (hkeys : (rows.map VersionRow.key).Nodup) {limit : ℕ} {row : VersionRow} :
    (∃ plan : Plan, row ∈ (Ranking.byRank (fun r => TextSearch.rank r query)
        (plan.arrange (latestMatchingVersion rows query))).take limit) ↔
      row ∈ newestMatches rows query ∧ (outranking rows query row).length < limit := by
  have hperm : (latestMatchingVersion rows query).Perm (newestMatches rows query) :=
    latestMatchingVersion_perm hkeys
  constructor
  · rintro ⟨plan, hrow⟩
    have hp := (Ranking.byRank_perm (fun r => TextSearch.rank r query)
      (plan.arrange (latestMatchingVersion rows query))).trans ((plan.perm _).trans hperm)
    have hcount := Ranking.count_above_lt_of_mem_take _ (Ranking.byRank_pairwise _ _) hrow
    rw [(hp.filter _).length_eq] at hcount
    exact ⟨hp.mem_iff.mp (List.mem_of_mem_take hrow), hcount⟩
  · rintro ⟨hrow, hcount⟩
    rw [outranking, ← (hperm.filter _).length_eq] at hcount
    rcases Ranking.exists_order_of_count_above_lt (fun r => TextSearch.rank r query)
      (hperm.mem_iff.mpr hrow) hcount with ⟨m, hm, hfalling, hmem⟩
    -- a plan that hands over exactly this order
    let plan : Plan :=
      { arrange := fun l => if l = latestMatchingVersion rows query then m else l
        perm := by
          intro l
          split
          · rename_i hl
            rw [hl]
            exact hm
          · exact .refl l }
    refine ⟨plan, ?_⟩
    have harrange : plan.arrange (latestMatchingVersion rows query) = m := if_pos rfl
    rwa [harrange, Ranking.byRank_of_pairwise _ hfalling]

end Rows

section Current

theorem latestRow_iff {db : Database} (h : db.Consistent) {d : Uuid} {row : VersionRow} :
    Database.latestRow db.committedVersions d = some row ↔
      row ∈ db.committedVersions ∧ row.key = (d, latestVersion db.committedVersions d) := by
  rw [h.latestRow_eq, h.versionRow_eq_some]

variable [TextSearch]

/-- Whatever plan the engine chooses, the search of `c` returns current versions only, and
only documents whose current version matches. -/
def SearchesCurrent (db : Database) (c : Call) (query : String) (limit : ℤ) : Prop :=
  ∀ plan (hits : List SearchHit) db', db.exec c plan (.search query limit) = .row hits db' →
    ∀ hit ∈ hits, ∃ row, Database.latestRow db.committedVersions hit.documentId = some row ∧
      row.version = hit.version ∧ TextSearch.isMatch row query = true

/-- Unless the query is refused, every superseded version that is still the newest match of its
document is outranked by as many documents as the limit admits. -/
def SupersededCrowdedOut (db : Database) (query : String) (limit : ℤ) : Prop :=
  isQuery query = true → ∀ row ∈ newestMatches db.committedVersions query,
    row.version < latestVersion db.committedVersions row.documentId →
      limit ≤ (outranking db.committedVersions query row).length

variable [Sha256] {t : List (State × Action)} {s : State} {c : Call} {query : String} {limit : ℤ}

theorem Invariant.search_sees (h : Invariant t s) {p : Program Effect Effect.Ans RepositoryResult}
    (hc : s.client c = .running (.search query limit) p) :
    s.database.versionsSeen c = s.database.committedVersions := by
  have hfit := h.fits c
  rw [Fits, hc] at hfit
  exact Heap.visibleRows_of_rowsOf_nil hfit.1.2.1

/-- In every reachable state a search that runs its query returns current versions only, if
and only if the query is refused or all superseded matches are crowded out. -/
theorem searchesCurrent_iff (h : system.Reachable s)
    {next : Except PostgresError (List SearchHit) → Program Effect Effect.Ans RepositoryResult}
    (hc : s.client c = .running (.search query limit) (.call (.sql (.search query limit)) next)) :
    SearchesCurrent s.database c query limit ↔ SupersededCrowdedOut s.database query limit := by
  rcases h with ⟨t, ht⟩
  have hinv := invariant_of_trace ht
  have hcon := hinv.consistent
  have hkeys : (s.database.committedVersions.map VersionRow.key).Nodup :=
    hcon.versionKey.nodup_committed
  have hseen := hinv.search_sees hc
  have hexec : ∀ plan, 0 ≤ limit → isQuery query = true →
      s.database.exec c plan (.search query limit) =
        .row (searchSql plan s.database.committedVersions query limit.toNat) s.database := by
    intro plan hl hq
    rw [← hseen]
    simp [Database.exec, hl, hq]
  constructor
  · intro hcur hq row hrow hold
    by_contra hcount
    rcases (exists_plan_iff hkeys).mpr ⟨hrow, (by omega :
      (outranking s.database.committedVersions query row).length < limit.toNat)⟩ with ⟨plan, hin⟩
    rcases hcur plan _ _ (hexec plan (by omega) hq) (toHit query row)
      (List.mem_map.mpr ⟨row, hin, rfl⟩) with ⟨latest, hlatest, hversion, -⟩
    have hkey := ((latestRow_iff hcon).mp hlatest).2
    have hv : latest.version = latestVersion s.database.committedVersions row.documentId :=
      congrArg Prod.snd hkey
    have hv' : latest.version = row.version := hversion
    omega
  · intro hcrowded plan hits db' hx hit hhit
    by_cases haccepted : 0 ≤ limit ∧ isQuery query = true
    · rw [hexec plan haccepted.1 haccepted.2] at hx
      cases hx
      rcases List.mem_map.mp hhit with ⟨row, hin, rfl⟩
      rcases (exists_plan_iff hkeys).mp ⟨plan, hin⟩ with ⟨hnewest, hcount⟩
      have hrow := mem_newestMatches.mp hnewest
      have hle := le_latestVersion hrow.1
      have hcurrent : row.version = latestVersion s.database.committedVersions row.documentId := by
        by_contra hne
        have := hcrowded haccepted.2 row hnewest (by omega)
        omega
      refine ⟨row, (latestRow_iff hcon).mpr ⟨hrow.1, ?_⟩, rfl, hrow.2.1⟩
      rw [VersionRow.key, hcurrent]
      rfl
    · have hrefused : limit < 0 ∨ isQuery query = false := by
        rw [not_and_or, Int.not_le, Bool.not_eq_true] at haccepted
        exact haccepted
      simp only [Database.exec, if_pos hrefused] at hx
      cases hx

end Current

section Sample

/-- Two versions of a document, of which only the first matches the search that follows. -/
def supersededRun : List Action :=
  createRun ⟨0, 0⟩ 1 7 "alpha" ++ appendRun ⟨1, 0⟩ 2 7 "beta" ++
    .invoke ⟨2, 0⟩ (.search "alpha" 10) :: execs ⟨2, 0⟩ 1

/-- The search for `alpha` returns version 1, which version 2 has superseded. -/
theorem not_searchesCurrent_supersededRun :
    ¬ @SearchesCurrent sampleSearch ((sampleRun supersededRun).get (by decide +kernel)).database
      ⟨2, 0⟩ "alpha" 10 := by
  intro hcur
  rcases hcur samplePlan _ _ rfl ⟨7, 1, none, "<b>alpha</b>"⟩ (by decide +kernel) with
    ⟨row, hrow, hversion, -⟩
  have hsecond : ∃ r ∈ ((sampleRun supersededRun).get (by decide +kernel)).database.committedVersions,
      r.documentId = 7 ∧ r.version = 2 := by
    decide +kernel
  rcases hsecond with ⟨second, hmem, hid, htwo⟩
  have hle := (Database.latestRow_eq_some hrow).2.2 second hmem hid
  have hone : row.version = 1 := hversion
  omega

/-- Before there is a second version the same search is right. -/
theorem searchesCurrent_createRun :
    @SearchesCurrent sampleSearch ((sampleRun (createRun ⟨0, 0⟩ 1 7 "alpha" ++
        .invoke ⟨2, 0⟩ (.search "alpha" 10) :: execs ⟨2, 0⟩ 1)).get (by decide +kernel)).database
      ⟨2, 0⟩ "alpha" 10 := by
  apply (@searchesCurrent_iff sampleSearch sampleSha256 _ _ _ _ (reachable_sampleRun _) _ rfl).mpr
  unfold SupersededCrowdedOut
  decide +kernel

end Sample
end Librarian.Store
