import Librarian.Store.Invariant

/-! # The representation invariant of the store

In every reachable state the committed rows of each document are numbered from 1 without
gaps, digests belong to their contents, and put operations and versions correspond one to
one.
-/
namespace Librarian.Store
open Foundation Postgres PostgresDocumentRepository

/-- What the committed tables look like, and who wrote them. -/
structure Represents [Sha256] (s : State) : Prop where
  documentKeys : (s.database.committedDocuments.map (·.documentId)).Nodup
  versionKeys : (s.database.committedVersions.map VersionRow.key).Nodup
  requestIds : (s.database.committedOperations.map (·.requestId)).Nodup
  versions : ∀ document ∈ s.database.committedDocuments, ∃ n, 1 ≤ n ∧ ∀ v,
    (∃ row ∈ s.database.committedVersions, row.key = (document.documentId, v)) ↔ 1 ≤ v ∧ v ≤ n
  digest : ∀ row ∈ s.database.committedVersions,
    row.contentDigest = (Sha256.digest row.content.toUTF8.data.toList).toList
  produced : ∀ row ∈ s.database.committedVersions,
    ∃! o, o ∈ s.database.committedOperations ∧ o.key = row.key
  recorded : ∀ o ∈ s.database.committedOperations,
    ∃! row, row ∈ s.database.committedVersions ∧ row.key = o.key
  author : ∀ o ∈ s.database.committedOperations, ∀ row ∈ s.database.committedVersions,
    o.key = row.key → ∃ c document, (s.client c).op = some (.put o.requestId document) ∧
      o ∈ (s.database.footprint c).operations ∧ row ∈ (s.database.footprint c).versions

variable {db : Database} {c c' : Call}

/-- Two calls that both wrote a row of the same version are one call. -/
theorem call_eq_of_version (h : db.Consistent) (hc : db.status c = .committed)
    (hc' : db.status c' = .committed) {v v' : VersionRow} (hv : v ∈ (db.footprint c).versions)
    (hv' : v' ∈ (db.footprint c').versions) (hk : v.key = v'.key) : c = c' := by
  have heq := h.versionKey.eq_of_mem (Database.mem_versions.mp hv) (Database.mem_versions.mp hv')
    (by simp [hc]) (by simp [hc']) hk
  exact congrArg Tuple.xmin heq

theorem produced_unique (h : db.Consistent) {row : VersionRow} (hrow : row ∈ db.committedVersions) :
    ∃! o, o ∈ db.committedOperations ∧ o.key = row.key := by
  rcases Database.mem_committedVersions.mp hrow with ⟨c, hc, hv⟩
  have hwf := h.wellFormed c
  cases hops : (db.footprint c).operations with
  | nil => exact absurd hops (hwf.complete (.inr hc))
  | cons o l =>
    have ho : o ∈ (db.footprint c).operations := by simp [hops]
    rcases hwf.recorded o ho with ⟨v, hv', hk⟩
    have hkey : o.key = row.key := by
      rw [← hk, eq_of_mem_of_length_le_one hwf.version hv' hv]
    refine ⟨o, ⟨Database.mem_committedOperations.mpr ⟨c, hc, ho⟩, hkey⟩, ?_⟩
    rintro o' ⟨ho', hk'⟩
    rcases Database.mem_committedOperations.mp ho' with ⟨c', hc', hm⟩
    rcases (h.wellFormed c').recorded o' hm with ⟨v', hv'', hkv⟩
    have hcc := call_eq_of_version h hc hc' hv hv'' (hk'.symm.trans hkv.symm)
    subst hcc
    exact eq_of_mem_of_length_le_one hwf.operation hm ho

theorem recorded_unique (h : db.Consistent) {o : PutOperationRow}
    (ho : o ∈ db.committedOperations) : ∃! row, row ∈ db.committedVersions ∧ row.key = o.key := by
  rcases Database.mem_committedOperations.mp ho with ⟨c, hc, hm⟩
  rcases (h.wellFormed c).recorded o hm with ⟨v, hv, hk⟩
  refine ⟨v, ⟨Database.mem_committedVersions.mpr ⟨c, hc, hv⟩, hk⟩, ?_⟩
  rintro v' ⟨hv', hk'⟩
  exact h.versionKey.eq_of_mem_committed hv' (Database.mem_committedVersions.mpr ⟨c, hc, hv⟩)
    (hk'.trans hk.symm)

/-- The versions of a document are numbered from 1 to the latest. -/
theorem versions_contiguous (h : db.Consistent) (d : Uuid) (v : ℤ) :
    (∃ row ∈ db.committedVersions, row.key = (d, v)) ↔
      1 ≤ v ∧ v ≤ latestVersion db.committedVersions d := by
  constructor
  · rintro ⟨row, hrow, hk⟩
    rcases Prod.mk.inj hk with ⟨hid, rfl⟩
    rw [← hid]
    exact ⟨VersionRow.one_le_version (h.checked hrow), le_latestVersion hrow⟩
  · rintro ⟨hv, hle⟩
    rcases h.versionRow_isSome hv hle with ⟨row, e, hrow, -⟩
    rcases h.versionRow_eq_some.mp hrow with ⟨hm, hk⟩
    exact ⟨row, hm, hk⟩

theorem digest_eq [Sha256] {r : Uuid} {document : PutDocument} {f : Footprint}
    (h : f.WrittenBy r document) {v : VersionRow} (hv : v ∈ f.versions) :
    v.contentDigest = (Sha256.digest v.content.toUTF8.data.toList).toList := by
  have hread := h.version v hv
  rw [readVersion] at hread
  split at hread
  · simp only [Library.entry, Except.ok.injEq, DocumentVersion.mk.injEq] at hread
    rcases hread with ⟨-, -, hcontent, -, -, -, hdigest, -⟩
    rw [hcontent]
    have := congrArg Vector.toList hdigest
    simpa [PutDocument.contentDigest] using this
  · cases hread

section Reachable
variable [Sha256] [TextSearch] {s : State}

/-- The store's tables keep their shape in every reachable state. -/
theorem represents_of_reachable (h : system.Reachable s) : Represents s := by
  rcases h with ⟨t, ht⟩
  have hinv := invariant_of_trace ht
  have hcon := hinv.consistent
  constructor
  case documentKeys => exact hcon.documentKey.nodup_committed
  case versionKeys => exact hcon.versionKey.nodup_committed
  case requestIds => exact hcon.operationKey.nodup_committed
  case versions =>
    intro document hd
    exact ⟨_, hcon.latestVersion_pos ⟨document, hd, rfl⟩, versions_contiguous hcon _⟩
  case digest =>
    intro row hrow
    rcases Database.mem_committedVersions.mp hrow with ⟨c, -, hv⟩
    rcases writtenBy_of_version hinv hv with ⟨r, document, -, hw⟩
    exact digest_eq hw hv
  case produced => exact fun row hrow => produced_unique hcon hrow
  case recorded => exact fun o ho => recorded_unique hcon ho
  case author =>
    intro o ho row hrow hk
    rcases Database.mem_committedOperations.mp ho with ⟨c, hc, hm⟩
    rcases (hcon.wellFormed c).recorded o hm with ⟨v, hv, hkv⟩
    have hvr := hcon.versionKey.eq_of_mem_committed (Database.mem_committedVersions.mpr ⟨c, hc, hv⟩)
      hrow (hkv.trans hk)
    rcases writtenBy_of_version hinv hv with ⟨r, document, hop, hw⟩
    rw [hvr] at hv
    exact ⟨c, document, by rw [hop, hw.request o hm], hm, hv⟩

end Reachable

/-- The state after one put of a new document and one of a further version. -/
theorem represents_after_two_puts :
    @Represents sampleSha256 ((sampleRun (createRun ⟨0, 0⟩ 1 7 "alpha" ++
      appendRun ⟨1, 0⟩ 2 7 "beta")).get (by decide +kernel)) :=
  @represents_of_reachable sampleSha256 sampleSearch _ (reachable_sampleRun _)

end Librarian.Store
