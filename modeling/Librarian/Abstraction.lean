import Librarian.Library
import Librarian.Postgres.Statements
import Librarian.PostgresDocumentRepository

/-! # The library a database stands for

The abstract store is read off the committed rows. Committing one put appends one version
and records its request; nothing else changes what the database stands for.
-/
namespace Librarian
open Foundation Postgres PostgresDocumentRepository

/-- When every index has a value, filtering keeps them all and in their places. -/
theorem filterMap_range {α : Type} {f : ℕ → Option α} {n : ℕ} (h : ∀ k < n, (f k).isSome) :
    ((List.range n).filterMap f).length = n ∧
      ∀ k < n, ((List.range n).filterMap f)[k]? = f k := by
  induction n with
  | zero => simp
  | succ n ih =>
    obtain ⟨hlen, hget⟩ := ih fun k hk => h k (by omega)
    obtain ⟨a, ha⟩ := Option.isSome_iff_exists.mp (h n (by omega))
    have hsnoc : (List.range (n + 1)).filterMap f = (List.range n).filterMap f ++ [a] := by
      simp [List.range_succ, ha]
    rw [hsnoc]
    constructor
    · simp [hlen]
    · intro k hk
      by_cases hkn : k < n
      · rw [List.getElem?_append_left (by omega)]
        exact hget k hkn
      · obtain rfl : k = n := by omega
        rw [List.getElem?_append_right (by omega), hlen, ha]
        simp

theorem readVersion_of_length {row : VersionRow} (h : row.contentDigest.length = 32) :
    ∃ e, readVersion row = .ok e ∧ e.documentId = row.documentId ∧ e.version = row.version := by
  simp only [readVersion, dif_pos h]
  exact ⟨_, rfl, rfl, rfl⟩

/-- What a call of `put requestId document` has written, at whatever point it is. -/
structure Postgres.Footprint.WrittenBy [Sha256] (requestId : Uuid) (document : PutDocument)
    (f : Footprint) : Prop where
  content : f.versions ≠ [] → isBlank document.content = false
  contentType : f.versions ≠ [] → isBlank document.contentType = false
  version : ∀ v ∈ f.versions, readVersion v =
    .ok (Library.entry v.documentId v.version document (epochSeconds v.createdAt))
  request : ∀ o ∈ f.operations, o.requestId = requestId
  created : f.versions ≠ [] → f.documents ≠ [] → document.documentId = none
  appended : ∀ v ∈ f.versions, f.documents = [] → document.documentId = some v.documentId

namespace Postgres.Database
variable (db : Database)

/-- The version row with the given key. -/
def versionRow (d : Uuid) (v : ℤ) : Option VersionRow :=
  db.committedVersions.find? fun row => row.key = (d, v)

def library : Library where
  documents d := (List.range (latestVersion db.committedVersions d).toNat).filterMap fun k : ℕ =>
    (db.versionRow d (k + 1)).bind fun row => (readVersion row).toOption
  recorded r := (db.committedOperations.find? fun o => o.requestId = r).map (·.key)

theorem library_documents (d : Uuid) : db.library.documents d =
    (List.range (latestVersion db.committedVersions d).toNat).filterMap fun k : ℕ =>
      (db.versionRow d (k + 1)).bind fun row => (readVersion row).toOption := rfl

theorem library_recorded (r : Uuid) : db.library.recorded r =
    (db.committedOperations.find? fun o => o.requestId = r).map (·.key) := rfl

namespace Consistent
variable {db : Database} {c : Call}

theorem versionRow_eq_some (h : db.Consistent) {d : Uuid} {v : ℤ} {row : VersionRow} :
    db.versionRow d v = some row ↔ row ∈ db.committedVersions ∧ row.key = (d, v) :=
  h.versionKey.find?_eq_some

theorem checked (h : db.Consistent) {row : VersionRow} (hrow : row ∈ db.committedVersions) :
    row.satisfiesChecks = true := by
  obtain ⟨c, -, hm⟩ := mem_committedVersions.mp hrow
  exact (h.wellFormed c).checked row hm

/-- Every version number up to the latest is taken. -/
theorem versionRow_isSome (h : db.Consistent) {d : Uuid} {v : ℤ} (hv : 1 ≤ v)
    (hle : v ≤ latestVersion db.committedVersions d) :
    ∃ row e, db.versionRow d v = some row ∧ readVersion row = .ok e := by
  obtain ⟨top, htop, rfl, htv⟩ := exists_row_of_latestVersion_pos
    db.committedVersions d (by omega)
  obtain ⟨row, hrow, hkey⟩ := h.contiguous top htop v hv (by omega)
  obtain ⟨e, he, -⟩ := readVersion_of_length (VersionRow.digest_length (h.checked hrow))
  exact ⟨row, e, h.versionRow_eq_some.mpr ⟨hrow, hkey⟩, he⟩

theorem documents_get (h : db.Consistent) (d : Uuid) :
    ((db.library.documents d).length : ℤ) = latestVersion db.committedVersions d ∧
      ∀ k < (latestVersion db.committedVersions d).toNat, (db.library.documents d)[k]? =
        (db.versionRow d (k + 1)).bind fun row => (readVersion row).toOption := by
  have hfull := filterMap_range (n := (latestVersion db.committedVersions d).toNat)
    (f := fun k : ℕ => (db.versionRow d (k + 1)).bind fun row => (readVersion row).toOption) (by
      intro k hk
      obtain ⟨row, e, hrow, he⟩ := h.versionRow_isSome (d := d) (v := k + 1) (by omega) (by omega)
      simp [hrow, he, Except.toOption])
  constructor
  · rw [library_documents, hfull.1]
    exact Int.toNat_of_nonneg (latestVersion_nonneg _ _)
  · exact hfull.2

theorem nextVersion_library (h : db.Consistent) (d : Uuid) :
    db.library.nextVersion d = latestVersion db.committedVersions d + 1 := by
  rw [Library.nextVersion, (h.documents_get d).1]

/-- A version is found in the library exactly when its row is committed. -/
theorem library_find (h : db.Consistent) (d : Uuid) (v : ℤ) :
    db.library.find d v = (db.versionRow d v).bind fun row => (readVersion row).toOption := by
  rw [Library.find]
  have hrange : ∀ row, db.versionRow d v = some row →
      1 ≤ v ∧ v ≤ latestVersion db.committedVersions d := by
    intro row hrow
    obtain ⟨hm, hkey⟩ := h.versionRow_eq_some.mp hrow
    have hle := le_latestVersion hm
    have hone := VersionRow.one_le_version (h.checked hm)
    obtain ⟨rfl, rfl⟩ := Prod.mk.inj hkey
    exact ⟨hone, hle⟩
  by_cases hv : 1 ≤ v
  · rw [if_pos hv]
    by_cases hle : v ≤ latestVersion db.committedVersions d
    · rw [(h.documents_get d).2 _ (by omega)]
      have : ((v - 1).toNat : ℤ) + 1 = v := by omega
      rw [this]
    · rw [List.getElem?_eq_none (by have := (h.documents_get d).1; omega)]
      cases hrow : db.versionRow d v with
      | none => rfl
      | some row => exact absurd (hrange row hrow).2 hle
  · rw [if_neg hv]
    cases hrow : db.versionRow d v with
    | none => rfl
    | some row => exact absurd (hrange row hrow).1 hv

theorem toOption_elim {e : Except DocumentError DocumentVersion} (h : ∃ a, e = .ok a) :
    e.toOption.elim (.error .notFound) .ok = e := by
  obtain ⟨a, rfl⟩ := h
  rfl

theorem readVersion_ok (h : db.Consistent) {row : VersionRow} (hrow : row ∈ db.committedVersions) :
    ∃ e, readVersion row = .ok e := by
  obtain ⟨e, he, -⟩ := readVersion_of_length (VersionRow.digest_length (h.checked hrow))
  exact ⟨e, he⟩

theorem library_get_some (h : db.Consistent) (d : Uuid) (v : ℤ) :
    db.library.get d (some v) = (db.versionRow d v).elim (.error .notFound) readVersion := by
  rw [Library.get, h.library_find]
  cases hrow : db.versionRow d v with
  | none => rfl
  | some row => exact toOption_elim (h.readVersion_ok (h.versionRow_eq_some.mp hrow).1)

theorem latestRow_eq (h : db.Consistent) (d : Uuid) :
    latestRow db.committedVersions d = db.versionRow d (latestVersion db.committedVersions d) := by
  cases hrow : latestRow db.committedVersions d with
  | none =>
    cases hv : db.versionRow d (latestVersion db.committedVersions d) with
    | none => rfl
    | some row =>
      obtain ⟨hm, hkey⟩ := h.versionRow_eq_some.mp hv
      exact absurd (congrArg Prod.fst hkey) (latestRow_eq_none hrow row hm)
  | some row =>
    obtain ⟨hm, rfl, hmax⟩ := latestRow_eq_some hrow
    have hone := VersionRow.one_le_version (h.checked hm)
    have hv : row.version = latestVersion db.committedVersions row.documentId :=
      Int.le_antisymm (le_latestVersion hm) (latestVersion_le (by omega) hmax)
    rw [← hv]
    exact (h.versionRow_eq_some.mpr ⟨hm, rfl⟩).symm

theorem library_get_none (h : db.Consistent) (d : Uuid) :
    db.library.get d none =
      (latestRow db.committedVersions d).elim (.error .notFound) readVersion := by
  have hlen := (h.documents_get d).1
  have hlast : (db.library.documents d).getLast? =
      (latestRow db.committedVersions d).bind fun row => (readVersion row).toOption := by
    rw [List.getLast?_eq_getElem?, h.latestRow_eq]
    by_cases hpos : 0 < latestVersion db.committedVersions d
    · rw [(h.documents_get d).2 _ (by omega)]
      congr 2
      omega
    · have hnil : db.library.documents d = [] := by
        rw [← List.length_eq_zero_iff]
        have := latestVersion_nonneg db.committedVersions d
        omega
      rw [hnil]
      cases hrow : db.versionRow d (latestVersion db.committedVersions d) with
      | none => rfl
      | some row =>
        obtain ⟨hm, hkey⟩ := h.versionRow_eq_some.mp hrow
        have hone := VersionRow.one_le_version (h.checked hm)
        have := congrArg Prod.snd hkey
        simp only [VersionRow.key] at this
        omega
  rw [Library.get, hlast]
  cases hrow : latestRow db.committedVersions d with
  | none => rfl
  | some row => exact toOption_elim (h.readVersion_ok (latestRow_eq_some hrow).1)

/-- The version in progress is always the next one of its document. -/
theorem version_next (h : db.Consistent) (hi : (db.status c).inProgress) {v : VersionRow}
    (hv : v ∈ (db.footprint c).versions) :
    v.version = latestVersion db.committedVersions v.documentId + 1 := by
  cases hdocs : (db.footprint c).documents with
  | nil => exact (h.next c hi v hv hdocs).2
  | cons d l =>
    have hd : d ∈ (db.footprint c).documents := by simp [hdocs]
    obtain ⟨hid, hone⟩ := Prod.mk.inj ((h.wellFormed c).created d hd v hv)
    have hzero : latestVersion db.committedVersions v.documentId = 0 := by
      by_contra hne
      have hnonneg := latestVersion_nonneg db.committedVersions v.documentId
      obtain ⟨row, hrow, hrd, -⟩ := exists_row_of_latestVersion_pos
        db.committedVersions v.documentId (by omega)
      have hp := h.parent row hrow
      rw [hrd, hid] at hp
      exact h.not_hasDocument hi hd hp
    omega

theorem versionRow_commit (h : db.Consistent) (hi : (db.status c).inProgress)
    (hops : (db.footprint c).operations ≠ []) {d : Uuid} {k : ℤ}
    (hne : ∀ v ∈ (db.footprint c).versions, v.key ≠ (d, k)) :
    (db.setStatus c .committed).versionRow d k = db.versionRow d k := by
  apply Option.ext
  intro row
  rw [(h.commit hi hops).versionRow_eq_some, h.versionRow_eq_some, mem_committedVersions_commit]
  constructor
  · rintro ⟨hm | hm, hkey⟩
    · exact ⟨hm, hkey⟩
    · exact absurd hkey (hne row hm)
  · rintro ⟨hm, hkey⟩
    exact ⟨.inl hm, hkey⟩

theorem latestVersion_commit (h : db.Consistent) (hi : (db.status c).inProgress) {v : VersionRow}
    (hv : (db.footprint c).versions = [v]) (d : Uuid) :
    latestVersion (db.setStatus c .committed).committedVersions d =
      if d = v.documentId then v.version else latestVersion db.committedVersions d := by
  have hnext := h.version_next hi (v := v) (by simp [hv])
  have hmem : ∀ row, row ∈ (db.setStatus c .committed).committedVersions ↔
      row ∈ db.committedVersions ∨ row = v := by
    intro row
    rw [mem_committedVersions_commit, hv, List.mem_singleton]
  split
  · rename_i hd
    subst hd
    have hnonneg := latestVersion_nonneg db.committedVersions v.documentId
    apply Int.le_antisymm
    · apply latestVersion_le (by omega)
      intro row hrow hrd
      rcases (hmem row).mp hrow with hold | rfl
      · have := le_latestVersion hold
        rw [hrd] at this
        omega
      · exact Int.le_refl _
    · exact le_latestVersion ((hmem v).mpr (.inr rfl))
  · rename_i hd
    apply latestVersion_congr
    intro row hrd
    rw [hmem]
    constructor
    · rintro (hold | rfl)
      · exact hold
      · exact absurd hrd.symm hd
    · exact .inl

/-- A commit with version row `v` extends its document by that version. -/
theorem documents_commit (h : db.Consistent) (hi : (db.status c).inProgress) {v : VersionRow}
    (hv : (db.footprint c).versions = [v]) (hops : (db.footprint c).operations ≠ [])
    {e : DocumentVersion} (he : readVersion v = .ok e) :
    (db.setStatus c .committed).library.documents = Function.update db.library.documents
      v.documentId (db.library.documents v.documentId ++ [e]) := by
  have h' := h.commit hi hops
  have hnext := h.version_next hi (v := v) (by simp [hv])
  have hbelow : ∀ d, ∀ k : ℕ, k < (latestVersion db.committedVersions d).toNat →
      (db.setStatus c .committed).versionRow d (k + 1) = db.versionRow d (k + 1) := by
    intro d k hk
    apply h.versionRow_commit hi hops
    intro x hx hxk
    obtain rfl : x = v := by simpa [hv] using hx
    obtain ⟨rfl, hk'⟩ := Prod.mk.inj hxk
    omega
  funext d
  rw [library_documents, h.latestVersion_commit hi hv]
  by_cases hd : d = v.documentId
  · subst hd
    have hnonneg := latestVersion_nonneg db.committedVersions v.documentId
    have hn : v.version.toNat = (latestVersion db.committedVersions v.documentId).toNat + 1 := by
      omega
    have hlast : (db.setStatus c .committed).versionRow v.documentId
        ((latestVersion db.committedVersions v.documentId).toNat + 1) = some v := by
      rw [h'.versionRow_eq_some, mem_committedVersions_commit, hv]
      refine ⟨.inr List.mem_cons_self, ?_⟩
      rw [VersionRow.key, Int.toNat_of_nonneg hnonneg, ← hnext]
    rw [if_pos rfl, hn, List.range_succ, List.filterMap_append, Function.update_self,
      library_documents]
    congr 1
    · apply List.filterMap_congr
      intro k hk
      rw [hbelow _ k (List.mem_range.mp hk)]
    · apply List.filterMap_cons_some
      rw [hlast, Option.bind_some, he, Except.toOption]
  · rw [if_neg hd, Function.update_of_ne hd, library_documents]
    apply List.filterMap_congr
    intro k hk
    rw [hbelow d k (List.mem_range.mp hk)]

/-- A commit with put operation `o` records its request. -/
theorem recorded_commit (h : db.Consistent) (hi : (db.status c).inProgress) {o : PutOperationRow}
    (ho : (db.footprint c).operations = [o]) :
    (db.setStatus c .committed).library.recorded =
      Function.update db.library.recorded o.requestId (some o.key) := by
  have h' := h.commit hi (by simp [ho])
  funext r
  by_cases hr : r = o.requestId
  · subst hr
    have hfind : (db.setStatus c .committed).committedOperations.find?
        (fun x => x.requestId = o.requestId) = some o := by
      rw [committedOperations, h'.operationKey.find?_eq_some]
      exact ⟨mem_committedOperations_commit.mpr (.inr (by simp [ho])), rfl⟩
    rw [library_recorded, hfind, Function.update_self]
    rfl
  · rw [Function.update_of_ne hr, library_recorded, library_recorded]
    congr 1
    apply Option.ext
    intro x
    rw [committedOperations, h'.operationKey.find?_eq_some, committedOperations,
      h.operationKey.find?_eq_some]
    constructor
    · rintro ⟨hm, hx⟩
      rcases mem_committedOperations_commit.mp hm with hold | hnew
      · exact ⟨hold, hx⟩
      · obtain rfl : x = o := by simpa [ho] using hnew
        exact absurd hx.symm hr
    · rintro ⟨hm, hx⟩
      exact ⟨mem_committedOperations_commit.mpr (.inl hm), hx⟩

/-- A commit with version row `v` and put operation `o` appends one version to the library. -/
theorem library_commit (h : db.Consistent) (hi : (db.status c).inProgress) {v : VersionRow}
    {o : PutOperationRow} (hv : (db.footprint c).versions = [v])
    (ho : (db.footprint c).operations = [o]) {e : DocumentVersion} (he : readVersion v = .ok e) :
    (db.setStatus c .committed).library = db.library.append o.requestId e := by
  have hops : (db.footprint c).operations ≠ [] := by simp [ho]
  rcases readVersion_of_length (VersionRow.digest_length
    ((h.wellFormed c).checked v (by simp [hv]))) with ⟨e', he', hid, hver⟩
  obtain rfl : e' = e := by simpa [he'] using he
  have hkey : o.key = (e'.documentId, e'.version) := by
    rcases (h.wellFormed c).recorded o (by simp [ho]) with ⟨x, hx, hxk⟩
    obtain rfl : x = v := by simpa [hv] using hx
    rw [← hxk, hid, hver, VersionRow.key]
  have hdocuments := h.documents_commit hi hv hops he
  have hrecorded := h.recorded_commit hi ho
  rw [Library.append, hid, ← hdocuments, ← hid, ← hkey, ← hrecorded]

theorem not_recorded (h : db.Consistent) (hi : (db.status c).inProgress) {o : PutOperationRow}
    (ho : o ∈ (db.footprint c).operations) : db.library.recorded o.requestId = none := by
  rw [library_recorded, Option.map_eq_none_iff, List.find?_eq_none]
  intro x hx hxr
  rcases mem_committedOperations.mp hx with ⟨w, hw, hm⟩
  have heq := h.operationKey.eq_of_mem (mem_operations.mp hm) (mem_operations.mp ho) (by simp [hw])
    (TxStatus.alive_of_inProgress hi) (by simpa using hxr)
  cases heq
  exact TxStatus.ne_committed_of_inProgress hi hw

/-- A committed document has a first version. -/
theorem latestVersion_pos (h : db.Consistent) {d : Uuid} (hd : db.HasDocument d) :
    1 ≤ latestVersion db.committedVersions d := by
  rcases hd with ⟨row, hrow, rfl⟩
  rcases mem_committedDocuments.mp hrow with ⟨w, hw, hm⟩
  have hwf := h.wellFormed w
  cases hops : (db.footprint w).operations with
  | nil => exact absurd hops (hwf.complete (.inr hw))
  | cons o l =>
    rcases hwf.recorded o (by simp [hops]) with ⟨v, hv, -⟩
    rcases Prod.mk.inj (hwf.created row hm v hv) with ⟨hid, hone⟩
    have hle := le_latestVersion (mem_committedVersions.mpr ⟨w, hw, hv⟩)
    rw [hid, hone] at hle
    exact hle

theorem documents_eq_nil_iff (h : db.Consistent) (d : Uuid) :
    db.library.documents d = [] ↔ ¬ db.HasDocument d := by
  have hlen := (h.documents_get d).1
  rw [← List.length_eq_zero_iff]
  constructor
  · intro hzero hd
    have := h.latestVersion_pos hd
    omega
  · intro hd
    by_contra hne
    rcases exists_row_of_latestVersion_pos db.committedVersions d (by omega) with
      ⟨row, hrow, rfl, -⟩
    exact hd (h.parent row hrow)

/-- Committing a put is one step of the abstract store. -/
theorem put_commit [Sha256] (h : db.Consistent) (hi : (db.status c).inProgress) {r : Uuid}
    {document : PutDocument} (hw : (db.footprint c).WrittenBy r document) {v : VersionRow}
    {o : PutOperationRow} (hv : (db.footprint c).versions = [v])
    (ho : (db.footprint c).operations = [o]) :
    db.library.Put r document (.ok ⟨v.documentId, v.version, false⟩)
      (db.setStatus c .committed).library := by
  have hvm : v ∈ (db.footprint c).versions := by simp [hv]
  have hne : (db.footprint c).versions ≠ [] := by simp [hv]
  have hom : o ∈ (db.footprint c).operations := by simp [ho]
  obtain rfl : o.requestId = r := hw.request o hom
  have hnext := h.version_next hi hvm
  rw [h.library_commit hi hv ho (hw.version v hvm)]
  have hrec := h.not_recorded hi hom
  cases hdocs : (db.footprint c).documents with
  | nil =>
    have hlocked := h.locked c _ (h.next c hi v hvm hdocs).1
    rw [hnext, ← h.nextVersion_library]
    apply Library.Put.appended (hw.content hne) (hw.contentType hne) hrec (hw.appended v hvm hdocs)
    intro hnil
    exact (h.documents_eq_nil_iff _).mp hnil hlocked
  | cons d l =>
    have hd : d ∈ (db.footprint c).documents := by simp [hdocs]
    rcases Prod.mk.inj ((h.wellFormed c).created d hd v hvm) with ⟨hid, hone⟩
    rw [hone]
    apply Library.Put.created (hw.content hne) (hw.contentType hne) hrec
      (hw.created hne (by simp [hdocs]))
    rw [h.documents_eq_nil_iff, hid]
    exact h.not_hasDocument hi hd

end Consistent
end Postgres.Database
end Librarian
