import Librarian.Postgres.Statements

/-! # When the engine refuses a statement

A permitted statement of an open transaction fails by itself for three reasons only: the row
cannot be stored, the identifier of a new document is taken, or the version numbers of a
document have run out. A search fails by itself for its arguments.
-/
namespace Librarian

/-- The part of the CHECK constraints that the data of a put decides. -/
def PutDocument.satisfiesChecks (document : PutDocument) : Bool :=
  Postgres.isText document.content && Postgres.isText document.contentType &&
    document.title.all Postgres.isText && document.sourceUri.all Postgres.isText &&
    Postgres.charLengthBetween 1 200 document.contentType &&
    document.title.all (Postgres.charLengthBetween 1 500) &&
    document.sourceUri.all (Postgres.charLengthBetween 1 2000)

/-- The versions of the document can be stored. -/
def PutDocument.isStorable [Postgres.TextSearch] (document : PutDocument) : Bool :=
  document.satisfiesChecks && Postgres.TextSearch.fits (document.title.getD "") document.content

namespace Postgres
open Foundation

/-- The statements that meet a limit of the data: a taken identifier, the largest version. -/
def Stmt.exhausts : Stmt → Bool
  | .insertDocument _ | .nextVersion _ => true
  | _ => false

namespace Database
variable {db : Database} {c : Call}

/-- The conditions under which a statement of `c` fails by itself. -/
def Refuses [TextSearch] (db : Database) (c : Call) : Stmt → Prop
  | .transaction => db.status c ≠ .idle
  | .insertDocument d => db.status c ≠ .active ∨ db.sees c (.document d) = true
  | .lockDocument _ => db.status c ≠ .active
  | .nextVersion d =>
    db.status c ≠ .active ∨ i64Max < latestVersion (db.versionsSeen c) d + 1
  | .insertVersion d v document digest =>
    db.status c ≠ .active ∨ (db.newVersion c d v document digest).isStorable = false ∨
      db.sees c (.version d v) = true
  | .keyShare target => db.status c ≠ .active ∨ db.sees c target = false
  | .insertPutOperation _ _ _ => db.status c ≠ .active
  | .rollback => (db.status c).inProgress = false
  | .commit => db.status c ≠ .active
  | .search query limit => limit < 0 ∨ isQuery query = false
  | _ => False

theorem inTransaction_eq_error {s : Stmt} {o : Outcome s.Row}
    (h : db.inTransaction c s o = .error) : db.status c ≠ .active ∨ o = .error := by
  unfold inTransaction at h
  split at h
  · rename_i ha
    exact .inl ha
  · split at h
    · cases h
    · exact .inr h

theorem exec_refuses [TextSearch] {plan : Plan} {s : Stmt} (hx : db.exec c plan s = .error) :
    db.Refuses c s := by
  cases s with
  | connection =>
    simp only [exec] at hx
    split at hx <;> cases hx
  | findPutOperation r => cases hx
  | transaction =>
    simp only [exec] at hx
    split at hx
    · cases hx
    · rename_i hidle
      exact hidle
  | insertDocument d =>
    rcases inTransaction_eq_error hx with ha | ho
    · exact .inl ha
    · split at ho
      · rename_i hs
        exact .inr hs
      · cases ho
  | lockDocument d =>
    rcases inTransaction_eq_error hx with ha | ho
    · exact ha
    · split at ho <;> cases ho
  | nextVersion d =>
    rcases inTransaction_eq_error hx with ha | ho
    · exact .inl ha
    · split at ho
      · cases ho
      · rename_i hmax
        exact .inr (by omega)
  | insertVersion d v document digest =>
    rcases inTransaction_eq_error hx with ha | ho
    · exact .inl ha
    · split at ho
      · rename_i hs
        exact .inr hs
      · cases ho
  | keyShare target =>
    rcases inTransaction_eq_error hx with ha | ho
    · exact .inl ha
    · split at ho
      · cases ho
      · rename_i hs
        exact .inr (by simpa using hs)
  | insertPutOperation r d v =>
    rcases inTransaction_eq_error hx with ha | ho
    · exact ha
    · split at ho <;> cases ho
  | rollback =>
    simp only [exec] at hx
    split at hx
    · cases hx
    · rename_i hi
      change (db.status c).inProgress = false
      simpa [inProgress] using hi
  | commit =>
    simp only [exec] at hx
    split at hx
    · cases hx
    · rename_i ha
      exact ha
  | findVersion d v => cases hx
  | findLatestVersion d => cases hx
  | search query limit =>
    simp only [exec] at hx
    split at hx
    · rename_i hl
      exact hl
    · cases hx

/-- The columns the caller does not choose always pass their checks. -/
theorem newVersion_satisfiesChecks {d : Uuid} {v : ℤ} {document : PutDocument}
    {digest : List UInt8} (hv : 1 ≤ v) (hd : digest.length = 32) :
    (db.newVersion c d v document digest).satisfiesChecks = document.satisfiesChecks := by
  simp [VersionRow.satisfiesChecks, PutDocument.satisfiesChecks, newVersion, hv, hd]

theorem newVersion_isStorable [TextSearch] {d : Uuid} {v : ℤ} {document : PutDocument}
    {digest : List UInt8} (hv : 1 ≤ v) (hd : digest.length = 32) :
    (db.newVersion c d v document digest).isStorable = document.isStorable := by
  rw [VersionRow.isStorable, PutDocument.isStorable, newVersion_satisfiesChecks hv hd]
  rfl

theorem isStorable_of_newVersion [TextSearch] {d : Uuid} {v : ℤ} {document : PutDocument}
    {digest : List UInt8} (h : (db.newVersion c d v document digest).isStorable = true) :
    document.isStorable = true := by
  have hchecks := VersionRow.checks_of_isStorable h
  have hone : 1 ≤ v := VersionRow.one_le_version hchecks
  have hlength : digest.length = 32 := VersionRow.digest_length hchecks
  rwa [newVersion_isStorable hone hlength] at h

theorem sees_version {d : Uuid} {v : ℤ} :
    db.sees c (.version d v) = true ↔ (∃ row ∈ db.committedVersions, row.key = (d, v)) ∨
      ((db.status c).inProgress ∧ ∃ row ∈ (db.footprint c).versions, row.key = (d, v)) := by
  rw [sees, Heap.present_eq_true]
  constructor
  · rintro ⟨t, ht, hv, hk⟩
    rw [Heap.visible, Bool.or_eq_true, decide_eq_true_eq, Bool.and_eq_true, decide_eq_true_eq] at hv
    rcases hv with hc | ⟨rfl, hi⟩
    · exact .inl ⟨t.row, Heap.mem_committedRows.mpr ⟨t, ht, hc, rfl⟩, hk⟩
    · exact .inr ⟨hi, t.row, mem_versions.mpr ht, hk⟩
  · rintro (⟨row, hrow, hk⟩ | ⟨hi, row, hrow, hk⟩)
    · rcases Heap.mem_committedRows.mp hrow with ⟨t, ht, hc, rfl⟩
      exact ⟨t, ht, by simp [Heap.visible, hc], hk⟩
    · exact ⟨_, mem_versions.mp hrow, by simp [Heap.visible, hi], hk⟩

namespace Consistent

/-- A call sees the document it holds. -/
theorem sees_of_holds (h : db.Consistent) (hi : (db.status c).inProgress) {d : Uuid}
    (hd : db.Holds c d) : db.sees c (.document d) = true := by
  rw [sees_document]
  rcases hd with ⟨row, hrow, hid⟩ | hl
  · exact .inr ⟨hi, row, hrow, hid⟩
  · exact .inl (h.locked c d hl)

/-- The row a put is about to write is not there yet. -/
theorem not_sees_next (h : db.Consistent) (hi : (db.status c).inProgress) {d : Uuid} {v : ℤ}
    (hnone : (db.footprint c).versions = [])
    (htarget : (∃ t, (db.footprint c).documents = [⟨d, t⟩] ∧ v = 1) ∨
      v = latestVersion db.committedVersions d + 1) : db.sees c (.version d v) = false := by
  rw [← Bool.not_eq_true, sees_version, hnone]
  rintro (⟨row, hrow, hk⟩ | ⟨-, row, hrow, -⟩)
  · rcases Prod.mk.inj hk with ⟨rfl, rfl⟩
    rcases htarget with ⟨t, hdocs, -⟩ | hnext
    · have hown : ⟨row.documentId, t⟩ ∈ (db.footprint c).documents := by simp [hdocs]
      exact h.not_hasDocument hi hown (h.parent row hrow)
    · have := le_latestVersion hrow
      omega
  · simp at hrow

end Consistent
end Database
end Postgres
end Librarian
