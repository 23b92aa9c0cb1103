import Librarian.Store.Atomicity
import Librarian.Store.Representation

/-! # When versions were created

A version carries the time at which its transaction began, and its number comes later, when
the transaction has locked the document. So of two versions the later one was created no
earlier, unless its transaction was open during the whole transaction of the other.
-/
namespace Librarian.Store
open Foundation Postgres PostgresDocumentRepository Program System

theorem epochSeconds_mono {a b : ℤ} (h : a ≤ b) : epochSeconds a ≤ epochSeconds b := by
  simp only [epochSeconds]
  split <;> split <;> omega

section Ages
variable {db db' : Database} {c : Call}

/-- The clock never goes back, a transaction begins once, and rows of versions are kept. -/
structure Elapses (db db' : Database) : Prop where
  clock : db.clock ≤ db'.clock
  started : ∀ c, db.status c ≠ .idle → db'.status c ≠ .idle ∧ db'.startedAt c = db.startedAt c
  kept : db.documentVersions ⊆ db'.documentVersions

theorem Elapses.refl (db : Database) : Elapses db db :=
  ⟨Int.le_refl _, fun _ h => ⟨h, rfl⟩, List.Subset.refl _⟩

theorem Elapses.trans {db'' : Database} (h : Elapses db db') (h' : Elapses db' db'') :
    Elapses db db'' where
  clock := Int.le_trans h.clock h'.clock
  started c hc := by
    rcases h.started c hc with ⟨hbusy, hsame⟩
    rcases h'.started c hbusy with ⟨hbusy', hsame'⟩
    exact ⟨hbusy', hsame'.trans hsame⟩
  kept := List.Subset.trans h.kept h'.kept

/-- One step: a transaction begins at the current time and stamps its versions with it. -/
structure Ages (db db' : Database) : Prop extends Elapses db db' where
  begins : ∀ c, db.status c = .idle → db'.status c ≠ .idle → db'.startedAt c = db.clock
  stamped : ∀ t ∈ db'.documentVersions, t ∈ db.documentVersions ∨
    db.status t.xmin ≠ .idle ∧ t.row.createdAt = db.startedAt t.xmin

/-- A step that leaves transactions and versions alone. -/
theorem ages_of_same (hclock : db.clock ≤ db'.clock) (hstatus : db'.status = db.status)
    (hstarted : db'.startedAt = db.startedAt) (hversions : db'.documentVersions =
      db.documentVersions) : Ages db db' where
  clock := hclock
  started _ hc := ⟨by rwa [hstatus], by rw [hstarted]⟩
  kept := by
    rw [hversions]
    exact List.Subset.refl _
  begins _ hc hc' := absurd hc (hstatus ▸ hc')
  stamped _ ht := .inl (hversions ▸ ht)

theorem Ages.refl (db : Database) : Ages db db := ages_of_same (Int.le_refl _) rfl rfl rfl

theorem ages_setStatus {st : TxStatus} (h : db.status c ≠ .idle) (hs : st ≠ .idle) :
    Ages db (db.setStatus c st) where
  clock := Int.le_refl _
  started x hx := by
    refine ⟨?_, rfl⟩
    by_cases hxc : x = c
    · simpa [Database.setStatus, hxc] using hs
    · simpa [Database.setStatus, hxc] using hx
  begins x hx hx' := by
    by_cases hxc : x = c
    · exact absurd (hxc ▸ hx) h
    · exact absurd hx (by simpa [Database.setStatus, hxc] using hx')
  kept := List.Subset.refl _
  stamped _ h := .inl h

theorem ages_begin (h : db.status c = .idle) : Ages db (db.begin c) where
  clock := Int.le_refl _
  started x hx := by
    have hxc : x ≠ c := by
      rintro rfl
      exact hx h
    simpa [Database.begin, Database.setStatus, hxc] using hx
  begins x hx hx' := by
    by_cases hxc : x = c
    · simp [Database.begin, hxc]
    · exact absurd hx (by simpa [Database.begin, Database.setStatus, hxc] using hx')
  kept := List.Subset.refl _
  stamped _ h := .inl h

theorem ages_addVersion {d : Uuid} {v : ℤ} {document : PutDocument} {digest : List UInt8}
    (h : db.status c = .active) :
    Ages db (db.addVersion c (db.newVersion c d v document digest)) where
  clock := Int.le_refl _
  started _ hx := ⟨hx, rfl⟩
  begins _ hx hx' := absurd hx hx'
  kept := List.subset_append_left _ _
  stamped t ht := by
    rcases List.mem_append.mp ht with hold | hnew
    · exact .inl hold
    · rw [List.mem_singleton.mp hnew]
      exact .inr ⟨by simp [h], rfl⟩

theorem ages_executes [TextSearch] {stmt : Stmt} {a : stmt.Row} (h : db.Executes c stmt a db') :
    Ages db db' := by
  cases h with
  | transaction hidle => exact ages_begin hidle
  | insertVersion ha => exact ages_addVersion ha
  | rollback hi => exact ages_setStatus (TxStatus.ne_idle_of_inProgress hi) (by decide)
  | commit ha => exact ages_setStatus (by simp [ha]) (by decide)
  | commitFailed hf => exact ages_setStatus (by simp [hf]) (by decide)
  | _ => exact ages_of_same (Int.le_refl _) rfl rfl rfl

theorem ages_fail : Ages db (db.fail c) := by
  unfold Database.fail
  split
  · rename_i ha
    exact ages_setStatus (by simp [ha]) (by decide)
  · exact .refl db

theorem ages_performs [TextSearch] {e : Effect} {fault : Bool} {ans : e.Ans}
    (h : Performs db c e fault ans db') : Ages db db' := by
  cases h with
  | newUuid => exact .refl db
  | row hx => exact ages_executes hx
  | refused => exact ages_fail
  | lost hx => exact ages_executes hx
  | failed => exact ages_fail
  | doubted =>
    unfold sendCommit
    split
    · rename_i ha
      exact ages_setStatus (by simp [ha]) (by decide)
    · exact .refl db

theorem ages_returned (rolledBack : Bool) : Ages db (returned db c rolledBack) := by
  have hrelease : ∀ {x : Database}, Ages db x → Ages db (x.release c) := fun hx =>
    ⟨⟨hx.clock, hx.started, hx.kept⟩, hx.begins, hx.stamped⟩
  rcases returned_cases db c rolledBack with hr | ⟨hi, hr⟩
  · rw [hr]
    exact hrelease (.refl db)
  · rw [hr]
    exact hrelease (ages_setStatus (TxStatus.ne_idle_of_inProgress hi) (by decide))

end Ages

section Runs
variable [Sha256] [TextSearch] {t : List (State × Action)} {s s' : State} {a : Action} {c : Call}
  {i j : ℕ}

theorem Moves.ages (hm : Moves s a s') : Ages s.database s'.database := by
  cases hm with
  | invoke => exact .refl _
  | perform ha hc hp => exact ages_performs hp
  | finish rolledBack hc => exact ages_returned rolledBack
  | crash hc => exact ages_returned false
  | settleCommit hr hs => exact ages_setStatus (by simp [hs]) (by decide)
  | settleAbort hr hi => exact ages_setStatus (TxStatus.ne_idle_of_inProgress hi) (by decide)
  | tick hle => exact ages_of_same hle rfl rfl rfl

/-- Every version carries the time at which the transaction that wrote it began. -/
theorem createdAt_eq (h : system.Trace t s) {row : VersionRow}
    (hrow : row ∈ (s.database.footprint c).versions) :
    s.database.status c ≠ .idle ∧ row.createdAt = s.database.startedAt c := by
  rw [Database.mem_versions] at hrow
  induction h with
  | start hinit =>
    rcases hinit with ⟨clock, rfl⟩
    cases hrow
  | step ht hs ih =>
    have hages := (step_moves hs).ages
    rcases hages.stamped _ hrow with hold | ⟨hbusy, hcreated⟩
    · rcases ih hold with ⟨hbusy, hcreated⟩
      rcases hages.started c hbusy with ⟨hbusy', hstarted⟩
      exact ⟨hbusy', by rw [hstarted, hcreated]⟩
    · rcases hages.started c hbusy with ⟨hbusy', hstarted⟩
      exact ⟨hbusy', by rw [hstarted, hcreated]⟩

theorem elapses_of_le (h : system.Trace t s) (hij : i ≤ j) :
    Elapses (stateAt t s i).database (stateAt t s j).database := by
  apply h.monotone (R := fun x y => Elapses x.database y.database) _ _ _ hij
  · exact fun x => .refl x.database
  · exact fun hxy hyz => hxy.trans hyz
  · exact fun _ _ _ _ hs => (step_moves hs).ages.toElapses

omit [Sha256] [TextSearch] in
/-- The transaction of `c` begins with the `i`-th step. -/
def Begins (t : List (State × Action)) (s : State) (c : Call) (i : ℕ) : Prop :=
  (stateAt t s i).database.status c = .idle ∧ (stateAt t s (i + 1)).database.status c ≠ .idle

omit [Sha256] [TextSearch] in
/-- The transaction of `c` commits with the `i`-th step. -/
def Ends (t : List (State × Action)) (s : State) (c : Call) (i : ℕ) : Prop :=
  (stateAt t s i).database.status c ≠ .committed ∧
    (stateAt t s (i + 1)).database.status c = .committed

/-- The transaction of `c'` had begun when that of `c` began, and had not committed when that
of `c` committed. -/
def Encloses (t : List (State × Action)) (s : State) (c' c : Call) : Prop :=
  ∃ i j k, i < j ∧ j < k ∧ Begins t s c' i ∧ Begins t s c j ∧ Ends t s c k ∧
    (stateAt t s k).database.status c' ≠ .committed

/-- Of two versions of a document the later one was created no earlier, and `get` shows it so,
except where the call that wrote it is `except` the other one. -/
def CreatedInOrder (except : Call → Call → Prop) (s : State) : Prop :=
  ∀ c c' v w, s.database.status c = .committed → s.database.status c' = .committed →
    v ∈ (s.database.footprint c).versions → w ∈ (s.database.footprint c').versions →
    v.documentId = w.documentId → v.version < w.version → ¬ except c' c →
      v.createdAt ≤ w.createdAt ∧ epochSeconds v.createdAt ≤ epochSeconds w.createdAt

theorem exists_begins (h : system.Trace t s) (hc : s.database.status c ≠ .idle) :
    ∃ i < t.length, Begins t s c i ∧
      s.database.startedAt c = (stateAt t s i).database.clock := by
  have hend : (stateAt t s t.length).database.status c ≠ .idle := by rwa [stateAt_length]
  rcases exists_switch_status (P := (· ≠ .idle)) h (by simp) hend with ⟨i, hi, hbefore, hafter⟩
  have hidle : (stateAt t s i).database.status c = .idle := by simpa using hbefore
  rcases exists_action s hi with ⟨a, ha⟩
  have hbegins := (moves_at h ha).ages.begins c hidle hafter
  have hkept := ((elapses_of_le h hi).started c hafter).2
  rw [stateAt_length] at hkept
  exact ⟨i, hi, ⟨hidle, hafter⟩, hkept.trans hbegins⟩

theorem exists_ends (h : system.Trace t s) (hc : s.database.status c = .committed) :
    ∃ k < t.length, Ends t s c k := by
  have hend : (stateAt t s t.length).database.status c = .committed := by rwa [stateAt_length]
  rcases exists_switch_status (P := (· = .committed)) h (by decide) hend with
    ⟨k, hk, hbefore, hafter⟩
  exact ⟨k, hk, hbefore, hafter⟩

/-- The earlier version of a document is committed first. -/
theorem not_committed_of_version_lt (h : system.Trace t s) {c' : Call} {v w : VersionRow} {k : ℕ}
    (hc : s.database.status c = .committed)
    (hv : v ∈ (s.database.footprint c).versions) (hw : w ∈ (s.database.footprint c').versions)
    (hd : v.documentId = w.documentId) (hlt : v.version < w.version) (hk : k ≤ t.length)
    (hbefore : (stateAt t s k).database.status c ≠ .committed) :
    (stateAt t s k).database.status c' ≠ .committed := by
  intro hearly
  rcases exists_grewBy h hk with ⟨calls, hgrew⟩
  rw [stateAt_length] at hgrew
  have hinv := invariant_of_trace h
  have hwk : w ∈ ((stateAt t s k).database.footprint c').versions := by
    have hrows := congrArg (·.2.1) (hgrew.rows c' hearly)
    have hmem : w ∈ (rowsOf s.database c').2.1 := hw
    rw [hrows] at hmem
    exact hmem
  have hcommitted := Database.mem_committedVersions.mpr ⟨c', hearly, hwk⟩
  have hone := VersionRow.one_le_version
    (hinv.consistent.checked (Database.mem_committedVersions.mpr ⟨c, hc, hv⟩))
  rcases (invariant_at h k).consistent.contiguous w hcommitted v.version hone (by omega) with
    ⟨row, hrow, hkey⟩
  -- that row of the same version is the one `c` wrote
  rcases Database.mem_committedVersions.mp hrow with ⟨x, hx, hxrow⟩
  have hlast : row ∈ (s.database.footprint x).versions := by
    have hkept := (elapses_of_le h hk).kept
    rw [stateAt_length] at hkept
    exact Database.mem_versions.mpr (hkept (Database.mem_versions.mp hxrow))
  have hsame : x = c := by
    apply call_eq_of_version hinv.consistent (hgrew.committed x hx) hc hlast hv
    rw [hkey, VersionRow.key, hd]
  exact hbefore (hsame ▸ hx)

/-- In every reachable state the versions of a document were created in their order, apart from
versions whose transaction was open during the whole transaction of an earlier version. -/
theorem createdInOrder_of_trace (h : system.Trace t s) : CreatedInOrder (Encloses t s) s := by
  intro c c' v w hc hc' hv hw hd hlt hnot
  rcases createdAt_eq h hv with ⟨hbusy, hcreated⟩
  rcases createdAt_eq h hw with ⟨hbusy', hcreated'⟩
  rcases exists_begins h hbusy with ⟨j, hj, hbegins, hclock⟩
  rcases exists_begins h hbusy' with ⟨i, hi, hbegins', hclock'⟩
  have hle : v.createdAt ≤ w.createdAt := by
    rw [hcreated, hcreated', hclock, hclock']
    by_contra hlater
    apply hnot
    have hij : i < j := by
      by_contra hji
      exact hlater (elapses_of_le h (by omega)).clock
    rcases exists_ends h hc with ⟨k, hk, hends⟩
    have hjk : j < k := by
      -- a transaction that commits has begun before
      rcases commits_of_switch h hk hends.1 hends.2 with ⟨-, -, hcommits, -⟩
      by_contra hkj
      have hopen := TxStatus.ne_idle_of_inProgress hcommits.inProgress
      exact ((elapses_of_le h (by omega : k ≤ j)).started c hopen).1 hbegins.1
    exact ⟨i, j, k, hij, hjk, hbegins', hbegins, hends,
      not_committed_of_version_lt h hc hv hw hd hlt (by omega) hends.1⟩
  exact ⟨hle, epochSeconds_mono hle⟩

end Runs

section Sample

/-- Two puts of further versions, each by itself. -/
def separateRun : List Action :=
  createRun ⟨0, 0⟩ 1 7 "alpha" ++ appendRun ⟨1, 0⟩ 2 7 "beta" ++ .tick 5000000 ::
    appendRun ⟨2, 0⟩ 3 7 "alpha"

theorem createdInOrder_separateRun :
    CreatedInOrder (Encloses (sampleRecord separateRun)
        ((sampleRun separateRun).get (by decide +kernel)))
      ((sampleRun separateRun).get (by decide +kernel)) :=
  @createdInOrder_of_trace sampleSha256 sampleSearch _ _ (trace_sampleRun _)

/-- The put that begins first locks the document last. -/
def overtakenRun : List Action :=
  createRun ⟨0, 0⟩ 1 7 "alpha" ++
    .invoke ⟨1, 0⟩ (.put 2 (sampleDocument (some 7) "beta")) :: execs ⟨1, 0⟩ 3 ++
    .tick 5000000 :: appendRun ⟨2, 0⟩ 3 7 "alpha" ++ execs ⟨1, 0⟩ 8 ++ [.finish ⟨1, 0⟩ true]

/-- The third version was created five seconds before the second. -/
theorem not_createdInOrder_overtakenRun :
    (@system sampleSha256 sampleSearch).Reachable
        ((sampleRun overtakenRun).get (by decide +kernel)) ∧
      ¬ CreatedInOrder (fun _ _ => False) ((sampleRun overtakenRun).get (by decide +kernel)) := by
  refine ⟨reachable_sampleRun _, fun h => ?_⟩
  have hrows : ∃ v w, v ∈ (((sampleRun overtakenRun).get (by decide +kernel)).database.footprint
      ⟨2, 0⟩).versions ∧ w ∈ (((sampleRun overtakenRun).get (by decide +kernel)).database.footprint
      ⟨1, 0⟩).versions ∧ v.documentId = w.documentId ∧ v.version < w.version ∧
      w.createdAt < v.createdAt := by
    refine ⟨⟨7, 2, "alpha", "text/plain", none, none, (sampleSha256.digest
      "alpha".toUTF8.data.toList).toList, 5000000⟩, ⟨7, 3, "beta", "text/plain", none, none,
      (sampleSha256.digest "beta".toUTF8.data.toList).toList, 0⟩, ?_⟩
    decide +kernel
  rcases hrows with ⟨v, w, hv, hw, hd, hlt, hearlier⟩
  have hordered := h ⟨2, 0⟩ ⟨1, 0⟩ v w (by decide +kernel) (by decide +kernel) hv hw hd hlt id
  omega

end Sample
end Librarian.Store
