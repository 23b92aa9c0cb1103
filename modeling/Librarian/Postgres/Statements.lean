import Librarian.Postgres.Consistency

/-! # What each statement does under the invariant

`Permits` is the order of statements a put keeps: rows are written once, a version only for
a document the call holds, a put operation only beside its version. A permitted statement
keeps the invariant and stays within what every other call relies on.
-/
namespace Librarian.Postgres
open Foundation

namespace Database
variable {db db' : Database} {c c' : Call}

theorem inTransaction_eq_row {s : Stmt} {o : Outcome s.Row} {a : s.Row} :
    db.inTransaction c s o = .row a db' ↔
      db.status c = .active ∧ db.blockers c s = [] ∧ o = .row a db' := by
  unfold inTransaction
  split
  · simp_all
  · split <;> simp_all

theorem sees_document {d : Uuid} :
    db.sees c (.document d) = true ↔ db.HasDocument d ∨
      ((db.status c).inProgress ∧ ∃ row ∈ (db.footprint c).documents, row.documentId = d) := by
  rw [sees, Heap.present_eq_true, HasDocument]
  constructor
  · rintro ⟨t, ht, hv, hid⟩
    rw [Heap.visible, Bool.or_eq_true, decide_eq_true_eq, Bool.and_eq_true, decide_eq_true_eq] at hv
    rcases hv with hc | ⟨rfl, hi⟩
    · exact .inl ⟨t.row, Heap.mem_committedRows.mpr ⟨t, ht, hc, rfl⟩, hid⟩
    · exact .inr ⟨hi, t.row, mem_documents.mpr ht, hid⟩
  · rintro (⟨row, hrow, hid⟩ | ⟨hi, row, hrow, hid⟩)
    · obtain ⟨t, ht, hc, rfl⟩ := Heap.mem_committedRows.mp hrow
      exact ⟨t, ht, by simp [Heap.visible, hc], hid⟩
    · exact ⟨_, mem_documents.mp hrow, by simp [Heap.visible, hi], hid⟩

theorem mem_locks {target : RowId} {mode : LockMode} :
    (target, mode) ∈ (db.footprint c).locks ↔ ⟨c, target, mode⟩ ∈ db.locks := by
  simp only [footprint, List.mem_map, List.mem_filter, decide_eq_true_eq, Prod.mk.injEq]
  constructor
  · rintro ⟨⟨x, y, z⟩, ⟨hl, rfl⟩, rfl, rfl⟩
    exact hl
  · intro hl
    exact ⟨_, ⟨hl, rfl⟩, rfl, rfl⟩

theorem lockers_eq_nil {target : RowId} {mode : LockMode} :
    db.lockers c target mode = [] ↔ ∀ c' m, c' ≠ c → (db.status c').inProgress →
      (target, m) ∈ (db.footprint c').locks → mode.conflicts m = false := by
  simp only [lockers, List.map_eq_nil_iff, List.filter_eq_nil_iff, mem_locks, inProgress]
  constructor
  · intro h c' m hne hi hl
    simpa [hne, hi] using h _ hl
  · intro h l hl
    by_cases ht : l.target = target
    · subst ht
      by_cases hne : l.owner = c
      · simp [hne]
      · by_cases hi : (db.status l.owner).inProgress
        · simpa [hne, hi] using h l.owner l.mode hne hi hl
        · simp [hi]
    · simp [ht]

/-- The statements a put makes with the footprint it has at the time. -/
def Permits (db : Database) (c : Call) : Stmt → Prop
  | .connection => db.footprint c = .empty
  | .transaction => db.footprint c = .connected
  | .insertDocument _ | .lockDocument _ => db.footprint c = .begun
  | .insertVersion d v _ _ =>
    (db.footprint c).versions = [] ∧ (db.footprint c).operations = [] ∧
      ((∃ t, (db.footprint c).documents = [⟨d, t⟩] ∧ v = 1) ∨
        ((db.footprint c).documents = [] ∧ db.Locks c d ∧
          v = latestVersion db.committedVersions d + 1))
  | .keyShare target =>
    ∃ v ∈ (db.footprint c).versions,
      target = .document v.documentId ∨ target = .version v.documentId v.version
  | .insertPutOperation _ d v =>
    (db.footprint c).operations = [] ∧ ∃ row ∈ (db.footprint c).versions, row.key = (d, v)
  | .commit => (db.footprint c).operations ≠ []
  | _ => True

namespace Consistent

theorem addLock (h : db.Consistent) (ha : db.status c = .active) {target : RowId} {mode : LockMode}
    (hu : mode = .forUpdate → ∃ d, target = .document d ∧ db.HasDocument d ∧
      db.lockers c target .forUpdate = []) : (db.addLock c target mode).Consistent := by
  have hi : (db.status c).inProgress := by simp [ha, TxStatus.inProgress]
  have hw := h.wellFormed c
  have hold : ∀ d, (db.addLock c target mode).Locks c d →
      (mode = .forUpdate ∧ target = .document d) ∨ db.Locks c d := by
    intro d hl
    simp only [Locks, footprint_addLock, List.mem_cons, Prod.mk.injEq] at hl
    rcases hl with ⟨rfl, rfl⟩ | hl
    · exact .inl ⟨rfl, rfl⟩
    · exact .inr hl
  apply h.quiet (quiet_addLock target mode) h.documentKey h.versionKey h.operationKey
  · rw [footprint_addLock]
    exact { hw with
      target := by
        intro t ht
        rcases List.mem_cons.mp ht with he | ht
        · obtain ⟨rfl, rfl⟩ := Prod.mk.inj he
          obtain ⟨d, hd, -⟩ := hu rfl
          exact ⟨d, hd⟩
        · exact hw.target t ht }
  · intro d hl
    rcases hold d hl with ⟨rfl, rfl⟩ | hl
    · obtain ⟨d', hd, hrow, -⟩ := hu rfl
      cases hd
      exact hrow
    · exact h.locked c d hl
  · intro _ d hl c' hne hi' hl'
    rcases hold d hl with ⟨rfl, rfl⟩ | hl
    · obtain ⟨_, -, -, hfree⟩ := hu rfl
      simpa [LockMode.conflicts] using lockers_eq_nil.mp hfree c' _ hne hi' hl'
    · exact hne (h.exclusive c' c d hi' hi hl' hl)
  · intro _ v hv hd
    simp only [Locks, footprint_addLock] at hv hd ⊢
    have hn := h.next c hi v hv hd
    exact ⟨List.mem_cons_of_mem _ hn.1, hn.2⟩

theorem addDocument (h : db.Consistent) (hf : db.footprint c = .begun) {row : DocumentRow}
    (hw : Heap.inserters db.status (·.documentId) row.documentId c db.documents = [])
    (hp : Heap.present db.status (·.documentId) row.documentId c db.documents = false) :
    (db.addDocument c row).Consistent := by
  have ha : db.status c = .active := congrArg Footprint.status hf
  have hown : (db.addDocument c row).footprint c = ⟨.active, 1, [row], [], [], []⟩ := by
    rw [footprint_addDocument, hf]
    rfl
  apply h.quiet (quiet_addDocument row (by simp [ha])) (h.documentKey.insert hw hp) h.versionKey
    h.operationKey
  · rw [hown]
    constructor <;> simp
  · simp [Locks, hown]
  · simp [Locks, hown]
  · simp [hown]

theorem addVersion (h : db.Consistent) (ha : db.status c = .active) {row : VersionRow}
    (hnew : (db.footprint c).versions = []) (hops : (db.footprint c).operations = [])
    (htarget : (∃ t, (db.footprint c).documents = [⟨row.documentId, t⟩] ∧ row.version = 1) ∨
      ((db.footprint c).documents = [] ∧ db.Locks c row.documentId ∧
        row.version = latestVersion db.committedVersions row.documentId + 1))
    (hchecks : row.satisfiesChecks = true)
    (hw : Heap.inserters db.status VersionRow.key row.key c db.documentVersions = [])
    (hp : Heap.present db.status VersionRow.key row.key c db.documentVersions = false) :
    (db.addVersion c row).Consistent := by
  have hi : (db.status c).inProgress := by simp [ha, TxStatus.inProgress]
  have hwf := h.wellFormed c
  have hown : (db.addVersion c row).footprint c = { db.footprint c with versions := [row] } := by
    rw [footprint_addVersion, hnew]
    rfl
  apply h.quiet (quiet_addVersion row (by simp [ha])) h.documentKey (h.versionKey.insert hw hp)
    h.operationKey
  · rw [hown]
    exact { hwf with
      version := by simp
      created := by
        intro d hd v hv
        obtain rfl := List.mem_singleton.mp hv
        rcases htarget with ⟨t, hdocs, hone⟩ | ⟨hdocs, -⟩
        · simp only [hdocs, List.mem_singleton] at hd
          simp [hd, VersionRow.key, hone]
        · simp [hdocs] at hd
      recorded := by simp [hops]
      checked := by simpa using hchecks }
  · intro d hl
    simp only [Locks, hown] at hl
    exact h.locked c d hl
  · intro _ d hl c' hne hi' hl'
    simp only [Locks, hown] at hl
    exact hne (h.exclusive c' c d hi' hi hl' hl)
  · intro _ v hv hd
    simp only [Locks, hown, List.mem_singleton] at hv hd ⊢
    subst hv
    rcases htarget with ⟨t, hdocs, -⟩ | ⟨-, hl, hnext⟩
    · simp [hdocs] at hd
    · exact ⟨hl, hnext⟩

theorem addPutOperation (h : db.Consistent) (ha : db.status c = .active) {row : PutOperationRow}
    (hnew : (db.footprint c).operations = [])
    (hver : ∃ v ∈ (db.footprint c).versions, v.key = row.key)
    (hw : Heap.inserters db.status (·.requestId) row.requestId c db.putOperations = [])
    (hp : Heap.present db.status (·.requestId) row.requestId c db.putOperations = false) :
    (db.addPutOperation c row).Consistent := by
  have hi : (db.status c).inProgress := by simp [ha, TxStatus.inProgress]
  have hwf := h.wellFormed c
  have hown : (db.addPutOperation c row).footprint c =
      { db.footprint c with operations := [row] } := by
    rw [footprint_addPutOperation, hnew]
    rfl
  apply h.quiet (quiet_addPutOperation row (by simp [ha])) h.documentKey h.versionKey
    (h.operationKey.insert hw hp)
  · rw [hown]
    exact { hwf with
      operation := by simp
      recorded := by simpa using hver
      complete := by simp }
  · intro d hl
    simp only [Locks, hown] at hl
    exact h.locked c d hl
  · intro _ d hl c' hne hi' hl'
    simp only [Locks, hown] at hl
    exact hne (h.exclusive c' c d hi' hi hl' hl)
  · intro _ v hv hd
    simp only [Locks, hown] at hv hd ⊢
    exact h.next c hi v hv hd

end Consistent

section Commit

theorem mem_committedDocuments_commit {row : DocumentRow} :
    row ∈ (db.setStatus c .committed).committedDocuments ↔
      row ∈ db.committedDocuments ∨ row ∈ (db.footprint c).documents :=
  Heap.mem_committedRows_commit

theorem mem_committedVersions_commit {row : VersionRow} :
    row ∈ (db.setStatus c .committed).committedVersions ↔
      row ∈ db.committedVersions ∨ row ∈ (db.footprint c).versions :=
  Heap.mem_committedRows_commit

theorem mem_committedOperations_commit {row : PutOperationRow} :
    row ∈ (db.setStatus c .committed).committedOperations ↔
      row ∈ db.committedOperations ∨ row ∈ (db.footprint c).operations :=
  Heap.mem_committedRows_commit

theorem grows_commit : db.Grows (db.setStatus c .committed) where
  documents _ h := mem_committedDocuments_commit.mpr (.inl h)
  versions _ h := mem_committedVersions_commit.mpr (.inl h)
  operations _ h := mem_committedOperations_commit.mpr (.inl h)

theorem HasDocument.grows {d : Uuid} (h : db.HasDocument d) (hg : db.Grows db') :
    db'.HasDocument d := by
  obtain ⟨row, hrow, hid⟩ := h
  exact ⟨row, hg.documents hrow, hid⟩

namespace Consistent

/-- A commit publishes no version of a document that another call holds. -/
theorem rely_commit (h : db.Consistent) (hi : (db.status c).inProgress) (hne : c' ≠ c) :
    db.Rely c' (db.setStatus c .committed) where
  footprint := footprint_setStatus_other hne
  grows := grows_commit
  held hi' d hd row hrow hid := by
    rcases mem_committedVersions_commit.mp hrow with hold | hnew
    · exact hold
    · have hc := h.holds_of_version hi hnew
      rw [hid] at hc
      exact absurd (h.holds_unique hi' hi hd hc) hne

theorem commit (h : db.Consistent) (hi : (db.status c).inProgress)
    (hops : (db.footprint c).operations ≠ []) : (db.setStatus c .committed).Consistent := by
  have halive : ∀ x, ((db.setStatus c .committed).status x).alive = true →
      (db.status x).alive = true := by
    intro x hx
    by_cases hxc : x = c
    · rw [hxc]
      exact TxStatus.alive_of_inProgress hi
    · simpa [setStatus, hxc] using hx
  -- a call that is still in progress is another one, and keeps its footprint
  have hother : ∀ x, ((db.setStatus c .committed).status x).inProgress = true →
      x ≠ c ∧ (db.status x).inProgress = true := by
    intro x hx
    by_cases hxc : x = c
    · simp [hxc, setStatus, TxStatus.inProgress] at hx
    · exact ⟨hxc, by simpa [setStatus, hxc] using hx⟩
  have hwf := h.wellFormed c
  constructor
  case documentKey => exact h.documentKey.restatus fun t _ => halive t.xmin
  case versionKey => exact h.versionKey.restatus fun t _ => halive t.xmin
  case operationKey => exact h.operationKey.restatus fun t _ => halive t.xmin
  case wellFormed =>
    intro x
    by_cases hxc : x = c
    · subst hxc
      rw [footprint_setStatus]
      exact { hwf with complete := fun _ => hops }
    · rw [footprint_setStatus_other hxc]
      exact h.wellFormed x
  case locked =>
    intro x d hl
    by_cases hxc : x = c
    · subst hxc
      simp only [Locks, footprint_setStatus] at hl
      exact (h.locked x d hl).grows grows_commit
    · rw [Locks, footprint_setStatus_other hxc] at hl
      exact (h.locked x d hl).grows grows_commit
  case exclusive =>
    intro x y d hx hy hxl hyl
    obtain ⟨hxc, hx⟩ := hother x hx
    obtain ⟨hyc, hy⟩ := hother y hy
    rw [Locks, footprint_setStatus_other hxc] at hxl
    rw [Locks, footprint_setStatus_other hyc] at hyl
    exact h.exclusive x y d hx hy hxl hyl
  case next =>
    intro x hx v hv hd
    obtain ⟨hxc, hx⟩ := hother x hx
    rw [footprint_setStatus_other hxc] at hv hd
    rw [Locks, footprint_setStatus_other hxc,
      (h.rely_commit hi hxc).latestVersion hx (h.holds_of_version hx hv)]
    exact h.next x hx v hv hd
  case contiguous =>
    intro row hrow k hk hle
    rcases mem_committedVersions_commit.mp hrow with hold | hnew
    · obtain ⟨row', hrow', hkey⟩ := h.contiguous row hold k hk hle
      exact ⟨row', grows_commit.versions hrow', hkey⟩
    · cases hdocs : (db.footprint c).documents with
      | nil =>
        obtain ⟨-, hv⟩ := h.next c hi row hnew hdocs
        by_cases hlast : k = row.version
        · exact ⟨row, hrow, by rw [VersionRow.key, hlast]⟩
        · -- the rows below the new one were committed before
          obtain ⟨top, htop, hid, htv⟩ := exists_row_of_latestVersion_pos
            db.committedVersions row.documentId (by omega)
          obtain ⟨row', hrow', hkey⟩ := h.contiguous top htop k hk (by omega)
          exact ⟨row', grows_commit.versions hrow', by rw [hkey, hid]⟩
      | cons d l =>
        have hkey := hwf.created d (by simp [hdocs]) row hnew
        have hone : row.version = 1 := congrArg Prod.snd hkey
        have hlast : k = row.version := by omega
        exact ⟨row, hrow, by rw [VersionRow.key, hlast]⟩
  case parent =>
    intro row hrow
    rcases mem_committedVersions_commit.mp hrow with hold | hnew
    · exact (h.parent row hold).grows grows_commit
    · rcases h.holds_of_version hi hnew with ⟨d, hd, hid⟩ | hl
      · exact ⟨d, mem_committedDocuments_commit.mpr (.inr hd), hid⟩
      · exact (h.locked c _ hl).grows grows_commit

end Consistent
end Commit

/-- What a step of `c` owes to everybody. -/
structure Guarantee (db : Database) (c : Call) (db' : Database) : Prop where
  consistent : db'.Consistent
  rely : ∀ c', c' ≠ c → db.Rely c' db'
  grows : db.Grows db'

theorem Guarantee.status (g : db.Guarantee c db') {c' : Call} (hne : c' ≠ c) :
    db'.status c' = db.status c' := congrArg Footprint.status (g.rely c' hne).footprint

theorem Quiet.guarantee (q : db.Quiet c db') (h : db'.Consistent) : db.Guarantee c db' :=
  ⟨h, fun _ hne => q.rely hne, q.grows⟩

theorem guarantee_restatus (h : db.Consistent) (hi : (db.status c).inProgress) {s : TxStatus}
    (hs : s ≠ .committed)
    (hsent : s = .committing → (db.footprint c).operations ≠ []) :
    db.Guarantee c (db.setStatus c s) :=
  (quiet_setStatus (TxStatus.ne_committed_of_inProgress hi) hs).guarantee
    (h.restatus hi hs hsent)

theorem guarantee_commit (h : db.Consistent) (hi : (db.status c).inProgress)
    (hops : (db.footprint c).operations ≠ []) : db.Guarantee c (db.setStatus c .committed) :=
  ⟨h.commit hi hops, fun _ hne => h.rely_commit hi hne, grows_commit⟩

theorem guarantee_acquire (h : db.Consistent) (hf : db.footprint c = .empty) :
    db.Guarantee c (db.acquire c) := by
  apply quiet_acquire.guarantee
  apply h.pooled quiet_acquire rfl rfl rfl rfl rfl
  rw [footprint_acquire, hf]
  rfl

theorem guarantee_release (h : db.Consistent) : db.Guarantee c (db.release c) := by
  apply quiet_release.guarantee
  apply h.pooled quiet_release rfl rfl rfl rfl rfl
  have := (h.wellFormed c).connection
  rw [footprint_release]
  exact Nat.le_trans (Nat.sub_le _ _) this

theorem rely_tick (now : ℤ) : db.Rely c (db.tick now) :=
  ⟨rfl, (quiet_tick now : db.Quiet c _).grows, fun _ _ _ _ h _ => h⟩

theorem guarantee_tick (h : db.Consistent) (now : ℤ) : db.Guarantee c (db.tick now) :=
  (quiet_tick now).guarantee (h.pooled (quiet_tick now) rfl rfl rfl rfl rfl
    (h.wellFormed c).connection)

theorem guarantee_refl (h : db.Consistent) : db.Guarantee c db :=
  ⟨h, fun _ _ => .refl db _, .refl db⟩

theorem Guarantee.trans (h : db.Guarantee c db') {db'' : Database} (h' : db'.Guarantee c db'') :
    db.Guarantee c db'' :=
  ⟨h'.consistent, fun x hx => (h.rely x hx).trans (h'.rely x hx), h.grows.trans h'.grows⟩

theorem guarantee_fail (h : db.Consistent) : db.Guarantee c (db.fail c) := by
  unfold fail
  split
  · rename_i ha
    exact guarantee_restatus h (by simp [ha, TxStatus.inProgress]) (by simp) (by simp)
  · exact guarantee_refl h

/-- All that a statement of `c` can do when it succeeds. -/
inductive Executes [TextSearch] (db : Database) (c : Call) : (s : Stmt) → s.Row → Database → Prop
  | connection : Executes db c .connection () (db.acquire c)
  | findPutOperation (r : Uuid) : Executes db c (.findPutOperation r)
      (((Heap.visibleRows db.status c db.putOperations).find? fun o => o.requestId = r).map
        (·.key)) db
  | transaction (hidle : db.status c = .idle) : Executes db c .transaction () (db.begin c)
  | insertDocument {d : Uuid} (ha : db.status c = .active)
      (hfree : Heap.inserters db.status (·.documentId) d c db.documents = [])
      (hnew : Heap.present db.status (·.documentId) d c db.documents = false) :
      Executes db c (.insertDocument d) () (db.addDocument c ⟨d, db.startedAt c⟩)
  | lockFound {d : Uuid} (ha : db.status c = .active) (hsees : db.sees c (.document d) = true)
      (hfree : db.lockers c (.document d) .forUpdate = []) :
      Executes db c (.lockDocument d) true (db.addLock c (.document d) .forUpdate)
  | lockMissing {d : Uuid} (hsees : db.sees c (.document d) = false) :
      Executes db c (.lockDocument d) false db
  | nextVersion (d : Uuid) :
      Executes db c (.nextVersion d) (latestVersion (db.versionsSeen c) d + 1) db
  | insertVersion {d : Uuid} {v : ℤ} {document : PutDocument} {digest : List UInt8}
      (ha : db.status c = .active)
      (hstorable : (db.newVersion c d v document digest).isStorable = true)
      (hfree : Heap.inserters db.status VersionRow.key (d, v) c db.documentVersions = [])
      (hnew : Heap.present db.status VersionRow.key (d, v) c db.documentVersions = false) :
      Executes db c (.insertVersion d v document digest) ()
        (db.addVersion c (db.newVersion c d v document digest))
  | keyShare {target : RowId} (ha : db.status c = .active) :
      Executes db c (.keyShare target) () (db.addLock c target .forKeyShare)
  | recorded {r d : Uuid} {v : ℤ}
      (hold : Heap.present db.status (·.requestId) r c db.putOperations = true) :
      Executes db c (.insertPutOperation r d v) (0 : ℕ) db
  | insertPutOperation {r d : Uuid} {v : ℤ} (ha : db.status c = .active)
      (hfree : Heap.inserters db.status (·.requestId) r c db.putOperations = [])
      (hnew : Heap.present db.status (·.requestId) r c db.putOperations = false) :
      Executes db c (.insertPutOperation r d v) (1 : ℕ)
        (db.addPutOperation c ⟨r, d, v, db.startedAt c⟩)
  | rollback (hi : (db.status c).inProgress) :
      Executes db c .rollback () (db.setStatus c .aborted)
  | commit (ha : db.status c = .active) : Executes db c .commit () (db.setStatus c .committed)
  | commitFailed (hf : db.status c = .failed) :
      Executes db c .commit () (db.setStatus c .aborted)
  | findVersion (d : Uuid) (v : ℤ) : Executes db c (.findVersion d v)
      ((db.versionsSeen c).find? fun r => r.key = (d, v)) db
  | findLatestVersion (d : Uuid) :
      Executes db c (.findLatestVersion d) (latestRow (db.versionsSeen c) d) db
  | search {query : String} {limit : ℤ} (plan : Plan) (hl : 0 ≤ limit) (hq : isQuery query = true) :
      Executes db c (.search query limit)
        (searchSql plan (db.versionsSeen c) query limit.toNat) db

theorem exec_executes [TextSearch] {plan : Plan} {s : Stmt} {a : s.Row}
    (hx : db.exec c plan s = .row a db') : db.Executes c s a db' := by
  cases s with
  | connection =>
    simp only [exec] at hx
    split at hx
    · cases hx
    · cases hx
      exact .connection
  | findPutOperation r =>
    cases hx
    exact .findPutOperation r
  | transaction =>
    simp only [exec] at hx
    split at hx
    · rename_i hidle
      cases hx
      exact .transaction hidle
    · cases hx
  | insertDocument d =>
    simp only [exec, inTransaction_eq_row] at hx
    rcases hx with ⟨ha, hb, hx⟩
    split at hx
    · cases hx
    · rename_i hs
      cases hx
      exact .insertDocument ha hb (by simpa [sees] using hs)
  | lockDocument d =>
    simp only [exec, inTransaction_eq_row] at hx
    rcases hx with ⟨ha, hb, hx⟩
    split at hx
    · rename_i hs
      cases hx
      exact .lockFound ha hs (by simpa [blockers, hs] using hb)
    · rename_i hs
      cases hx
      exact .lockMissing (by simpa using hs)
  | nextVersion d =>
    simp only [exec, inTransaction_eq_row] at hx
    rcases hx with ⟨-, -, hx⟩
    split at hx
    · cases hx
      exact .nextVersion d
    · cases hx
  | insertVersion d v document digest =>
    simp only [exec, inTransaction_eq_row] at hx
    rcases hx with ⟨ha, hb, hx⟩
    split at hx
    · cases hx
    · rename_i hs
      cases hx
      simp only [not_or, Bool.not_eq_false, Bool.not_eq_true] at hs
      exact .insertVersion ha hs.1 hb hs.2
  | keyShare target =>
    simp only [exec, inTransaction_eq_row] at hx
    rcases hx with ⟨ha, -, hx⟩
    split at hx
    · cases hx
      exact .keyShare ha
    · cases hx
  | insertPutOperation r d v =>
    simp only [exec, inTransaction_eq_row] at hx
    rcases hx with ⟨ha, hb, hx⟩
    split at hx
    · rename_i hs
      cases hx
      exact .recorded hs
    · rename_i hs
      cases hx
      exact .insertPutOperation ha hb (by simpa using hs)
  | rollback =>
    simp only [exec] at hx
    split at hx
    · rename_i hi
      cases hx
      exact .rollback hi
    · cases hx
  | commit =>
    simp only [exec] at hx
    split at hx
    · rename_i ha
      cases hx
      exact .commit ha
    · split at hx
      · rename_i hf
        cases hx
        exact .commitFailed hf
      · cases hx
  | findVersion d v =>
    cases hx
    exact .findVersion d v
  | findLatestVersion d =>
    cases hx
    exact .findLatestVersion d
  | search query limit =>
    simp only [exec] at hx
    split at hx
    · cases hx
    · rename_i hl
      cases hx
      exact .search plan (Int.not_lt.mp (not_or.mp hl).1) (by simpa using (not_or.mp hl).2)

/-- Every permitted statement keeps the invariant and what the other calls rely on. -/
theorem guarantee_executes [TextSearch] {s : Stmt} {a : s.Row} (h : db.Consistent)
    (hp : db.Permits c s) (hx : db.Executes c s a db') : db.Guarantee c db' := by
  cases hx with
  | connection => exact guarantee_acquire h hp
  | findPutOperation r => exact guarantee_refl h
  | transaction hidle => exact (quiet_begin (by simp [hidle])).guarantee (h.begin hp)
  | insertDocument ha hfree hnew =>
    exact (quiet_addDocument _ (by simp [ha])).guarantee (h.addDocument hp hfree hnew)
  | @lockFound d ha hsees hfree =>
    have hdoc : db.HasDocument d := by
      rcases sees_document.mp hsees with hdoc | ⟨-, row, hrow, -⟩
      · exact hdoc
      · have hp : db.footprint c = .begun := hp
        simp [hp, Footprint.begun] at hrow
    exact (quiet_addLock _ _).guarantee (h.addLock ha fun _ => ⟨d, rfl, hdoc, hfree⟩)
  | lockMissing hsees => exact guarantee_refl h
  | nextVersion d => exact guarantee_refl h
  | insertVersion ha hstorable hfree hnew =>
    rcases hp with ⟨hnone, hops, htarget⟩
    exact (quiet_addVersion _ (by simp [ha])).guarantee
      (h.addVersion ha hnone hops htarget (VersionRow.checks_of_isStorable hstorable) hfree hnew)
  | keyShare ha => exact (quiet_addLock _ _).guarantee (h.addLock ha (by simp))
  | recorded hold => exact guarantee_refl h
  | insertPutOperation ha hfree hnew =>
    rcases hp with ⟨hnone, hver⟩
    exact (quiet_addPutOperation _ (by simp [ha])).guarantee
      (h.addPutOperation ha hnone hver hfree hnew)
  | rollback hi => exact guarantee_restatus h hi (by simp) (by simp)
  | commit ha => exact guarantee_commit h (by simp [ha, TxStatus.inProgress]) hp
  | commitFailed hf =>
    exact guarantee_restatus h (by simp [hf, TxStatus.inProgress]) (by simp) (by simp)
  | findVersion d v => exact guarantee_refl h
  | findLatestVersion d => exact guarantee_refl h
  | search plan hl hq => exact guarantee_refl h

end Database
end Librarian.Postgres
