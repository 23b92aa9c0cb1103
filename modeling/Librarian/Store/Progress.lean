import Librarian.Foundation.WaitsFor
import Librarian.Store.Changes

/-! # Concurrent calls never deadlock

A call that has written or locked nothing may wait for anyone, a call that holds a document
only for one that has recorded its request, and that one for nobody. So waits climb a rank
of three steps and some call in flight can always go on.
-/
namespace Librarian.Store
open Foundation Postgres PostgresDocumentRepository Program

/-- How far a call has come: nothing held, a document held, the request recorded. -/
def rank (f : Footprint) : ℕ :=
  if f.operations ≠ [] then 2
  else if f.documents ≠ [] ∨ f.versions ≠ [] ∨ f.locks ≠ [] then 1
  else 0

theorem rank_le_two (f : Footprint) : rank f ≤ 2 := by
  unfold rank
  split
  · exact Nat.le_refl 2
  · split <;> omega

theorem rank_begun : rank .begun = 0 := rfl

theorem rank_pos_of_documents {f : Footprint} (h : f.documents ≠ []) : 0 < rank f := by
  unfold rank
  split
  · omega
  · simp [h]

theorem rank_pos_of_locks {f : Footprint} (h : f.locks ≠ []) : 0 < rank f := by
  unfold rank
  split
  · omega
  · simp [h]

theorem rank_of_operations {f : Footprint} (h : f.operations ≠ []) : rank f = 2 := by
  simp [rank, h]

theorem rank_lt_two {f : Footprint} (h : f.operations = []) : rank f < 2 := by
  unfold rank
  rw [if_neg (by simp [h])]
  split <;> omega

section Blockers
variable {db : Database} {c c' : Call}

theorem mem_lockers {target : RowId} {mode : LockMode} (h : c' ∈ db.lockers c target mode) :
    ∃ m, (target, m) ∈ (db.footprint c').locks ∧ c' ≠ c ∧ (db.status c').inProgress ∧
      mode.conflicts m = true := by
  simp only [Database.lockers, List.mem_map, List.mem_filter, decide_eq_true_eq] at h
  rcases h with ⟨l, ⟨hl, rfl, hne, hi, hm⟩, rfl⟩
  exact ⟨l.mode, Database.mem_locks.mpr hl, hne, hi, hm⟩

/-- Whoever a permitted statement has to wait for is in progress and further on. -/
theorem blockers_rank {stmt : Stmt} (h : db.Consistent) (ha : db.status c = .active)
    (hp : db.Permits c stmt) (hb : c' ∈ db.blockers c stmt) :
    (db.status c').inProgress ∧ rank (db.footprint c) < rank (db.footprint c') := by
  have hi : (db.status c).inProgress := by simp [ha, TxStatus.inProgress]
  cases stmt with
  | insertDocument d =>
    rcases Heap.mem_inserters.mp hb with ⟨t, ht, -, -, hi', rfl⟩
    have hf : db.footprint c = .begun := hp
    have hrow := Database.mem_documents.mpr ht
    rw [hf, rank_begun]
    exact ⟨hi', rank_pos_of_documents (List.ne_nil_of_mem hrow)⟩
  | lockDocument d =>
    have hf : db.footprint c = .begun := hp
    simp only [Database.blockers] at hb
    split at hb
    · rcases mem_lockers hb with ⟨m, hl, -, hi', -⟩
      rw [hf, rank_begun]
      exact ⟨hi', rank_pos_of_locks (List.ne_nil_of_mem hl)⟩
    · simp at hb
  | insertVersion d n document digest =>
    rcases Heap.mem_inserters.mp hb with ⟨t, ht, hk, hne, hi', rfl⟩
    have hown : db.Holds c d := by
      rcases hp.2.2 with ⟨time, hdocs, -⟩ | ⟨-, hl, -⟩
      · exact .inl ⟨⟨d, time⟩, by simp [hdocs], rfl⟩
      · exact .inr hl
    have hother := h.holds_of_version hi' (Database.mem_versions.mpr ht)
    rw [show t.row.documentId = d from congrArg Prod.fst hk] at hother
    exact absurd (h.holds_unique hi' hi hother hown) hne
  | keyShare target =>
    simp only [Database.blockers] at hb
    split at hb
    · rcases mem_lockers hb with ⟨m, hl, hne, hi', hm⟩
      have hm : m = .forUpdate := by
        cases m with
        | forKeyShare => simp [LockMode.conflicts] at hm
        | forUpdate => rfl
      subst hm
      rcases hp with ⟨v, hv, rfl | rfl⟩
      · exact absurd (h.holds_unique hi' hi (.inr hl) (h.holds_of_version hi hv)) hne
      · rcases (h.wellFormed c').target _ hl with ⟨d, hd⟩
        cases hd
    · simp at hb
  | insertPutOperation r d n =>
    rcases Heap.mem_inserters.mp hb with ⟨t, ht, -, -, hi', rfl⟩
    have hrow := Database.mem_operations.mpr ht
    rw [rank_of_operations (List.ne_nil_of_mem hrow)]
    exact ⟨hi', rank_lt_two hp.1⟩
  | _ => simp [Database.blockers] at hb

/-- A statement is blocked by a full pool or by other transactions, never otherwise. -/
theorem exec_blocked [TextSearch] {plan : Plan} {stmt : Stmt}
    (h : db.exec c plan stmt = .blocked) :
    (stmt = .connection ∧ db.poolFull c = true) ∨
      (db.status c = .active ∧ ∃ c', c' ∈ db.blockers c stmt) := by
  have hin : ∀ {s : Stmt} {o : Outcome s.Row}, o ≠ .blocked → db.inTransaction c s o = .blocked →
      db.status c = .active ∧ ∃ c', c' ∈ db.blockers c s := by
    intro s o ho hx
    unfold Database.inTransaction at hx
    split at hx
    · cases hx
    · rename_i ha
      split at hx
      · rename_i hne
        exact ⟨by simpa using ha, List.exists_mem_of_ne_nil _ hne⟩
      · exact absurd hx ho
  cases stmt with
  | connection =>
    simp only [Database.exec] at h
    split at h
    · rename_i hfull
      exact .inl ⟨rfl, hfull⟩
    · cases h
  | insertDocument d => exact .inr (hin (by split <;> simp) h)
  | lockDocument d => exact .inr (hin (by split <;> simp) h)
  | nextVersion d => exact .inr (hin (by split <;> simp) h)
  | insertVersion d n document digest => exact .inr (hin (by split <;> simp) h)
  | keyShare target => exact .inr (hin (by split <;> simp) h)
  | insertPutOperation r d n => exact .inr (hin (by split <;> simp) h)
  | transaction =>
    simp only [Database.exec] at h
    split at h <;> cases h
  | rollback =>
    simp only [Database.exec] at h
    split at h <;> cases h
  | commit =>
    simp only [Database.exec] at h
    split at h
    · cases h
    · split at h <;> cases h
  | search q n =>
    simp only [Database.exec] at h
    split at h <;> cases h
  | findPutOperation r => cases h
  | findVersion d n => cases h
  | findLatestVersion d => cases h

end Blockers

/-- The next statement of `c` has to wait until `c'` ends. -/
def WaitsFor (s : State) (c c' : Call) : Prop :=
  ∃ op stmt next, s.client c = .running op (.call (.sql stmt) next) ∧
    s.database.status c = .active ∧ c' ∈ s.database.blockers c stmt

/-- A client is at work or its transaction is still open on the server. -/
def InFlight (s : State) (c : Call) : Prop :=
  (s.client c).isRunning = true ∨ (s.database.status c).inProgress = true

/-- Call `c` can take its next step now. Once its client is gone, the next step of its
transaction is its end on the server. -/
inductive Proceeds [Sha256] [TextSearch] (s : State) (c : Call) : Prop
  | newUuid {u : Uuid} {s' : State} (h : step s (.newUuid c u) = some s')
  | exec {plan : Plan} {s' : State} (h : step s (.exec c plan) = some s')
  | finish {s' : State} (h : step s (.finish c true) = some s')
  | settle {s' : State} (h : step s (.settle c false) = some s')

structure DeadlockFree [Sha256] [TextSearch] (s : State) : Prop where
  acyclic : ∀ c, ¬ Relation.TransGen (WaitsFor s) c c
  progress : ∀ c, InFlight s c → ∃ c', InFlight s c' ∧ Proceeds s c'
  waitingForConnection : ∀ c op next,
    s.client c = .running op (.call (.sql .connection) next) → s.database.footprint c = .empty

section Waits
variable [Sha256] [TextSearch] {t : List (State × Action)} {s : State} {c c' : Call}
  {op : RepositoryCall}

/-- A wait leads to a transaction that is still open and further on. -/
theorem Invariant.waits_rank (h : Invariant t s) (hw : WaitsFor s c c') :
    (s.database.status c').inProgress = true ∧
      rank (s.database.footprint c) < rank (s.database.footprint c') := by
  rcases hw with ⟨op, stmt, next, hc, ha, hb⟩
  exact blockers_rank h.consistent ha (h.permits_of_running hc stmt rfl) hb

theorem Invariant.waits_acyclic (h : Invariant t s) (c : Call) :
    ¬ Relation.TransGen (WaitsFor s) c c :=
  WaitsFor.acyclic (fun c => rank (s.database.footprint c)) (fun _ _ hw => (h.waits_rank hw).2) c

/-- A client at work goes on unless the pool is empty or it waits for another transaction. -/
theorem proceeds_or_waits {p : Program Effect Effect.Ans RepositoryResult}
    (hc : s.client c = .running op p) :
    Proceeds s c ∨ (∃ c', WaitsFor s c c') ∨
      (∃ next, p = .call (.sql .connection) next ∧ s.database.poolFull c = true) := by
  cases p with
  | ret res => exact .inl (.finish (by simp only [step, hc]; rfl))
  | call e next =>
    cases e with
    | newUuid => exact .inl (.newUuid (u := 0) (by simp only [step, hc]; rfl))
    | sql stmt =>
      let plan : Plan := ⟨id, fun _ => .refl _⟩
      cases hx : s.database.exec c plan stmt with
      | error =>
        have hs : step s (.exec c plan) =
            some (s.set (s.database.fail c) c (.running op (next (.error .error)))) := by
          simp only [step, hc, hx]
        exact .inl (.exec hs)
      | row a db =>
        have hs : step s (.exec c plan) = some (s.set db c (.running op (next (.ok a)))) := by
          simp only [step, hc, hx]
        exact .inl (.exec hs)
      | blocked =>
        right
        rcases exec_blocked hx with ⟨rfl, hfull⟩ | ⟨ha, c', hb⟩
        · exact .inr ⟨next, rfl, hfull⟩
        · exact .inl ⟨c', op, stmt, next, hc, ha, hb⟩

/-- Whoever holds a connection or an open transaction and waits for nobody goes on. -/
theorem Invariant.proceeds (h : Invariant t s)
    (hheld : s.database.footprint c ≠ .empty)
    (hopen : (s.client c).isRunning = true ∨ (s.database.status c).inProgress = true)
    (hfree : ∀ c', ¬ WaitsFor s c c') : Proceeds s c := by
  have hgone : (s.client c).isRunning = false → Proceeds s c := by
    intro hr
    have hi : (s.database.status c).inProgress = true := by simpa [hr] using hopen
    have hs : Store.step s (.settle c false) =
        some { s with database := s.database.setStatus c .aborted } := by
      simp [Store.step, Database.inProgress, hr, hi]
    exact .settle hs
  cases hc : s.client c with
  | running op p =>
    rcases proceeds_or_waits hc with hp | ⟨c', hw⟩ | ⟨next, rfl, -⟩
    · exact hp
    · exact absurd hw (hfree c')
    · exact absurd (h.permits_of_running hc _ rfl) hheld
  | _ => exact hgone (by simp [hc, Client.isRunning])

omit [Sha256] [TextSearch] in
theorem footprint_ne_empty_of_inProgress {db : Database}
    (hi : (db.status c).inProgress = true) : db.footprint c ≠ .empty := by
  intro hf
  have hs : db.status c = .idle := congrArg Footprint.status hf
  simp [hs, TxStatus.inProgress] at hi

/-- Along the waits every open transaction leads to one that goes on. -/
theorem Invariant.progress_of_inProgress (h : Invariant t s)
    (hi : (s.database.status c).inProgress = true) : ∃ c', InFlight s c' ∧ Proceeds s c' := by
  rcases WaitsFor.exists_unblocked (fun c => rank (s.database.footprint c))
    (fun _ _ hw => (h.waits_rank hw).2) (fun c => rank_le_two _)
    (p := fun c => (s.database.status c).inProgress = true)
    (fun _ _ _ hw => (h.waits_rank hw).1) hi with ⟨b, hb, hfree⟩
  exact ⟨b, .inr hb, h.proceeds (footprint_ne_empty_of_inProgress hb) (.inr hb) hfree⟩

/-- Only a client at work holds a connection. -/
theorem Invariant.running_of_connection (h : Invariant t s) (hx : c ∈ s.database.connections) :
    (s.client c).isRunning = true := by
  have hcount : (s.database.footprint c).connections ≠ 0 := by
    intro h0
    exact List.count_eq_zero.mp h0 hx
  have hfit := h.fits c
  rw [Fits] at hfit
  cases hc : s.client c with
  | idle =>
    rw [hc] at hfit
    exact absurd (congrArg Footprint.connections hfit) hcount
  | running op p => rfl
  | finished op res =>
    rw [hc] at hfit
    exact absurd hfit.2.1 hcount
  | crashed op =>
    rw [hc] at hfit
    exact absurd hfit.2 hcount

/-- When the pool is empty, one of the calls that hold its connections goes on. -/
theorem Invariant.progress_of_poolFull (h : Invariant t s)
    (hfull : s.database.poolFull c = true) : ∃ c', InFlight s c' ∧ Proceeds s c' := by
  rw [Database.poolFull, decide_eq_true_eq] at hfull
  rcases List.exists_mem_of_length_pos (Nat.lt_of_lt_of_le (by decide) hfull) with ⟨x, hx⟩
  have hx := (List.mem_filter.mp hx).1
  have hr := h.running_of_connection hx
  by_cases hi : (s.database.status x).inProgress = true
  · exact h.progress_of_inProgress hi
  · refine ⟨x, .inl hr, h.proceeds ?_ (.inl hr) ?_⟩
    · intro hf
      exact List.count_eq_zero.mp (congrArg Footprint.connections hf) hx
    · rintro c' ⟨op, stmt, next, -, ha, -⟩
      simp [ha, TxStatus.inProgress] at hi

/-- In every reachable state waits have no cycle, somebody in flight can go on, and a call
that waits for a connection holds nothing. -/
theorem deadlockFree_of_reachable (h : system.Reachable s) : DeadlockFree s := by
  rcases h with ⟨t, ht⟩
  have hinv := invariant_of_trace ht
  constructor
  case acyclic => exact hinv.waits_acyclic
  case progress =>
    intro c hc
    by_cases hi : (s.database.status c).inProgress = true
    · exact hinv.progress_of_inProgress hi
    · have hr : (s.client c).isRunning = true := by simpa [InFlight, hi] using hc
      cases hcl : s.client c with
      | running op p =>
        rcases proceeds_or_waits hcl with hp | ⟨c', op, stmt, next, -, ha, -⟩ | ⟨next, -, hfull⟩
        · exact ⟨c, .inl hr, hp⟩
        · simp [ha, TxStatus.inProgress] at hi
        · exact hinv.progress_of_poolFull hfull
      | _ => simp [hcl, Client.isRunning] at hr
  case waitingForConnection => exact fun c op next hc => hinv.permits_of_running hc _ rfl

end Waits

/-- Two puts of one request, the second waiting for the first to end. -/
theorem deadlockFree_of_lost_race :
    @DeadlockFree sampleSha256 sampleSearch ((sampleRun
      (.invoke ⟨0, 0⟩ (.put 1 (sampleDocument none "alpha")) ::
        execs ⟨0, 0⟩ 3 ++ .newUuid ⟨0, 0⟩ 7 :: execs ⟨0, 0⟩ 4 ++
        .invoke ⟨1, 0⟩ (.put 1 (sampleDocument none "alpha")) ::
        execs ⟨1, 0⟩ 3 ++ .newUuid ⟨1, 0⟩ 8 :: execs ⟨1, 0⟩ 3)).get (by decide +kernel)) :=
  @deadlockFree_of_reachable sampleSha256 sampleSearch _ (reachable_sampleRun _)

end Librarian.Store
