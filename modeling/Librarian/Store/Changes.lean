import Librarian.Store.Invariant

/-! # What one step can change

A step either commits one put, which appends to the library, or leaves the library and the
set of committed calls alone. What a call was asked, its result once it returned, and its
rows stay.
-/
namespace Librarian.Store
open Foundation Postgres PostgresDocumentRepository Program

section Statements
variable {db db' : Database} {c : Call}

theorem library_congr (hv : db'.committedVersions = db.committedVersions)
    (ho : db'.committedOperations = db.committedOperations) : db'.library = db.library := by
  have hr : db'.versionRow = db.versionRow := by
    funext d v
    rw [Database.versionRow, Database.versionRow, hv]
  rw [Database.library, Database.library, hv, ho, hr]

/-- A step of `c` that commits nothing. -/
structure Calm (db : Database) (c : Call) (db' : Database) : Prop where
  quiet : db.Quiet c db'
  status : db'.status c = .committed ↔ db.status c = .committed
  operations : db.putOperations ⊆ db'.putOperations

/-- The commit of an open transaction. -/
structure Commits (db : Database) (c : Call) (db' : Database) : Prop where
  inProgress : (db.status c).inProgress = true
  operations : (db.footprint c).operations ≠ []
  database : db' = db.setStatus c .committed

theorem Commits.self (h : Commits db c db') : db'.status c = .committed := by
  rw [h.database]
  exact Function.update_self _ _ _

theorem Commits.other (h : Commits db c db') {x : Call} (hx : x ≠ c) :
    db'.status x = db.status x := by
  rw [h.database]
  exact Function.update_of_ne hx _ _

theorem Calm.refl (db : Database) (c : Call) : Calm db c db :=
  ⟨⟨fun _ _ => rfl, rfl, rfl, rfl⟩, Iff.rfl, List.Subset.refl _⟩

theorem Calm.committed (h : Calm db c db') (x : Call) :
    db'.status x = .committed ↔ db.status x = .committed := by
  by_cases hx : x = c
  · rw [hx]
    exact h.status
  · rw [h.quiet.status hx]

theorem Calm.library (h : Calm db c db') : db'.library = db.library :=
  library_congr h.quiet.versions h.quiet.operations

theorem calm_setStatus {s : TxStatus} (h : db.status c ≠ .committed) (hs : s ≠ .committed) :
    Calm db c (db.setStatus c s) where
  quiet := Database.quiet_setStatus h hs
  status := by simp [Database.setStatus, h, hs]
  operations := List.Subset.refl _

theorem calm_fail : Calm db c (db.fail c) := by
  unfold Database.fail
  split
  · rename_i ha
    exact calm_setStatus (by simp [ha]) (by decide)
  · exact .refl db c

theorem calm_returned (rolledBack : Bool) : Calm db c (returned db c rolledBack) := by
  have hrelease : ∀ x : Database, Calm db c x → Calm db c (x.release c) := fun x hx =>
    ⟨hx.quiet.trans Database.quiet_release, hx.status, hx.operations⟩
  rcases returned_cases db c rolledBack with hr | ⟨hi, hr⟩
  · rw [hr]
    exact hrelease db (.refl db c)
  · rw [hr]
    exact hrelease _ (calm_setStatus (TxStatus.ne_committed_of_inProgress hi) (by decide))

theorem calm_sendCommit : Calm db c (sendCommit db c) := by
  unfold sendCommit
  split
  · rename_i ha
    exact calm_setStatus (by simp [ha]) (by decide)
  · exact .refl db c

theorem calm_executes [TextSearch] {s : Stmt} {a : s.Row} (h : db.Executes c s a db') :
    Calm db c db' ∨
      (s = .commit ∧ db.status c = .active ∧ db' = db.setStatus c .committed) := by
  cases h with
  | commit ha => exact .inr ⟨rfl, ha, rfl⟩
  | connection => exact .inl ⟨Database.quiet_acquire, Iff.rfl, List.Subset.refl _⟩
  | transaction hidle =>
    refine .inl ⟨Database.quiet_begin (by simp [hidle]), ?_, List.Subset.refl _⟩
    simp [Database.begin, Database.setStatus, hidle]
  | insertDocument ha =>
    exact .inl ⟨Database.quiet_addDocument _ (by simp [ha]), Iff.rfl, List.Subset.refl _⟩
  | lockFound => exact .inl ⟨Database.quiet_addLock _ _, Iff.rfl, List.Subset.refl _⟩
  | insertVersion ha =>
    exact .inl ⟨Database.quiet_addVersion _ (by simp [ha]), Iff.rfl, List.Subset.refl _⟩
  | keyShare ha => exact .inl ⟨Database.quiet_addLock _ _, Iff.rfl, List.Subset.refl _⟩
  | insertPutOperation ha =>
    exact .inl ⟨Database.quiet_addPutOperation _ (by simp [ha]), Iff.rfl,
      List.subset_append_left _ _⟩
  | rollback hi =>
    exact .inl (calm_setStatus (TxStatus.ne_committed_of_inProgress hi) (by decide))
  | commitFailed hf => exact .inl (calm_setStatus (by simp [hf]) (by decide))
  | _ => exact .inl (.refl db c)

theorem calm_performs [TextSearch] {e : Effect} {fault : Bool} {ans : e.Ans}
    (hp : ∀ s, e = .sql s → db.Permits c s) (h : Performs db c e fault ans db') :
    Calm db c db' ∨ Commits db c db' := by
  have hcommits : ∀ {s : Stmt} {a : s.Row}, e = .sql s → db.Executes c s a db' →
      Calm db c db' ∨ Commits db c db' := by
    intro s a he hx
    rcases calm_executes hx with hcalm | ⟨rfl, ha, rfl⟩
    · exact .inl hcalm
    · exact .inr ⟨by simp [ha, TxStatus.inProgress], hp _ he, rfl⟩
  cases h with
  | newUuid u => exact .inl (.refl db c)
  | row hx => exact hcommits rfl hx
  | lost hx => exact hcommits rfl hx
  | refused hr => exact .inl calm_fail
  | failed s => exact .inl calm_fail
  | doubted => exact .inl calm_sendCommit

/-- A statement that no fault strikes is executed unless the server refuses it. -/
theorem executes_of_faultless [TextSearch] {stmt : Stmt} {ans : Effect.Ans (.sql stmt)}
    (h : Performs db c (.sql stmt) false ans db') (hr : ¬ db.Refuses c stmt) :
    ∃ row, ans = .ok row ∧ db.Executes c stmt row db' := by
  generalize hf : false = fault at h
  cases h with
  | row hx => exact ⟨_, rfl, hx⟩
  | refused hrefuses => exact absurd hrefuses hr
  | lost => cases hf
  | failed => cases hf
  | doubted => cases hf

theorem executes_or_error [TextSearch] {stmt : Stmt} {fault : Bool} {ans : Effect.Ans (.sql stmt)}
    (h : Performs db c (.sql stmt) fault ans db') :
    (∃ row, ans = .ok row ∧ db.Executes c stmt row db') ∨ ans = .error .error := by
  cases h with
  | row hx => exact .inl ⟨_, rfl, hx⟩
  | refused => exact .inr rfl
  | lost => exact .inr rfl
  | failed => exact .inr rfl
  | doubted => exact .inr rfl

end Statements

/-- What stays from one state of a run to all later ones. -/
structure Later (s s' : State) : Prop where
  op : ∀ c op, (s.client c).op = some op → (s'.client c).op = some op
  finished : ∀ c op res, s.client c = .finished op res → s'.client c = .finished op res
  unsent : ∀ c op res, s.client c = .finished op res → Unsent s.database c → Unsent s'.database c
  committed : ∀ c, s.database.status c = .committed → s'.database.status c = .committed
  operations : s.database.putOperations ⊆ s'.database.putOperations

theorem Later.refl (s : State) : Later s s :=
  ⟨fun _ _ h => h, fun _ _ _ h => h, fun _ _ _ _ h => h, fun _ h => h, List.Subset.refl _⟩

theorem Later.trans {s₁ s₂ s₃ : State} (h : Later s₁ s₂) (h' : Later s₂ s₃) : Later s₁ s₃ where
  op c op hop := h'.op c op (h.op c op hop)
  finished c op res hf := h'.finished c op res (h.finished c op res hf)
  unsent c op res hf hu := h'.unsent c op res (h.finished c op res hf) (h.unsent c op res hf hu)
  committed c hc := h'.committed c (h.committed c hc)
  operations := List.Subset.trans h.operations h'.operations

variable [Sha256] [TextSearch] {t : List (State × Action)} {s s' : State} {a : Action}
  {c : Call} {op : RepositoryCall} {res : RepositoryResult}

theorem Invariant.permits_of_running (h : Invariant t s) {e : Effect}
    {next : e.Ans → Program Effect Effect.Ans RepositoryResult}
    (hc : s.client c = .running op (.call e next)) (stmt : Stmt) (he : e = .sql stmt) :
    s.database.Permits c stmt := by
  subst he
  have hfit := h.fits c
  rw [Fits, hc] at hfit
  exact (hfit.2 _ (h.isView c)).of_call.1.1

/-- Every step is calm or commits the put of one call, whose client acts if anyone's does. -/
theorem Invariant.calm_or_commits (h : Invariant t s) (hm : Moves s a s') :
    (∃ c, Calm s.database c s'.database) ∨
      (∃ c, Commits s.database c s'.database ∧ (a.actor = some c ∨ a.actor = none)) := by
  cases hm with
  | @invoke c => exact .inl ⟨c, .refl _ c⟩
  | @perform _ c op e next ans db ha hc hp =>
    rcases calm_performs (h.permits_of_running hc) hp with hcalm | hcommits
    · exact .inl ⟨c, hcalm⟩
    · exact .inr ⟨c, hcommits, .inl ha⟩
  | @finish c => exact .inl ⟨c, calm_returned _⟩
  | @crash c => exact .inl ⟨c, calm_returned false⟩
  | @settleCommit c hr hs =>
    exact .inr ⟨c, ⟨by simp [hs, TxStatus.inProgress],
      (h.consistent.wellFormed c).complete (.inl hs), rfl⟩, .inr rfl⟩
  | @settleAbort c hr hi =>
    exact .inl ⟨c, calm_setStatus (TxStatus.ne_committed_of_inProgress hi) (by decide)⟩
  | @tick now => exact .inl ⟨⟨0, 0⟩, Database.quiet_tick now, Iff.rfl, List.Subset.refl _⟩

/-- The others leave the status of a call's transaction alone, but for a transaction whose
client is gone, which may be ended. -/
theorem Invariant.status_other (h : Invariant t s) (hm : Moves s a s') (ha : a.actor ≠ some c) :
    s'.database.status c = s.database.status c ∨
      (s.database.status c = .committing ∧ s'.database.status c = .committed) ∨
      ((s.database.status c).inProgress = true ∧ s'.database.status c = .aborted) := by
  cases hm with
  | invoke => exact .inl rfl
  | perform hx hc hp =>
    have hne := fun heq => ha (hx.trans (congrArg some heq))
    exact .inl ((guarantee_performs h.consistent (h.permits_of_running hc) hp).status (Ne.symm hne))
  | finish rolledBack hc =>
    have hne := fun heq => ha (congrArg some heq)
    exact .inl ((guarantee_returned h.consistent rolledBack).status (Ne.symm hne))
  | crash => exact .inl rfl
  | @settleCommit x hr hs =>
    by_cases hx : c = x
    · subst hx
      exact .inr (.inl ⟨hs, Function.update_self _ _ _⟩)
    · exact .inl (Function.update_of_ne hx _ _)
  | @settleAbort x hr hi =>
    by_cases hx : c = x
    · subst hx
      exact .inr (.inr ⟨hi, Function.update_self _ _ _⟩)
    · exact .inl (Function.update_of_ne hx _ _)
  | tick => exact .inl rfl

theorem Invariant.idle_other (h : Invariant t s) (hm : Moves s a s') (ha : a.actor ≠ some c)
    (hidle : s.database.status c = .idle) : s'.database.status c = .idle := by
  rcases h.status_other hm ha with hsame | ⟨hcommitting, -⟩ | ⟨hprogress, -⟩
  · rw [hsame, hidle]
  · cases hidle.symm.trans hcommitting
  · rw [hidle] at hprogress
    cases hprogress

theorem Invariant.unsent_other (h : Invariant t s) (hm : Moves s a s') (ha : a.actor ≠ some c)
    (hu : Unsent s.database c) : Unsent s'.database c := by
  rcases h.status_other hm ha with hsame | ⟨hcommitting, -⟩ | ⟨-, haborted⟩
  · rwa [Unsent, hsame]
  · exact absurd hcommitting hu.1
  · simp [Unsent, haborted]

/-- Whoever acts has not returned, and was asked something. -/
theorem Moves.of_actor (hm : Moves s a s') (ha : a.actor = some c) :
    (s.client c = .idle ∨ (s.client c).isRunning = true) ∧
      ∃ op, (s'.client c).op = some op := by
  cases hm with
  | @invoke x op hc =>
    cases ha
    exact ⟨.inl hc, op, by rw [set_client_self]; rfl⟩
  | @perform _ x op e next ans db hx hc hp =>
    obtain rfl := Option.some.inj (ha.symm.trans hx)
    exact ⟨.inr (by simp [hc, Client.isRunning]), op, by rw [set_client_self]; rfl⟩
  | @finish x op res rolledBack hc =>
    cases ha
    exact ⟨.inr (by simp [hc, Client.isRunning]), op, by rw [set_client_self]; rfl⟩
  | @crash x op p hc =>
    cases ha
    exact ⟨.inr (by simp [hc, Client.isRunning]), op, by rw [set_client_self]; rfl⟩
  | settleCommit => cases ha
  | settleAbort => cases ha
  | tick => cases ha

theorem Moves.not_finished (hm : Moves s a s') (ha : a.actor = some c) :
    s.client c ≠ .finished op res := by
  intro hc
  rcases (hm.of_actor ha).1 with hidle | hrun
  · simp [hc] at hidle
  · simp [hc, Client.isRunning] at hrun

/-- A call with an effect before it performs it or crashes. -/
theorem Moves.perform_or_crash (hm : Moves s a s') (ha : a.actor = some c) {e : Effect}
    {next : e.Ans → Program Effect Effect.Ans RepositoryResult}
    (hc : s.client c = .running op (.call e next)) :
    (∃ ans db, Performs s.database c e (a.faults s c) ans db ∧
      s' = s.set db c (.running op (next ans))) ∨
      s' = s.set (s.database.release c) c (.crashed op) := by
  cases hm with
  | invoke hidle =>
    cases ha
    cases hc.symm.trans hidle
  | perform hx hrun hp =>
    obtain rfl := Option.some.inj (ha.symm.trans hx)
    cases hc.symm.trans hrun
    exact .inl ⟨_, _, hp, rfl⟩
  | finish rolledBack hrun =>
    cases ha
    cases hc.symm.trans hrun
  | crash hrun =>
    cases ha
    cases hc.symm.trans hrun
    exact .inr rfl
  | settleCommit => cases ha
  | settleAbort => cases ha
  | tick => cases ha

theorem Moves.client_other (hm : Moves s a s') (ha : a.actor ≠ some c) :
    s'.client c = s.client c := by
  have hset : ∀ {x : Call} {db : Database} {client : Client}, a.actor = some x →
      (s.set db x client).client c = s.client c := by
    intro x db client hx
    exact set_client_other fun heq => ha (hx.trans (congrArg some heq.symm))
  cases hm with
  | invoke => exact hset rfl
  | perform hx => exact hset hx
  | finish => exact hset rfl
  | crash => exact hset rfl
  | _ => rfl

/-- What a call was asked stays. -/
theorem Moves.keeps_op (hm : Moves s a s') (hop : (s.client c).op = some op) :
    (s'.client c).op = some op := by
  have hset : ∀ {x : Call} {db : Database} {client : Client},
      ((s.client x).op = some op → client.op = some op) →
      ((s.set db x client).client c).op = some op := by
    intro x db client hown
    by_cases hx : c = x
    · subst hx
      rw [set_client_self]
      exact hown hop
    · rw [set_client_other hx]
      exact hop
  cases hm with
  | invoke hc => exact hset (by simp [hc, Client.op])
  | perform ha hc hp => exact hset (by simp [hc, Client.op])
  | finish rolledBack hc => exact hset (by simp [hc, Client.op])
  | crash hc => exact hset (by simp [hc, Client.op])
  | _ => exact hop

/-- A call is asked something by its invocation only. -/
theorem Moves.invoke_of_op (h : Moves s a s') (hnone : (s.client c).op = none)
    (hop : (s'.client c).op = some op) :
    s.client c = .idle ∧ a = .invoke c op ∧
      s' = s.set s.database c (.running op (program op)) := by
  by_cases ha : a.actor = some c
  · cases h with
    | invoke hidle =>
      cases ha
      rw [set_client_self] at hop
      cases hop
      exact ⟨hidle, rfl, rfl⟩
    | perform hx hc =>
      obtain rfl := Option.some.inj (hx.symm.trans ha)
      simp [hc, Client.op] at hnone
    | finish _ hc =>
      cases ha
      simp [hc, Client.op] at hnone
    | crash hc =>
      cases ha
      simp [hc, Client.op] at hnone
    | settleCommit => cases ha
    | settleAbort => cases ha
    | tick => cases ha
  · rw [h.client_other ha, hnone] at hop
    cases hop

theorem Invariant.later (h : Invariant t s) (hm : Moves s a s') : Later s s' := by
  constructor
  case op => exact fun c op hop => hm.keeps_op hop
  case finished =>
    intro c op res hf
    rw [hm.client_other fun ha => hm.not_finished ha hf, hf]
  case unsent =>
    intro c op res hf hu
    apply h.unsent_other hm _ hu
    exact fun ha => hm.not_finished ha hf
  case committed =>
    intro c hc
    rcases h.calm_or_commits hm with ⟨x, hcalm⟩ | ⟨x, hcommits, -⟩
    · exact (hcalm.committed c).mpr hc
    · by_cases hx : c = x
      · rw [hx, hcommits.self]
      · rw [hcommits.other hx, hc]
  case operations =>
    rcases h.calm_or_commits hm with ⟨x, hcalm⟩ | ⟨x, hcommits, -⟩
    · exact hcalm.operations
    · rw [hcommits.database]
      exact List.Subset.refl _

end Librarian.Store
