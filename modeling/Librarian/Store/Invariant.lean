import Librarian.Store.Safety

/-! # The invariant of whole runs

After any run the database is consistent, every call that still runs keeps its contract for
the rest of its program, and every result that was returned is justified by one of the
call's own steps or by its commit.
-/
namespace Librarian.Store
open Foundation Postgres PostgresDocumentRepository Program

/-- The databases in which the client of `c` acted. -/
def mine (t : List (State × Action)) (c : Call) : List Database :=
  (t.filter fun p => p.2.actor = some c).map fun p => p.1.database

theorem mine_append_own {t : List (State × Action)} {s : State} {a : Action} {c : Call}
    (h : a.actor = some c) : mine (t ++ [(s, a)]) c = mine t c ++ [s.database] := by
  simp [mine, h]

theorem mine_append_other {t : List (State × Action)} {s : State} {a : Action} {c : Call}
    (h : a.actor ≠ some c) : mine (t ++ [(s, a)]) c = mine t c := by
  simp [mine, h]

/-- A fault struck call `c` during the run. -/
def faulty [TextSearch] (t : List (State × Action)) (c : Call) : Bool :=
  t.any fun p => p.2.faults p.1 c

theorem faulty_append [TextSearch] {t : List (State × Action)} {s : State} {a : Action} {c : Call} :
    faulty (t ++ [(s, a)]) c = (faulty t c || a.faults s c) := by
  simp [faulty]

theorem faulty_append_other [TextSearch] {t : List (State × Action)} {s : State} {a : Action}
    {c : Call} (h : a.actor ≠ some c) : faulty (t ++ [(s, a)]) c = faulty t c := by
  rw [faulty_append, Action.faults_other h, Bool.or_false]

theorem faults_of_faulty [TextSearch] {t : List (State × Action)} {c : Call} {k : ℕ}
    {p : State × Action} (hf : faulty t c = false) (hk : t[k]? = some p) :
    p.2.faults p.1 c = false := by
  have hall := List.any_eq_false.mp hf p (List.mem_of_getElem? hk)
  simpa using hall

section Returned
variable {c : Call} {op : RepositoryCall}

/-- A call returns with its transaction rolled back or as it is. -/
theorem returned_cases (db : Database) (c : Call) (rolledBack : Bool) :
    returned db c rolledBack = db.release c ∨ (db.status c).inProgress = true ∧
      returned db c rolledBack = (db.setStatus c .aborted).release c := by
  cases rolledBack with
  | false => exact .inl rfl
  | true =>
    by_cases ha : db.status c = .active ∨ db.status c = .failed
    · refine .inr ⟨?_, by rw [returned, if_pos rfl, Database.dropTransaction, if_pos ha]⟩
      rcases ha with ha | ha
      · rw [ha]
        rfl
      · rw [ha]
        rfl
    · exact .inl (by rw [returned, if_pos rfl, Database.dropTransaction, if_neg ha])

theorem guarantee_returned {db : Database} (h : db.Consistent) (rolledBack : Bool) :
    db.Guarantee c (returned db c rolledBack) := by
  rcases returned_cases db c rolledBack with hr | ⟨hi, hr⟩
  · rw [hr]
    exact Database.guarantee_release h
  · rw [hr]
    have habort := Database.guarantee_restatus (s := .aborted) h hi (by simp) (by simp)
    exact habort.trans (Database.guarantee_release habort.consistent)

/-- A call that has committed returns with everything it wrote. -/
theorem committed_returned {db : Database} {rolledBack : Bool} (h : db.status c = .committed) :
    (returned db c rolledBack).status c = .committed ∧
      ((returned db c rolledBack).footprint c).operations = (db.footprint c).operations := by
  rcases returned_cases db c rolledBack with hr | ⟨hi, -⟩
  · rw [hr]
    exact ⟨h, rfl⟩
  · rw [h] at hi
    cases hi

theorem unsent_returned {db : Database} {rolledBack : Bool} (h : Unsent db c) :
    Unsent (returned db c rolledBack) c := by
  rcases returned_cases db c rolledBack with hr | ⟨-, hr⟩
  · rwa [hr]
  · rw [hr]
    simp [Unsent, Database.release, Database.setStatus]

theorem idle_returned {db : Database} {rolledBack : Bool} (h : db.status c = .idle) :
    (returned db c rolledBack).status c = .idle := by
  rcases returned_cases db c rolledBack with hr | ⟨hi, -⟩
  · rwa [hr]
  · rw [h] at hi
    cases hi

theorem connections_returned {db : Database} {rolledBack : Bool} (h : db.Consistent) :
    ((returned db c rolledBack).footprint c).connections = 0 := by
  have hone : ∀ x : Database, (x.footprint c).connections ≤ 1 →
      ((x.release c).footprint c).connections = 0 := by
    intro x hx
    rw [Database.footprint_release]
    simp only
    omega
  have hconnection := (h.wellFormed c).connection
  rcases returned_cases db c rolledBack with hr | ⟨-, hr⟩
  · rw [hr]
    exact hone db hconnection
  · rw [hr]
    exact hone (db.setStatus c .aborted) hconnection

theorem Written.empty [Sha256] : Written op .empty := by
  cases op with
  | put r document => constructor <;> simp [Footprint.empty]
  | get d v => simp [Written, Footprint.empty]
  | search q limit => simp [Written, Footprint.empty]

theorem written_returned [Sha256] {db : Database} {rolledBack : Bool}
    (h : Written op (db.footprint c)) : Written op ((returned db c rolledBack).footprint c) := by
  have hrel : ∀ x : Database, Written op (x.footprint c) →
      Written op ((x.release c).footprint c) := by
    intro x hx
    rw [Database.footprint_release]
    exact hx.congr rfl rfl rfl
  rcases returned_cases db c rolledBack with hr | ⟨-, hr⟩
  · rw [hr]
    exact hrel db h
  · rw [hr]
    exact hrel _ (written_setStatus h)

variable {s : State} {a : Action}

theorem set_client_other {db : Database} {client : Client} {x : Call} (h : x ≠ c) :
    (s.set db c client).client x = s.client x := Function.update_of_ne h _ _

theorem set_client_self {db : Database} {client : Client} :
    (s.set db c client).client c = client := Function.update_self _ _ _

theorem actor_other {x y : Call} (h : a.actor = some x) (hne : y ≠ x) : a.actor ≠ some y := by
  rw [h]
  intro he
  exact hne (Option.some.inj he).symm

end Returned

variable [Sha256] [TextSearch]

/-- `v` is the run `t` to `s` as call `c` sees it. -/
structure IsView (t : List (State × Action)) (s : State) (c : Call) (v : View) : Prop where
  mine : v.mine = mine t c
  faulty : v.faulty = faulty t c
  database : v.database = s.database

/-- What holds of call `c` after the run `t` to `s`. -/
def Fits (t : List (State × Action)) (s : State) (c : Call) : Prop :=
  match s.client c with
  | .idle => s.database.footprint c = .empty
  | .running op p => Written op (s.database.footprint c) ∧
      ∀ v, IsView t s c v → p.Safe (protocol c op) (fun x res => Answers c x op res) v
  | .finished op res => Written op (s.database.footprint c) ∧
      (s.database.footprint c).connections = 0 ∧
      ∀ v, IsView t s c v → Answers c v op res
  | .crashed op => Written op (s.database.footprint c) ∧
      (s.database.footprint c).connections = 0

structure Invariant (t : List (State × Action)) (s : State) : Prop where
  consistent : s.database.Consistent
  past : ∀ p ∈ t, p.1.database.Consistent ∧ p.1.database.Grows s.database
  fits : ∀ c, Fits t s c

variable {t : List (State × Action)} {s s' : State} {a : Action} {c : Call}
  {op : RepositoryCall} {res : RepositoryResult}

/-- The run as call `c` sees it. -/
def Invariant.view (h : Invariant t s) (c : Call) : View where
  mine := mine t c
  faulty := faulty t c
  database := s.database
  consistent := h.consistent
  past := by
    intro db hdb
    rcases List.mem_map.mp hdb with ⟨p, hp, rfl⟩
    exact h.past p (List.mem_filter.mp hp).1

theorem Invariant.isView (h : Invariant t s) (c : Call) : IsView t s c (h.view c) :=
  ⟨rfl, rfl, rfl⟩

theorem Invariant.status_of_idle (h : Invariant t s) (hc : s.client c = .idle) :
    s.database.status c = .idle := by
  have hfit := h.fits c
  rw [Fits, hc] at hfit
  exact congrArg Footprint.status hfit

theorem Answers.mono {v w : View} (h : Answers c v op res) (hm : v.mine ⊆ w.mine)
    (hf : v.faulty = true → w.faulty = true) (hu : Unsent v.database c → Unsent w.database c)
    (hs : v.database.status c = .committed → w.database.status c = .committed ∧
      (w.database.footprint c).operations = (v.database.footprint c).operations) :
    Answers c w op res := by
  cases h with
  | failed h he => exact .failed h (he.imp hf id)
  | wrote hc hrow => exact .wrote (hs hc).1 (by rwa [(hs hc).2])
  | read hdb hv h => exact .read (hm hdb) (hu hv) h
  | searched hdb plan hl => exact .searched (hm hdb) plan hl

theorem Invariant.rely_view (h : Invariant t s) (hactor : a.actor ≠ some c)
    (hr : s.database.Rely c s'.database) {v : View} (hv : IsView (t ++ [(s, a)]) s' c v) :
    (h.view c).Rely c v where
  mine := by
    rw [hv.mine, mine_append_other hactor]
    rfl
  faulty := by
    rw [hv.faulty, faulty_append_other hactor]
    rfl
  database := by
    rw [hv.database]
    exact hr

/-- A step of someone else leaves what holds of a call as it is. -/
theorem Invariant.fits_other (h : Invariant t s) (hactor : a.actor ≠ some c)
    (hclient : s'.client c = s.client c) (hr : s.database.Rely c s'.database) :
    Fits (t ++ [(s, a)]) s' c := by
  have hfit := h.fits c
  rw [Fits] at hfit ⊢
  rw [hclient, hr.footprint]
  cases hc : s.client c with
  | idle =>
    rw [hc] at hfit
    exact hfit
  | running op p =>
    rw [hc] at hfit
    refine ⟨hfit.1, ?_⟩
    intro v hv
    exact (hfit.2 _ (h.isView c)).stable (h.rely_view hactor hr hv)
  | finished op res =>
    rw [hc] at hfit
    refine ⟨hfit.1, hfit.2.1, ?_⟩
    intro v hv
    exact (hfit.2.2 _ (h.isView c)).stable (h.rely_view hactor hr hv)
  | crashed op =>
    rw [hc] at hfit
    exact hfit

theorem Invariant.past_append (h : Invariant t s) (hg : s.database.Grows s'.database) :
    ∀ p ∈ t ++ [(s, a)], p.1.database.Consistent ∧ p.1.database.Grows s'.database := by
  intro p hp
  rcases List.mem_append.mp hp with hp | hp
  · exact ⟨(h.past p hp).1, (h.past p hp).2.trans hg⟩
  · obtain rfl := List.mem_singleton.mp hp
    exact ⟨h.consistent, hg⟩

/-- A step that concerns one call only. -/
theorem Invariant.step_of (h : Invariant t s) (g : s.database.Guarantee c s'.database)
    (hactor : ∀ x, x ≠ c → a.actor ≠ some x) (hclient : ∀ x, x ≠ c → s'.client x = s.client x)
    (hself : Fits (t ++ [(s, a)]) s' c) : Invariant (t ++ [(s, a)]) s' where
  consistent := g.consistent
  past := h.past_append g.grows
  fits := by
    intro x
    by_cases hx : x = c
    · rw [hx]
      exact hself
    · exact h.fits_other (hactor x hx) (hclient x hx) (g.rely x hx)

/-- Ending the transaction of a call whose client is gone. -/
theorem Invariant.fits_settle (h : Invariant t s) (hr : (s.client c).isRunning = false)
    (hi : (s.database.status c).inProgress) {st : TxStatus} {a : Action}
    (ha : a.actor = none)
    (hu : Unsent s.database c → Unsent (s.database.setStatus c st) c) :
    Fits (t ++ [(s, a)]) { s with database := s.database.setStatus c st } c := by
  have hfit := h.fits c
  rw [Fits] at hfit ⊢
  cases hc : s.client c with
  | idle =>
    rw [hc] at hfit
    have hidle : s.database.status c = .idle := congrArg Footprint.status hfit
    simp [hidle, TxStatus.inProgress] at hi
  | running op p => simp [hc, Client.isRunning] at hr
  | finished op res =>
    rw [hc] at hfit
    refine ⟨written_setStatus hfit.1, ?_, ?_⟩
    · rw [Database.footprint_setStatus]
      exact hfit.2.1
    intro v hv
    have hactor : a.actor ≠ some c := by simp [ha]
    apply (hfit.2.2 _ (h.isView c)).mono
    · rw [hv.mine, mine_append_other hactor]
      exact List.Subset.refl _
    · rw [hv.faulty, faulty_append_other hactor]
      exact id
    · rw [hv.database]
      exact hu
    · intro hcommitted
      exact absurd hcommitted (TxStatus.ne_committed_of_inProgress hi)
  | crashed op =>
    rw [hc] at hfit
    refine ⟨written_setStatus hfit.1, ?_⟩
    rw [Database.footprint_setStatus]
    exact hfit.2

theorem Invariant.fits_invoke (h : Invariant t s) (hc : s.client c = .idle) :
    Fits (t ++ [(s, .invoke c op)]) (s.set s.database c (.running op (program op))) c := by
  have hf : s.database.footprint c = .empty := by
    have := h.fits c
    rwa [Fits, hc] at this
  rw [Fits, set_client_self]
  refine ⟨?_, ?_⟩
  · change Written op (s.database.footprint c)
    rw [hf]
    exact .empty
  · intro v hv
    apply safe_program
    · rw [hv.database]
      exact hf
    · rw [hv.mine, mine_append_own rfl]
      simp

/-- The next statement of a running call is permitted, and what follows keeps its contract. -/
theorem Invariant.step_perform (h : Invariant t s) {e : Effect}
    {next : e.Ans → Program Effect Effect.Ans RepositoryResult} {ans : e.Ans} {db : Database}
    (ha : a.actor = some c) (hc : s.client c = .running op (.call e next))
    (hp : Performs s.database c e (a.faults s c) ans db) :
    Invariant (t ++ [(s, a)]) (s.set db c (.running op (next ans))) := by
  have hfit := h.fits c
  rw [Fits, hc] at hfit
  have hsafe := (hfit.2 _ (h.isView c)).of_call
  have hpre : ∀ stmt, e = .sql stmt → s.database.Permits c stmt ∧
      Authors op (s.database.footprint c) stmt := by
    rintro stmt rfl
    exact hsafe.1
  apply h.step_of (c := c)
  · exact guarantee_performs h.consistent (fun stmt he => (hpre stmt he).1) hp
  · exact fun x hx => actor_other ha hx
  · exact fun x hx => set_client_other hx
  · rw [Fits, set_client_self]
    refine ⟨written_performs hfit.1 hpre hp, ?_⟩
    intro v hv
    apply hsafe.2 ans v
    refine ⟨?_, a.faults s c, ?_, ?_⟩
    · rw [hv.mine, mine_append_own ha]
      rfl
    · rw [hv.faulty, faulty_append]
      rfl
    · rw [hv.database]
      exact hp

/-- A call that is done gives its connection back, and its answer stays explained. -/
theorem Invariant.fits_finish (h : Invariant t s) {rolledBack : Bool}
    (hc : s.client c = .running op (.ret res)) :
    Fits (t ++ [(s, .finish c rolledBack)])
      (s.set (returned s.database c rolledBack) c (.finished op res)) c := by
  have hfit := h.fits c
  rw [Fits, hc] at hfit
  rw [Fits, set_client_self]
  refine ⟨written_returned hfit.1, connections_returned h.consistent, ?_⟩
  intro v hv
  apply (hfit.2 _ (h.isView c)).of_ret.mono
  · rw [hv.mine, mine_append_own rfl]
    exact List.subset_append_left _ _
  · intro hfaulty
    rw [hv.faulty, faulty_append, Bool.or_eq_true]
    exact .inl hfaulty
  · intro hunsent
    rw [hv.database]
    exact unsent_returned hunsent
  · intro hcommitted
    rw [hv.database]
    exact committed_returned hcommitted

theorem Invariant.step (h : Invariant t s) (hm : Moves s a s') : Invariant (t ++ [(s, a)]) s' := by
  cases hm with
  | @invoke c op hc =>
    apply h.step_of (c := c)
    · exact Database.guarantee_refl h.consistent
    · exact fun x hx => actor_other rfl hx
    · exact fun x hx => set_client_other hx
    · exact h.fits_invoke hc
  | perform ha hc hp => exact h.step_perform ha hc hp
  | @finish c op res rolledBack hc =>
    apply h.step_of (c := c)
    · exact guarantee_returned h.consistent rolledBack
    · exact fun x hx => actor_other rfl hx
    · exact fun x hx => set_client_other hx
    · exact h.fits_finish hc
  | @crash c op p hc =>
    have hfit := h.fits c
    rw [Fits, hc] at hfit
    apply h.step_of (c := c)
    · exact Database.guarantee_release h.consistent
    · exact fun x hx => actor_other rfl hx
    · exact fun x hx => set_client_other hx
    · rw [Fits, set_client_self]
      have hw : Written op ((returned s.database c false).footprint c) := written_returned hfit.1
      have hcon : ((returned s.database c false).footprint c).connections = 0 :=
        connections_returned h.consistent
      exact ⟨hw, hcon⟩
  | @settleCommit c hr hs =>
    have hi : (s.database.status c).inProgress := by simp [hs, TxStatus.inProgress]
    apply h.step_of (c := c)
    · exact Database.guarantee_commit h.consistent hi
        ((h.consistent.wellFormed c).complete (.inl hs))
    · simp [Action.actor]
    · exact fun _ _ => rfl
    · exact h.fits_settle hr hi rfl fun hu => absurd hs hu.1
  | @settleAbort c hr hi =>
    apply h.step_of (c := c)
    · exact Database.guarantee_restatus h.consistent hi (by simp) (by simp)
    · simp [Action.actor]
    · exact fun _ _ => rfl
    · exact h.fits_settle hr hi rfl fun _ => by simp [Unsent, Database.setStatus]
  | @tick now hle =>
    have g := Database.guarantee_tick (c := ⟨0, 0⟩) h.consistent now
    constructor
    · exact g.consistent
    · exact h.past_append g.grows
    · intro x
      exact h.fits_other (by simp [Action.actor]) rfl (Database.rely_tick now)

/-- The invariant holds after every run. -/
theorem invariant_of_trace (h : system.Trace t s) : Invariant t s := by
  induction h with
  | start hinit =>
    rcases hinit with ⟨clock, rfl⟩
    exact ⟨Database.consistent_empty clock, by simp, fun _ => rfl⟩
  | step _ hs ih => exact ih.step (step_moves hs)

/-- A call with rows is a put, and its rows carry what it was asked to store. -/
theorem writtenBy_of_version (h : Invariant t s) {v : VersionRow}
    (hv : v ∈ (s.database.footprint c).versions) :
    ∃ r document, (s.client c).op = some (.put r document) ∧
      (s.database.footprint c).WrittenBy r document := by
  have hw : ∀ op, (s.client c).op = some op → Written op (s.database.footprint c) →
      ∃ r document, (s.client c).op = some (.put r document) ∧
        (s.database.footprint c).WrittenBy r document := by
    intro op hop hw
    cases op with
    | put r document => exact ⟨r, document, hop, hw⟩
    | get d n => simp [hw.2.1] at hv
    | search q n => simp [hw.2.1] at hv
  have hfit := h.fits c
  rw [Fits] at hfit
  cases hc : s.client c with
  | idle =>
    rw [hc] at hfit
    simp [hfit, Footprint.empty] at hv
  | running op p =>
    rw [hc] at hfit hw
    exact hw op rfl hfit.1
  | finished op res =>
    rw [hc] at hfit hw
    exact hw op rfl hfit.1
  | crashed op =>
    rw [hc] at hfit hw
    exact hw op rfl hfit.1

theorem consistent_of_reachable (h : system.Reachable s) : s.database.Consistent := by
  rcases h with ⟨t, ht⟩
  exact (invariant_of_trace ht).consistent

end Librarian.Store
