import Librarian.Foundation.Protocol
import Librarian.Foundation.Termination
import Librarian.Process.System

/-! # A lapsed registration is noticed

Once the registration has lapsed no renewal can bring it back and no pass succeeds. After the
round under way the heartbeat stands still, and the probes tell so as soon as it is too old.
-/
namespace Librarian.Process
open Foundation Program System Health

section Protocols

/-- What the process is told once its registration has lapsed. -/
def Rejected : (op : LoopOp) → op.Ans → Prop
  | .lease (.renewLease _) => fun (ans : Except LibrarianError RenewedLease) => ∃ e, ans = .error e
  | .port (.kernel asked) => fun (ans : Except LibrarianError asked.Outcome) => ∃ e, ans = .error e
  | _ => fun _ => True

/-- Under a lapsed registration no success is recorded. -/
def hopeless : Protocol LoopOp LoopOp.Ans Unit where
  rely _ _ := True
  rely_refl _ := trivial
  rely_trans _ _ := trivial
  pre _ op :=
    match op with
    | .recordSuccess _ => False
    | _ => True
  post _ op ans _ := Rejected op ans

/-- The clock is read as it stands. -/
def Shown (now : ℤ) : (op : LoopOp) → op.Ans → Prop
  | .nowSeconds => fun (ans : ℤ) => ans = now
  | _ => fun _ => True

/-- What is recorded is a time the clock has shown. -/
def timely : Protocol LoopOp LoopOp.Ans ℤ where
  rely v w := v ≤ w
  rely_refl v := Int.le_refl v
  rely_trans h h' := Int.le_trans h h'
  pre v op :=
    match op with
    | .recordSuccess at' => 0 ≤ at' ∧ at' ≤ v
    | _ => True
  post v op ans w := v ≤ w ∧ Shown v op ans

abbrev Hopeless {α : Type} (p : Round α) : Prop := p.Safe hopeless (fun _ _ => True) ()

abbrev Timely {α : Type} (p : Round α) (now : ℤ) : Prop := p.Safe timely (fun w _ => now ≤ w) now

variable {config : Config} {lease : Option InstanceLease} {now : ℤ}

theorem hopeless_pause : Hopeless (pause config lease) :=
  Safe.call fun _ _ => ⟨trivial, fun _ _ _ => Safe.ret fun _ _ => trivial⟩

theorem hopeless_renewal : Hopeless (renewal lease) :=
  (Safe.embed (fun _ _ => trivial) fun _ _ _ _ _ => trivial).mono fun _ _ _ => trivial

theorem timely_renewal : Timely (renewal lease) now :=
  Safe.embed (fun _ _ => trivial) fun _ _ _ _ h => h.1

theorem timely_pause : Timely (pause config lease) now := by
  apply Safe.call
  intro v hv
  refine ⟨trivial, ?_⟩
  intro ans w hw
  exact Safe.ret fun x hx => Int.le_trans hv (Int.le_trans hw.1 hx)

theorem timely_recordNow (h : 0 ≤ now) : Timely recordNow now := by
  apply Safe.call
  intro v hv
  refine ⟨trivial, ?_⟩
  rintro ans w ⟨hw, hans⟩
  obtain rfl : ans = v := hans
  apply Safe.call
  intro x hx
  refine ⟨⟨Int.le_trans h hv, Int.le_trans hw hx⟩, ?_⟩
  intro _ y hy
  have hall : now ≤ y := Int.le_trans (Int.le_trans hv hw) (Int.le_trans hx hy.1)
  exact Safe.ret fun z hz => Int.le_trans hall hz

theorem timely_noteResult (h : 0 ≤ now) (result : Except LibrarianError WorkOutcome) :
    Timely (noteResult result) now := by
  cases result with
  | error e => exact Safe.ret fun w hw => hw
  | ok outcome => cases outcome <;> exact timely_recordNow h

variable [UuidText]

theorem timely_pass : Timely (pass config) now :=
  Safe.embed (fun _ _ => trivial) fun _ _ _ _ h => h.1

omit [UuidText] in
/-- Parts of a round that start later are timely for the whole. -/
theorem Timely.later {α : Type} {p : Round α} {v : ℤ} (h : Timely p v) (hv : now ≤ v) :
    p.Safe timely (fun w _ => now ≤ w) v :=
  h.mono fun _ _ hw => Int.le_trans hv hw

theorem timely_round (h : 0 ≤ now) : Timely (round config lease) now := by
  apply timely_renewal.bind
  intro v lease hv
  apply (timely_pass.later hv).bind
  intro w result hw
  apply ((timely_noteResult (Int.le_trans h hw) result).later hw).bind
  intro x _ hx
  exact timely_pause.later hx

/-- A pass whose first call is refused is over. -/
theorem pass_refused (config : Config) : ∃ next,
    pass config = .call (.port (.kernel .eligibleRoutes)) next ∧ ∀ e, next (.error e) = .ret (.error e) :=
  ⟨_, rfl, fun _ => rfl⟩

theorem hopeless_round : Hopeless (round config lease) := by
  apply hopeless_renewal.bind
  intro _ lease _
  rcases pass_refused config with ⟨next, hpass, hnext⟩
  rw [hpass]
  apply Safe.call
  intro _ _
  refine ⟨trivial, ?_⟩
  rintro _ _ ⟨e, rfl⟩
  rw [hnext]
  exact hopeless_pause

end Protocols

section Length
variable [UuidText] {config : Config} {lease : Option InstanceLease}

omit [UuidText] in
theorem costs_kernel (asked : KernelCall) (n : ℕ) :
    Costs (fun _ => n) (ExceptT.mk (.call (.kernel asked) .ret) : Work asked.Outcome) (n + 1) := by
  rw [Costs]
  refine spends_call.mpr ⟨Nat.succ_pos n, fun (ans : Except LibrarianError asked.Outcome) => ?_⟩
  cases ans with
  | ok outcome => exact spends_ret.mpr (Nat.le_refl n)
  | error e => exact spends_ret.mpr (Nat.zero_le n)

/-- A dispatch makes one call at most, whatever it returns. -/
theorem spends_dispatch (action : String) (id : Uuid) (scope : String) :
    (dispatch action id scope).run.Spends (fun _ => 1) 2 := by
  have hthrow : ∀ e, (throw e : Work DispatchOutcome).run.Spends (fun _ => 1) 2 :=
    fun _ => spends_ret.mpr (by decide)
  rw [dispatch]
  split
  · refine spends_call.mpr ⟨by decide, fun ans => ?_⟩
    cases ans <;> exact spends_ret.mpr (Nat.le_refl 1)
  · split
    · cases parseGetScope scope with
      | error e => exact hthrow e
      | ok target =>
        refine spends_call.mpr ⟨by decide, fun ans => ?_⟩
        cases ans <;> exact spends_ret.mpr (Nat.le_refl 1)
    · split
      · refine spends_call.mpr ⟨by decide, fun ans => ?_⟩
        cases ans <;> exact spends_ret.mpr (Nat.le_refl 1)
      · exact hthrow _

theorem costs_performRequest (routeId : String) (claim : WorkClaim) (request : RoutedRequest) :
    Costs (fun _ => 0) (performRequest routeId claim request) 2 := by
  have hcomplete := costs_kernel (.completeClaim claim.claimId claim.fencingToken) 0
  cases hid : requestUuid request with
  | error e =>
    rw [performRequest, hid]
    exact costs_throw e 2
  | ok id =>
    have hattempt : ∀ id, Costs (fun _ => 1)
        (Work.attempt (dispatch request.action id request.scope)) 2 := by
      intro id
      rw [Costs]
      exact (spends_dispatch _ _ _).bind fun res => spends_ret.mpr (Nat.le_refl 1)
    have hlift : Costs (fun _ => 2) (liftM (Except.ok id : Except LibrarianError Uuid) : Work Uuid) 2 :=
      costs_pure (Nat.le_refl 2)
    rw [performRequest, hid]
    apply hlift.bind
    intro id
    apply (hattempt id).bind
    intro dispatched
    cases dispatched with
    | ok outcome =>
      apply hcomplete.bind
      intro completed
      cases completed <;> exact costs_pure (Nat.le_refl 0)
    | error e =>
      cases e with
      | unknownAction action => exact hcomplete.bind fun _ => costs_pure (Nat.le_refl 0)
      | _ => exact costs_throw _ 1

theorem costs_workOnce (leaseSeconds : ℤ) : Costs (fun _ => 0) (workOnce leaseSeconds) 5 := by
  apply (costs_kernel .eligibleRoutes 4).bind
  intro routes
  cases routes with
  | nil => exact costs_pure (Nat.zero_le 4)
  | cons route routes =>
    apply (costs_kernel (.proposeClaim route.routeId leaseSeconds) 3).bind
    intro claimed
    cases claimed with
    | claimed claim =>
      apply (costs_kernel (.routedRequest route.routeId) 2).bind
      intro request
      cases request with
      | found request => exact costs_performRequest _ claim request
      | notFound => exact costs_pure (Nat.zero_le 2)
    | alreadyClaimed => exact costs_pure (Nat.zero_le 3)
    | routeNotFound => exact costs_pure (Nat.zero_le 3)

/-- The most steps one round takes. -/
def roundBound : ℕ := 10

theorem atMost_round : (round config lease).AtMost roundBound := by
  have hrenewal : ∀ lease, (renewLeaseIfDue lease).Spends (fun _ => 8) 10 := by
    intro lease
    cases lease with
    | none => exact spends_ret.mpr (by decide)
    | some lease =>
      refine spends_call.mpr ⟨by decide, fun now => ?_⟩
      split
      · exact spends_ret.mpr (by decide)
      · exact spends_call.mpr ⟨by decide, fun ans => spends_ret.mpr (by decide)⟩
  have hpass : (workOnce config.leaseSeconds).run.Spends (fun _ => 3) 8 := by
    have hwork := costs_workOnce config.leaseSeconds
    rw [Costs] at hwork
    exact hwork.shift (k := 3) fun _ => by omega
  have hnote : ∀ result, (noteResult result).Spends (fun _ => 1) 3 := by
    intro result
    have hrecord : recordNow.Spends (fun _ => 1) 3 :=
      spends_call.mpr ⟨by decide, fun _ =>
        spends_call.mpr ⟨by decide, fun _ => spends_ret.mpr (Nat.le_refl 1)⟩⟩
    cases result with
    | error e => exact spends_ret.mpr (by decide)
    | ok outcome => cases outcome <;> exact hrecord
  have hpause : ∀ lease, (pause config lease).AtMost 1 :=
    fun lease => spends_call.mpr ⟨by decide, fun _ => spends_ret.mpr (Nat.le_refl 0)⟩
  exact (hrenewal lease).embed.bind fun lease => hpass.embed.bind fun result =>
    (hnote result).bind fun _ => hpause lease

end Length

section Steps
variable [UuidText] {config : Config} {s s' : State} {a : Action}

omit [UuidText] in
theorem parse_unauthorized {asked : KernelCall} {response : Response asked.Body}
    (h : response.status = 401) : asked.parse response = .error (.unexpectedStatus 401) := by
  rcases response with ⟨status, body⟩
  obtain rfl : status = 401 := h
  cases asked <;> rfl

omit [UuidText] in
theorem renew_lapsed (h : s.Lapsed) (expected expiry : ℤ) :
    s.registration.renew s.clock expected expiry = (s.registration, ⟨401, .error ""⟩) := by
  rw [Registration.renew]
  exact if_pos h

omit [UuidText] in
/-- What comes of one step of the loop under a lapsed registration. -/
theorem Answered.of_lapsed {op : LoopOp} {ans : op.Ans} (h : Answered s op ans s')
    (hl : s.Lapsed) : Rejected op ans ∧ s'.Lapsed := by
  cases h with
  | renewed expected expiry delivered =>
    rw [renew_lapsed hl]
    refine ⟨?_, hl⟩
    cases delivered <;> exact ⟨_, rfl⟩
  | renewalLost => exact ⟨⟨_, rfl⟩, hl⟩
  | kernel response h401 => exact ⟨⟨_, parse_unauthorized (h401 hl)⟩, hl⟩
  | kernelLost => exact ⟨⟨_, rfl⟩, hl⟩
  | _ => exact ⟨trivial, hl⟩

/-- A lapsed registration is never renewed. -/
theorem Moves.lapsed (hm : Moves config s a s') (h : s.Lapsed) : s'.Lapsed := by
  cases hm with
  | tick hnow => exact Int.le_trans h hnow
  | again => exact h
  | answered _ ha => exact (ha.of_lapsed h).2
  | late expected expiry =>
    change (s.registration.renew s.clock expected expiry).1.current.leaseExpiresAt ≤ s.clock
    rw [renew_lapsed h]
    exact h

/-- The process has no way left to record a success. -/
structure Doomed (s : State) : Prop where
  lapsed : s.Lapsed
  hopeless : s.rest.Safe hopeless (fun _ _ => True) ()

/-- So its heartbeat stands still. -/
theorem Doomed.step (h : Doomed s) (hm : Moves config s a s') :
    Doomed s' ∧ s'.heartbeat = s.heartbeat := by
  cases hm with
  | tick hnow hmax =>
    exact ⟨⟨(Moves.tick hnow hmax : Moves config s _ _).lapsed h.lapsed, h.hopeless⟩, rfl⟩
  | again => exact ⟨⟨h.lapsed, hopeless_round⟩, rfl⟩
  | @answered _ op next ans s' hrest ha =>
    have hp := h.hopeless
    rw [hrest] at hp
    rcases Safe.of_call hp with ⟨hpre, hnext⟩
    rcases ha.of_lapsed h.lapsed with ⟨hrejected, hlapsed⟩
    refine ⟨⟨hlapsed, hnext ans () hrejected⟩, ?_⟩
    cases ha with
    | recordSuccess => exact hpre.elim
    | _ => rfl
  | late expected expiry =>
    exact ⟨⟨(Moves.late expected expiry : Moves config s _ _).lapsed h.lapsed, h.hopeless⟩, rfl⟩

/-- What holds in every reachable state: the heartbeat is a time the clock has shown, and what is
left of the round is short and records the present time only. -/
structure Invariant (s : State) : Prop where
  heartbeat : 0 ≤ s.heartbeat.value ∧ s.heartbeat.value ≤ s.clock
  clock : s.clock ≤ Postgres.i64Max
  records : ∃ v, 0 ≤ v ∧ s.rest.Safe timely (fun w _ => v ≤ w) s.clock
  short : s.rest.AtMost roundBound

theorem Invariant.step (h : Invariant s) (hm : Moves config s a s') : Invariant s' := by
  have hnow : 0 ≤ s.clock := Int.le_trans h.heartbeat.1 h.heartbeat.2
  rcases h.records with ⟨v, hv, htimely⟩
  cases hm with
  | tick hle hmax =>
    exact ⟨⟨h.heartbeat.1, Int.le_trans h.heartbeat.2 hle⟩, hmax, ⟨v, hv, htimely.stable hle⟩, h.short⟩
  | again => exact ⟨h.heartbeat, h.clock, ⟨s.clock, hnow, timely_round hnow⟩, atMost_round⟩
  | @answered _ op next ans s' hrest ha =>
    have hshort := h.short
    rw [hrest] at htimely hshort
    rcases Safe.of_call htimely with ⟨hpre, hnext⟩
    have hrest' : (next ans).AtMost roundBound := by
      exact ((spends_call.mp hshort).2 ans).mono (by decide)
    have hsafe : Shown s.clock op ans → (next ans).Safe timely (fun w _ => v ≤ w) s.clock :=
      fun hshown => hnext ans s.clock ⟨Int.le_refl _, hshown⟩
    cases ha with
    | nowSeconds => exact ⟨h.heartbeat, h.clock, ⟨v, hv, hsafe rfl⟩, hrest'⟩
    | recordSuccess at' => exact ⟨hpre, h.clock, ⟨v, hv, hsafe trivial⟩, hrest'⟩
    | _ => exact ⟨h.heartbeat, h.clock, ⟨v, hv, hsafe trivial⟩, hrest'⟩
  | late expected expiry => exact ⟨h.heartbeat, h.clock, ⟨v, hv, htimely⟩, h.short⟩

theorem invariant_of_reachable (h : (system config).Reachable s) : Invariant s := by
  apply h.invariant
  · rintro s ⟨hclock, hmax, hnew, lease, hrest⟩
    refine ⟨?_, hmax, ⟨s.clock, hclock, ?_⟩, ?_⟩
    · rw [hnew]
      exact ⟨Int.le_refl 0, hclock⟩
    · rw [hrest]
      exact timely_round hclock
    · rw [hrest]
      exact atMost_round
  · exact fun s a s' _ hs hstep => hs.step (step_moves hstep)

end Steps

section Runs
variable [UuidText] {config : Config} {t : List (State × Action)} {s : State} {i j k : ℕ}

/-- The actions of the loop itself. -/
def Action.isOwn : Action → Bool
  | .tick _ | .late _ _ => false
  | _ => true

/-- How many steps the loop takes from the `i`-th state of a run to its `j`-th. -/
def ownSteps (t : List (State × Action)) (i j : ℕ) : ℕ :=
  ((t.take j).drop i).countP fun p => p.2.isOwn

theorem lapsed_of_le (h : (system config).Trace t s) (hij : i ≤ j)
    (hl : (stateAt t s i).Lapsed) : (stateAt t s j).Lapsed := by
  have hmono := h.monotone (R := fun x y => x.Lapsed → y.Lapsed) (fun _ h => h)
    (fun h h' hx => h' (h hx)) (fun _ _ _ _ hs => (step_moves hs).lapsed) hij
  exact hmono hl

theorem doomed_of_le (h : (system config).Trace t s) (hij : i ≤ j)
    (hd : Doomed (stateAt t s i)) :
    Doomed (stateAt t s j) ∧ (stateAt t s j).heartbeat = (stateAt t s i).heartbeat := by
  have hmono := h.monotone (R := fun x y => Doomed x → Doomed y ∧ y.heartbeat = x.heartbeat)
    (fun _ h => ⟨h, rfl⟩) (fun h h' hx => ⟨(h' (h hx).1).1, (h' (h hx).1).2.trans (h hx).2⟩)
    (fun _ _ _ _ hs hx => hx.step (step_moves hs)) hij
  exact hmono hd

omit [UuidText] in
theorem ownSteps_self : ownSteps t i i = 0 := by
  rw [ownSteps, List.drop_eq_nil_of_le (by simp)]
  rfl

omit [UuidText] in
theorem ownSteps_succ (hij : i ≤ j) {x : State} {a : Action} (hj : t[j]? = some (x, a)) :
    ownSteps t i (j + 1) = ownSteps t i j + if a.isOwn then 1 else 0 := by
  rcases List.getElem?_eq_some_iff.mp hj with ⟨hlt, hget⟩
  have htake : t.take (j + 1) = t.take j ++ [(x, a)] := by
    rw [List.take_succ_eq_append_getElem hlt, hget]
  rw [ownSteps, htake, List.drop_append_of_le_length (by rw [List.length_take]; omega),
    List.countP_append]
  simp [ownSteps]

/-- After a lapse the process is doomed as soon as it has done more steps than one round takes. -/
theorem doomed_of_ownSteps (h : (system config).Trace t s) (hij : i ≤ j) (hj : j ≤ t.length)
    (hl : (stateAt t s i).Lapsed) (hown : roundBound < ownSteps t i j) :
    Doomed (stateAt t s j) := by
  have hleft : j ≤ t.length → Doomed (stateAt t s j) ∨
      ∃ n, (stateAt t s j).rest.AtMost n ∧ n + ownSteps t i j ≤ roundBound := by
    clear hown hj
    induction hij with
    | refl =>
      intro _
      rw [ownSteps_self]
      exact .inr ⟨roundBound, (invariant_of_reachable (h.reachable_at i)).short, Nat.le_refl _⟩
    | @step j hij ih =>
      intro hj
      rcases exists_action s hj with ⟨a, ha⟩
      have hm := step_moves (h.step_at ha)
      have hlapsed := lapsed_of_le h (Nat.le_succ_of_le hij) hl
      rcases ih (by omega) with hd | ⟨n, hn, hle⟩
      · exact .inl (hd.step hm).1
      · rw [ownSteps_succ hij ha]
        generalize stateAt t s j = x at hm hn
        generalize stateAt t s (j + 1) = y at hm hlapsed
        cases hm with
        | tick => exact .inr ⟨n, hn, hle⟩
        | again => exact .inl ⟨hlapsed, hopeless_round⟩
        | answered hrest =>
          rw [hrest] at hn
          rcases spends_call.mp hn with ⟨hpos, hnext⟩
          refine .inr ⟨n - 1, hnext _, ?_⟩
          split <;> omega
        | late => exact .inr ⟨n, hn, hle⟩
  rcases hleft hj with hd | ⟨n, -, hle⟩
  · exact hd
  · omega

omit [UuidText] in
theorem Invariant.age (h : Invariant s) : s.heartbeat.age s.clock =
    if s.heartbeat.value = 0 then none else some (s.clock - s.heartbeat.value) := by
  rw [Heartbeat.age, Heartbeat.saturatingSub_eq h.heartbeat.1 h.heartbeat.2 h.clock]

omit [UuidText] in
/-- How the probes of a reachable state answer, by the age of the heartbeat. -/
theorem Invariant.probe_live (h : Invariant s) {request : String} (databaseReachable : Bool)
    (hpath : requestPath request = livePath) :
    (probe .default s.heartbeat s.clock databaseReachable request).1 = ok ↔
      s.heartbeat.value = 0 ∨ s.clock - s.heartbeat.value ≤ 150 := by
  have hage := h.age
  rw [Health.probe_live hpath]
  by_cases hzero : s.heartbeat.value = 0
  · rw [if_pos hzero] at hage
    rw [evaluate_live_starting hage]
    exact iff_of_true rfl (.inl hzero)
  · rw [if_neg hzero] at hage
    rw [evaluate_live_some hage]
    by_cases hle : s.clock - s.heartbeat.value ≤ 150
    · exact iff_of_true (if_pos hle) (.inr hle)
    · refine iff_of_false ?_ (by simp [hzero, hle])
      exact fun hok => ok_ne_unavailable (hok.symm.trans (if_neg hle))

omit [UuidText] in
theorem Invariant.probe_ready (h : Invariant s) {request : String} (databaseReachable : Bool)
    (hpath : requestPath request = readyPath) :
    (probe .default s.heartbeat s.clock databaseReachable request).1 = ok ↔
      databaseReachable = true ∧ s.heartbeat.value ≠ 0 ∧ s.clock - s.heartbeat.value ≤ 30 := by
  have hage := h.age
  rw [probe_of_ready hpath]
  by_cases hzero : s.heartbeat.value = 0
  · rw [if_pos hzero] at hage
    rw [evaluate_ready_starting hage]
    exact iff_of_false ok_ne_unavailable.symm fun hready => hready.2.1 hzero
  · rw [if_neg hzero] at hage
    rw [evaluate_ready_some hage]
    by_cases hready : databaseReachable = true ∧ s.clock - s.heartbeat.value ≤ 30
    · exact iff_of_true (if_pos hready) ⟨hready.1, hzero, hready.2⟩
    · refine iff_of_false ?_ fun hall => hready ⟨hall.1, hall.2.2⟩
      exact fun hok => ok_ne_unavailable (hok.symm.trans (if_neg hready))

/-- What follows from a lapse of the registration. -/
structure Noticed (t : List (State × Action)) (s : State) : Prop where
  permanent : ∀ i j, i ≤ j → (stateAt t s i).Lapsed → (stateAt t s j).Lapsed
  frozen : ∀ i j k, i ≤ j → j ≤ k → j ≤ t.length → (stateAt t s i).Lapsed →
    roundBound < ownSteps t i j → (stateAt t s k).heartbeat = (stateAt t s j).heartbeat
  live : ∀ i j k request databaseReachable, i ≤ j → j ≤ k → j ≤ t.length →
    (stateAt t s i).Lapsed → roundBound < ownSteps t i j → requestPath request = livePath →
    ((probe .default (stateAt t s k).heartbeat (stateAt t s k).clock databaseReachable request).1 =
      ok ↔ (stateAt t s j).heartbeat.value = 0 ∨
        (stateAt t s k).clock - (stateAt t s j).heartbeat.value ≤ 150)
  ready : ∀ i j k request databaseReachable, i ≤ j → j ≤ k → j ≤ t.length →
    (stateAt t s i).Lapsed → roundBound < ownSteps t i j → requestPath request = readyPath →
    ((probe .default (stateAt t s k).heartbeat (stateAt t s k).clock databaseReachable request).1 =
      ok ↔ databaseReachable = true ∧ (stateAt t s j).heartbeat.value ≠ 0 ∧
        (stateAt t s k).clock - (stateAt t s j).heartbeat.value ≤ 30)

/-- A lapse is permanent, and after eleven more steps of the loop the probes show it: a process
that once succeeded is no longer ready after thirty seconds and no longer live after 150. -/
theorem noticed_of_trace (h : (system config).Trace t s) : Noticed t s := by
  have hfrozen : ∀ {i j k}, i ≤ j → j ≤ k → j ≤ t.length → (stateAt t s i).Lapsed →
      roundBound < ownSteps t i j → (stateAt t s k).heartbeat = (stateAt t s j).heartbeat := by
    intro i j k hij hjk hj hl hown
    exact (doomed_of_le h hjk (doomed_of_ownSteps h hij hj hl hown)).2
  constructor
  case permanent => exact fun i j hij hl => lapsed_of_le h hij hl
  case frozen => exact fun i j k hij hjk hj hl hown => hfrozen hij hjk hj hl hown
  case live =>
    intro i j k request databaseReachable hij hjk hj hl hown hpath
    have hprobe := (invariant_of_reachable (h.reachable_at k)).probe_live databaseReachable hpath
    rwa [hfrozen hij hjk hj hl hown] at hprobe ⊢
  case ready =>
    intro i j k request databaseReachable hij hjk hj hl hown hpath
    have hprobe := (invariant_of_reachable (h.reachable_at k)).probe_ready databaseReachable hpath
    rwa [hfrozen hij hjk hj hl hown] at hprobe ⊢

end Runs

theorem noticed_lapsedRun : ∃ s, System.run (@step sampleUuidText ⟨300, 5⟩) enrolled lapsedRun = some s ∧
    Noticed (System.record (@step sampleUuidText ⟨300, 5⟩) enrolled lapsedRun) s := by
  rcases trace_lapsedRun with ⟨s, hrun, htrace⟩
  exact ⟨s, hrun, @noticed_of_trace sampleUuidText ⟨300, 5⟩ _ _ htrace⟩

end Librarian.Process
