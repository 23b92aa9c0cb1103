import Librarian.Foundation.Transition
import Librarian.Health
import Librarian.WorkOnce

/-! # The loop and its heartbeat

The loop of `run` under a clock that never goes back. A pass is one action at the moment it
finishes, with the whole talk it had; between two actions anyone may probe.
-/
namespace Librarian.Liveness
open Foundation Health
open Program (Runs)

structure State where
  clock : ℤ
  heartbeat : Heartbeat

abbrev PassResult := Except LibrarianError WorkOutcome

inductive Action where
  | tick (now : ℤ)
  | pass (talk : Talk) (result : PassResult)

def afterPass (heartbeat : Heartbeat) (now : ℤ) : PassResult → Heartbeat
  | .ok .nothingEligible => heartbeat.recordSuccess now
  | .ok _ => heartbeat.recordSuccess now
  | .error _ => heartbeat

section Loop
variable [UuidText]

inductive Step (leaseSeconds : ℤ) (s : State) : Action → State → Prop
  | tick {now : ℤ} (h : s.clock ≤ now) (hmax : now ≤ Postgres.i64Max) :
      Step leaseSeconds s (.tick now) { s with clock := now }
  | pass {talk : Talk} {result : PassResult}
      (h : Runs (workOnce leaseSeconds).run talk result) :
      Step leaseSeconds s (.pass talk result)
        { s with heartbeat := afterPass s.heartbeat s.clock result }

def system (leaseSeconds : ℤ) : System State Action where
  init s := 0 ≤ s.clock ∧ s.clock ≤ Postgres.i64Max ∧ s.heartbeat = .new
  step := Step leaseSeconds

structure Finished where
  time : ℤ
  talk : Talk
  result : PassResult

def finished (t : List (State × Action)) : List Finished :=
  t.filterMap fun p => match p.2 with
    | .pass talk result => some ⟨p.1.clock, talk, result⟩
    | .tick _ => none

/-- When the last pass with a property finished. -/
def lastTime (good : Finished → Bool) (t : List (State × Action)) : Option ℤ :=
  ((finished t).filter good).getLast?.map (·.time)

def lastOk (t : List (State × Action)) : Option ℤ := lastTime (fun f => f.result.isOk) t

section Clean

/-- The kernel answered, and with a request id that is a UUID. -/
def answered : (op : PortOp) → op.Ans → Bool
  | .kernel (.routedRequest _) => fun (ans : Except LibrarianError RoutedRequestOutcome) =>
    match ans with
    | .ok (.found request) => (UuidText.parse request.requestId).isSome
    | .ok .notFound => true
    | .error _ => false
  | .kernel call => fun (ans : Except LibrarianError call.Outcome) => ans.isOk
  | .repository _ => fun _ => true

theorem not_answered {call : KernelCall} {e : LibrarianError} :
    answered (.kernel call) (.error e) = false := by
  cases call <;> rfl

/-- The request of a route can be dispatched: the scope of a get is well formed. -/
def wellFormed (request : RoutedRequest) : Bool :=
  request.action ≠ getAction || (parseGetScope request.scope).isOk

def clean : (op : PortOp) → op.Ans → Bool
  | .repository (.put _ _) => fun (ans : Except DocumentError PutOutcome) => ans.isOk
  | .repository (.get _ _) => fun (ans : Except DocumentError DocumentVersion) => ans.isOk
  | .repository (.search _ _) => fun (ans : Except DocumentError (List SearchHit)) => ans.isOk
  | .kernel (.routedRequest _) => fun (ans : Except LibrarianError RoutedRequestOutcome) =>
    match ans with
    | .ok (.found request) => wellFormed request
    | _ => true
  | .kernel _ => fun _ => true

def isClean (talk : Talk) : Bool := talk.all fun p => clean p.1 p.2

variable {leaseSeconds : ℤ} {talk : Talk} {routeId : String} {claim : WorkClaim}
  {request : RoutedRequest} {id : Uuid}

/-- Results of `dispatch` after which the claim is completed. -/
def completes : Except LibrarianError DispatchOutcome → Bool
  | .ok _ | .error (.unknownAction _) => true
  | .error _ => false

omit [UuidText] in
theorem completes_document {α : Type} (ans : Except DocumentError α) (f : α → DispatchOutcome) :
    completes ((ans.mapError .document).map f) = ans.isOk := by
  cases ans <;> rfl

theorem completes_iff {res : Except LibrarianError DispatchOutcome}
    (h : DispatchRuns request.action id request.scope talk res) :
    completes res = (wellFormed request && isClean talk) := by
  have hget : ∀ x, x ≠ getAction → request.action = x → wellFormed request = true := by
    intro x hx hr
    simp [wellFormed, hr, hx]
  cases h with
  | put ha ans =>
    rw [completes_document, hget _ (by decide) ha]
    simp [isClean, clean]
  | malformed ha hs =>
    rcases parseGetScope_error hs with ⟨reason, rfl⟩
    simp [completes, wellFormed, ha, hs, Except.isOk, Except.toBool]
  | get ha hs ans =>
    rw [completes_document]
    simp [wellFormed, isClean, clean, ha, hs, Except.isOk, Except.toBool]
  | search ha ans =>
    rw [completes_document, hget _ (by decide) ha]
    simp [isClean, clean]
  | unknown ha =>
    have hne : request.action ≠ getAction := by
      intro hr
      exact ha (by simp [actions, hr])
    simp [completes, wellFormed, hne, isClean]

theorem isClean_append (first last : Talk) :
    isClean (first ++ last) = (isClean first && isClean last) := List.all_append

theorem isOk_performRequest {res : PassResult} (h : PerformRuns routeId claim request talk res)
    (hid : (UuidText.parse request.requestId).isSome)
    (hk : ∀ p ∈ talk, answered p.1 p.2) : res.isOk = (wellFormed request && isClean talk) := by
  have hcompleted : ∀ {first : Talk} {ans : Except LibrarianError CompleteOutcome}
      {f : CompleteOutcome → WorkOutcome}, (∀ p ∈ first ++
        [⟨.kernel (.completeClaim claim.claimId claim.fencingToken), ans⟩], answered p.1 p.2) →
      (ans.map f).isOk = true := by
    intro first ans f hall
    have hlast := hall _ (List.mem_append_right _ (List.mem_singleton_self _))
    cases ans with
    | error e => cases hlast
    | ok outcome => rfl
  cases h with
  | malformed he =>
    rcases Option.isSome_iff_exists.mp hid with ⟨id, hid⟩
    simp [requestUuid, hid] at he
  | @failed id talk e _ hd hne =>
    rw [← completes_iff hd]
    cases e with
    | unknownAction action => exact absurd rfl (hne action)
    | _ => rfl
  | unknown _ hd ans =>
    rw [hcompleted hk, isClean_append, ← Bool.and_assoc, ← completes_iff hd]
    rfl
  | performed _ hd ans =>
    rw [hcompleted hk, isClean_append, ← Bool.and_assoc, ← completes_iff hd]
    rfl

/-- With a kernel that answers, a pass succeeds exactly when it was clean. -/
theorem isOk_iff_isClean {res : PassResult} (h : PassRuns leaseSeconds talk res)
    (hk : ∀ p ∈ talk, answered p.1 p.2) : res.isOk = isClean talk := by
  cases h with
  | noAnswer => exact absurd (hk _ List.mem_cons_self) (by simp [not_answered])
  | nothingEligible => rfl
  | noClaim => exact absurd (hk _ (List.mem_cons_of_mem _ List.mem_cons_self)) (by simp [not_answered])
  | claimLost => rfl
  | claimed hr =>
    cases hr with
    | noAnswer =>
      have hlast := hk _ (List.mem_cons_of_mem _ (List.mem_cons_of_mem _ List.mem_cons_self))
      exact absurd hlast (by simp [not_answered])
    | unavailable => rfl
    | @found request talk _ hp =>
      have hid := hk _ (List.mem_cons_of_mem _ (List.mem_cons_of_mem _ List.mem_cons_self))
      rw [isOk_performRequest hp hid fun p hp => hk p (by simp [hp])]
      simp [isClean, clean]

end Clean

section Heartbeat
variable {leaseSeconds : ℤ} {t : List (State × Action)} {s : State} {good : Finished → Bool}

omit [UuidText] in
theorem finished_append {a : Action} : finished (t ++ [(s, a)]) = finished t ++ finished [(s, a)] :=
  List.filterMap_append

omit [UuidText] in
theorem lastTime_tick {now : ℤ} : lastTime good (t ++ [(s, .tick now)]) = lastTime good t := by
  rw [lastTime, finished_append]
  simp [lastTime, finished]

omit [UuidText] in
theorem lastTime_pass {talk : Talk} {result : PassResult} :
    lastTime good (t ++ [(s, .pass talk result)]) =
      if good ⟨s.clock, talk, result⟩ then some s.clock else lastTime good t := by
  rw [lastTime, finished_append]
  by_cases hg : good ⟨s.clock, talk, result⟩ = true <;> simp [lastTime, finished, hg]

omit [UuidText] in
theorem lastTime_congr {good' : Finished → Bool} (h : ∀ f ∈ finished t, good f = good' f) :
    lastTime good t = lastTime good' t := by
  rw [lastTime, lastTime, List.filter_congr h]

omit [UuidText] in
theorem afterPass_value {heartbeat : Heartbeat} {now : ℤ} {result : PassResult} :
    (afterPass heartbeat now result).value = if result.isOk then now else heartbeat.value := by
  cases result with
  | error e => rfl
  | ok outcome => cases outcome <;> rfl

/-- The heartbeat holds the time of the last pass that returned `Ok`, and never runs ahead of
the clock. -/
structure Invariant (t : List (State × Action)) (s : State) : Prop where
  clock : 0 ≤ s.clock ∧ s.clock ≤ Postgres.i64Max
  heartbeat : s.heartbeat.value = (lastOk t).getD 0
  past : ∀ time, lastOk t = some time → (System.stateAt t s 0).clock ≤ time ∧ time ≤ s.clock
  started : (System.stateAt t s 0).clock ≤ s.clock
  start : 0 ≤ (System.stateAt t s 0).clock

theorem invariant_of_trace (h : (system leaseSeconds).Trace t s) : Invariant t s := by
  induction h with
  | start h =>
    rcases h with ⟨h0, hmax, hnew⟩
    exact ⟨⟨h0, hmax⟩, by rw [hnew]; rfl, by simp [lastOk, lastTime, finished], Int.le_refl _, h0⟩
  | @step t s s' a h hs ih =>
    have hzero : System.stateAt (t ++ [(s, a)]) s' 0 = System.stateAt t s 0 :=
      System.stateAt_append (Nat.zero_le _)
    cases hs with
    | tick hle hmax =>
      constructor
      · have := ih.clock
        exact ⟨by simp only; omega, hmax⟩
      · rw [lastOk, lastTime_tick]
        exact ih.heartbeat
      · intro time ht
        rw [lastOk, lastTime_tick] at ht
        have := ih.past time ht
        rw [hzero]
        exact ⟨this.1, by simp only; omega⟩
      · rw [hzero]
        have := ih.started
        simp only
        omega
      · rw [hzero]
        exact ih.start
    | pass hr =>
      constructor
      · exact ih.clock
      · rw [lastOk, lastTime_pass, afterPass_value, ih.heartbeat]
        split <;> rfl
      · intro time ht
        rw [lastOk, lastTime_pass] at ht
        rw [hzero]
        split at ht
        · cases ht
          exact ⟨ih.started, Int.le_refl _⟩
        · exact ih.past time ht
      · rw [hzero]
        exact ih.started
      · rw [hzero]
        exact ih.start

/-- Every liveness probe answers with this status, whatever the request says otherwise and
whether the database can be reached or not. -/
def Answers (thresholds : Thresholds) (s : State) (status : String) : Prop :=
  ∀ request databaseReachable, requestPath request = livePath →
    (probe thresholds s.heartbeat s.clock databaseReachable request).1 = status

variable {thresholds : Thresholds}

omit [UuidText] in
theorem answers_iff {status : String} : Answers thresholds s status ↔
    (evaluate livePath s.heartbeat true thresholds s.clock).1 = status := by
  constructor
  · intro h
    have hget := h "GET /health/live HTTP/1.1" true requestPath_get
    rwa [probe_live requestPath_get] at hget
  · intro h request databaseReachable hpath
    rwa [probe_live hpath]

omit [UuidText] in
theorem age_of_invariant (h : Invariant t s) {time : ℤ} (ht : lastOk t = some time)
    (hne : time ≠ 0) : s.heartbeat.age s.clock = some (s.clock - time) := by
  have hvalue : s.heartbeat.value = time := by simp [h.heartbeat, ht]
  have hpast := h.past time ht
  have hstart := h.start
  rw [Heartbeat.age, hvalue, if_neg hne,
    Heartbeat.saturatingSub_eq (by omega) hpast.2 h.clock.2]

omit [UuidText] in
theorem age_of_none (h : Invariant t s) (ht : ∀ time, lastOk t = some time → time = 0) :
    s.heartbeat.age s.clock = none := by
  have hvalue : s.heartbeat.value = 0 := by
    rw [h.heartbeat]
    cases hl : lastOk t with
    | none => rfl
    | some time => exact ht time hl
  rw [Heartbeat.age, if_pos hvalue]

omit [UuidText] in
/-- The service counts as live while its last successful pass is recent, or before the first. -/
theorem answers_ok_iff (h : Invariant t s) : Answers thresholds s ok ↔
    ∀ time, lastOk t = some time → time = 0 ∨ s.clock - time ≤ thresholds.liveStaleSeconds := by
  rw [answers_iff]
  by_cases hzero : ∀ time, lastOk t = some time → time = 0
  · rw [evaluate_live_starting (age_of_none h hzero)]
    exact ⟨fun _ time ht => .inl (hzero time ht), fun _ => rfl⟩
  · push Not at hzero
    rcases hzero with ⟨time, ht, hne⟩
    rw [evaluate_live_some (age_of_invariant h ht hne)]
    constructor
    · intro hok time' ht'
      rw [ht] at ht'
      cases ht'
      by_contra hnot
      push Not at hnot
      rw [if_neg (by omega)] at hok
      exact ok_ne_unavailable hok.symm
    · intro hrecent
      rcases hrecent time ht with h0 | hle
      · exact absurd h0 hne
      · rw [if_pos hle]

end Heartbeat

section Passes
variable {leaseSeconds : ℤ} {t : List (State × Action)} {s : State}

/-- Every kernel call of every pass returned `Ok`, and request ids were UUIDs. -/
def KernelAnswers (t : List (State × Action)) : Prop :=
  ∀ f ∈ finished t, ∀ p ∈ f.talk, answered p.1 p.2

def lastClean (t : List (State × Action)) : Option ℤ := lastTime (fun f => isClean f.talk) t

/-- Some pass finished in the last `live_stale_seconds`, at every moment of the run. -/
def Frequent (thresholds : Thresholds) (t : List (State × Action)) (s : State) : Prop :=
  ∀ i ≤ t.length, (System.stateAt t s i).clock -
    (lastTime (fun _ => true) (t.take i)).getD (System.stateAt t s 0).clock ≤
      thresholds.liveStaleSeconds

theorem runs_of_finished (h : (system leaseSeconds).Trace t s) {f : Finished}
    (hf : f ∈ finished t) : PassRuns leaseSeconds f.talk f.result := by
  induction h with
  | start => simp [finished] at hf
  | @step t s s' a h hs ih =>
    rw [finished_append, List.mem_append] at hf
    rcases hf with hf | hf
    · exact ih hf
    · cases hs with
      | tick => simp [finished] at hf
      | pass hr =>
        obtain rfl : f = _ := by simpa [finished] using hf
        exact runs_workOnce hr

/-- With a kernel that answers, the passes that return `Ok` are the clean ones. -/
theorem lastOk_eq_lastClean (h : (system leaseSeconds).Trace t s) (hk : KernelAnswers t) :
    lastOk t = lastClean t :=
  lastTime_congr fun f hf => isOk_iff_isClean (runs_of_finished h hf) (hk f hf)

theorem KernelAnswers.take (hk : KernelAnswers t) (i : ℕ) : KernelAnswers (t.take i) := by
  intro f hf
  apply hk f
  exact List.Sublist.subset ((List.take_sublist i t).filterMap _) hf

end Passes
end Loop

def idlePass : Talk := [⟨.kernel .eligibleRoutes, .ok []⟩]

def deafPass : Talk := [⟨.kernel .eligibleRoutes, .error .client⟩]

def outagePass : Talk := [
  ⟨.kernel .eligibleRoutes, .ok [⟨"route", sampleRequestId, "sub", "librarian", 0⟩]⟩,
  ⟨.kernel (.proposeClaim "route" 300), .ok (.claimed (sampleClaim 0))⟩,
  ⟨.kernel (.routedRequest "route"), .ok (.found sampleRequest)⟩,
  ⟨.repository (.put 1 (requestedDocument "alpha")),
    (.error .repository : Except DocumentError PutOutcome)⟩]

def storedPass : Talk := [
  ⟨.kernel .eligibleRoutes, .ok [⟨"route", sampleRequestId, "sub", "librarian", 0⟩]⟩,
  ⟨.kernel (.proposeClaim "route" 300), .ok (.claimed (sampleClaim 1))⟩,
  ⟨.kernel (.routedRequest "route"), .ok (.found sampleRequest)⟩,
  ⟨.repository (.put 1 (requestedDocument "alpha")),
    (.ok ⟨7, 1, false⟩ : Except DocumentError PutOutcome)⟩,
  ⟨.kernel (.completeClaim "claim-1" 2), .ok (.completed (sampleClaim 1))⟩]

theorem runs_idlePass : Runs (@workOnce sampleUuidText 300).run idlePass (.ok .nothingEligible) :=
  .call _ (.ret _)

theorem runs_deafPass : Runs (@workOnce sampleUuidText 300).run deafPass (.error .client) :=
  .call _ (.ret _)

theorem runs_outagePass : Runs (@workOnce sampleUuidText 300).run outagePass
    (.error (.document .repository)) :=
  .call _ (.call _ (.call _ (.call _ (.ret _))))

theorem runs_storedPass : Runs (@workOnce sampleUuidText 300).run storedPass
    (.ok (.completed "route" (.put 7 1 false))) :=
  .call _ (.call _ (.call _ (.call _ (.call _ (.ret _)))))

/-- A loop whose passes fail from the first on. -/
def deafRun : List (State × Action) := [
  (⟨1000, ⟨0⟩⟩, .pass deafPass (.error .client)), (⟨1000, ⟨0⟩⟩, .tick 1200)]

theorem trace_deafRun : (@system sampleUuidText 300).Trace deafRun ⟨1200, ⟨0⟩⟩ := by
  let _ : UuidText := sampleUuidText
  have h0 : (system 300).Trace [] ⟨1000, ⟨0⟩⟩ := .start ⟨by decide, by decide, rfl⟩
  have h1 := h0.step (.pass runs_deafPass)
  exact h1.step (.tick (by decide) (by decide))

/-- One idle pass, then the database is down. -/
def outageRun : List (State × Action) := [
  (⟨1000, ⟨0⟩⟩, .pass idlePass (.ok .nothingEligible)),
  (⟨1000, ⟨1000⟩⟩, .tick 1100),
  (⟨1100, ⟨1000⟩⟩, .pass outagePass (.error (.document .repository))),
  (⟨1100, ⟨1000⟩⟩, .tick 1200),
  (⟨1200, ⟨1000⟩⟩, .pass outagePass (.error (.document .repository)))]

theorem trace_outageRun : (@system sampleUuidText 300).Trace outageRun ⟨1200, ⟨1000⟩⟩ := by
  let _ : UuidText := sampleUuidText
  have h0 : (system 300).Trace [] ⟨1000, ⟨0⟩⟩ := .start ⟨by decide, by decide, rfl⟩
  have h1 := h0.step (.pass runs_idlePass)
  have h2 : (system 300).Trace _ ⟨1100, ⟨1000⟩⟩ := h1.step (.tick (by decide) (by decide))
  have h3 := h2.step (.pass runs_outagePass)
  have h4 : (system 300).Trace _ ⟨1200, ⟨1000⟩⟩ := h3.step (.tick (by decide) (by decide))
  exact h4.step (.pass runs_outagePass)

/-- The database is down for a while and the claim of the put is granted again. -/
def recoveredRun (now : ℤ) : List (State × Action) := [
  (⟨1000, ⟨0⟩⟩, .pass idlePass (.ok .nothingEligible)),
  (⟨1000, ⟨1000⟩⟩, .tick 1100),
  (⟨1100, ⟨1000⟩⟩, .pass outagePass (.error (.document .repository))),
  (⟨1100, ⟨1000⟩⟩, .tick 1140),
  (⟨1140, ⟨1000⟩⟩, .pass storedPass (.ok (.completed "route" (.put 7 1 false)))),
  (⟨1140, ⟨1140⟩⟩, .tick now)]

theorem trace_recoveredRun {now : ℤ} (h : 1140 ≤ now) (hmax : now ≤ Postgres.i64Max) :
    (@system sampleUuidText 300).Trace (recoveredRun now) ⟨now, ⟨1140⟩⟩ := by
  let _ : UuidText := sampleUuidText
  have h0 : (system 300).Trace [] ⟨1000, ⟨0⟩⟩ := .start ⟨by decide, by decide, rfl⟩
  have h1 := h0.step (.pass runs_idlePass)
  have h2 : (system 300).Trace _ ⟨1100, ⟨1000⟩⟩ := h1.step (.tick (by decide) (by decide))
  have h3 := h2.step (.pass runs_outagePass)
  have h4 : (system 300).Trace _ ⟨1140, ⟨1000⟩⟩ := h3.step (.tick (by decide) (by decide))
  have h5 := h4.step (.pass runs_storedPass)
  exact h5.step (.tick h hmax)

section Main
variable {leaseSeconds : ℤ} {t : List (State × Action)} {s : State} {thresholds : Thresholds}

def Live (thresholds : Thresholds) (t : List (State × Action)) (s : State) : Prop :=
  ∀ i ≤ t.length, Answers thresholds (System.stateAt t s i) ok

/-- Liveness is kept through a run exactly when clean passes are never too far apart. -/
theorem live_iff_lastClean [UuidText] (h : (system leaseSeconds).Trace t s) (hk : KernelAnswers t) :
    Live thresholds t s ↔
      ∀ i ≤ t.length, ∀ time ∈ lastClean (t.take i),
        time = 0 ∨ (System.stateAt t s i).clock - time ≤ thresholds.liveStaleSeconds := by
  apply forall_congr'
  intro i
  apply imp_congr_right
  intro _
  rw [answers_ok_iff (invariant_of_trace (h.take i)), lastOk_eq_lastClean (h.take i) (hk.take i)]
  rfl

/-- One failed pass between two clean ones costs no probe. -/
theorem live_recoveredRun : Live .default (recoveredRun 1250) ⟨1250, ⟨1140⟩⟩ := by
  have hk : @KernelAnswers sampleUuidText (recoveredRun 1250) := by
    unfold KernelAnswers
    decide +kernel
  exact (@live_iff_lastClean 300 _ _ .default sampleUuidText
    (trace_recoveredRun (by decide) (by decide)) hk).mpr (by decide +kernel)

/-- Two passes 100 seconds apart that fail in the database only, and the probe fails. -/
theorem not_live_outageRun : ¬ ∀ t s, (@system sampleUuidText 300).Trace t s →
    @KernelAnswers sampleUuidText t → lastOk t ≠ none → Frequent .default t s →
    Live .default t s := by
  intro h
  have hk : @KernelAnswers sampleUuidText outageRun := by
    unfold KernelAnswers
    decide +kernel
  have hf : Frequent .default outageRun ⟨1200, ⟨1000⟩⟩ := by
    unfold Frequent
    decide +kernel
  have hlive := h _ _ trace_outageRun hk (by decide +kernel) hf 5 (by decide)
  rw [answers_iff] at hlive
  exact absurd hlive (by decide +kernel)

/-- Once a pass has succeeded, a loop without recent success fails its probe; before that it
counts as starting. -/
theorem unavailable_of_stuck [UuidText] (thresholds : Thresholds) (h : (system leaseSeconds).Trace t s)
    (hpos : 0 < (System.stateAt t s 0).clock) :
    (∀ time, lastOk t = some time → thresholds.liveStaleSeconds < s.clock - time →
      Answers thresholds s unavailable) ∧
    (lastOk t = none → ∀ request databaseReachable, requestPath request = livePath →
      probe thresholds s.heartbeat s.clock databaseReachable request = (ok, "starting\n")) := by
  have hinv := invariant_of_trace h
  constructor
  · intro time ht hstale
    have hpast := (hinv.past time ht).1
    rw [answers_iff, evaluate_live_some (age_of_invariant hinv ht (by omega)), if_neg (by omega)]
  · intro ht request databaseReachable hpath
    rw [probe_live hpath, evaluate_live_starting (age_of_none hinv (by simp [ht]))]

/-- No pass has returned `Ok` for more than `live_stale_seconds`, counted from the start if none
ever did. -/
def Stuck (thresholds : Thresholds) (t : List (State × Action)) (s : State) : Prop :=
  thresholds.liveStaleSeconds < s.clock - (lastOk t).getD (System.stateAt t s 0).clock

/-- Whenever the loop is stuck, the probe asks for a restart. -/
def Restarted (thresholds : Thresholds) (t : List (State × Action)) (s : State) : Prop :=
  ∀ i ≤ t.length, Stuck thresholds (t.take i) (System.stateAt t s i) →
    Answers thresholds (System.stateAt t s i) unavailable

theorem answers_of_stuck_iff [UuidText] (thresholds : Thresholds) (h : (system leaseSeconds).Trace t s)
    (hpos : 0 < (System.stateAt t s 0).clock) :
    (Stuck thresholds t s → Answers thresholds s unavailable) ↔
      lastOk t ≠ none ∨ s.clock - (System.stateAt t s 0).clock ≤ thresholds.liveStaleSeconds := by
  rcases unavailable_of_stuck thresholds h hpos with ⟨hsome, hnone⟩
  cases hl : lastOk t with
  | some time =>
    refine iff_of_true (fun hstuck => hsome time hl ?_) (.inl (by simp))
    simpa [Stuck, hl] using hstuck
  | none =>
    simp only [Stuck, hl, Option.getD_none, ne_eq, not_true_eq_false, false_or]
    constructor
    · intro hstuck
      by_contra hlate
      -- the probe answers as during the start
      have hbad := hstuck (by omega) "GET /health/live HTTP/1.1" true requestPath_get
      rw [hnone hl _ _ requestPath_get] at hbad
      exact ok_ne_unavailable hbad
    · intro hearly hlate
      omega

/-- A stuck loop is restarted exactly if it is always young or has a pass that returned `Ok`. -/
theorem restarted_iff [UuidText] (h : (system leaseSeconds).Trace t s)
    (hpos : 0 < (System.stateAt t s 0).clock) :
    Restarted thresholds t s ↔ ∀ i ≤ t.length, lastOk (t.take i) ≠ none ∨
      (System.stateAt t s i).clock - (System.stateAt t s 0).clock ≤
        thresholds.liveStaleSeconds := by
  apply forall_congr'
  intro i
  apply imp_congr_right
  intro hi
  have hstart : System.stateAt (t.take i) (System.stateAt t s i) 0 = System.stateAt t s 0 :=
    System.stateAt_take (Nat.zero_le i)
  have hiff := answers_of_stuck_iff thresholds (h.take i) (by rwa [hstart])
  rwa [hstart] at hiff

/-- The loop has been stuck for 110 seconds when its last probe fails. -/
theorem restarted_recoveredRun : Restarted .default (recoveredRun 1400) ⟨1400, ⟨1140⟩⟩ :=
  (@restarted_iff 300 _ _ .default sampleUuidText (trace_recoveredRun (by decide) (by decide))
    (by decide)).mpr (by decide +kernel)

/-- No pass has succeeded for 200 seconds after the start, and the service counts as live. -/
theorem not_restarted_deafRun : ¬ ∀ t s, (@system sampleUuidText 300).Trace t s →
    0 < (System.stateAt t s 0).clock → Restarted .default t s := by
  intro h
  have hstuck := h _ _ trace_deafRun (by decide) 2 (by decide) (by
    unfold Stuck
    decide +kernel)
  rw [answers_iff] at hstuck
  exact absurd hstuck (by decide +kernel)

end Main
end Librarian.Liveness
