import Librarian.Liveness
import Librarian.Process.System

/-! # The loop round by round

Every run of the process, call by call, is a run of the loop in which a pass is one step, and its
calls are those of whole rounds, the last one perhaps unfinished. The pass takes its step when the
process reads the time for the heartbeat, or has nothing to record.
-/
namespace Librarian.Process
open Foundation Program System Health

def leaseTalk (renewal : List ((op : LeaseOp) × op.Ans)) : LoopTalk :=
  renewal.map fun x => ⟨.lease x.1, x.2⟩

def portTalk (talk : Talk) : LoopTalk := talk.map fun x => ⟨.port x.1, x.2⟩

/-- The renewal and the pass of one round. -/
structure Turn where
  renewal : List ((op : LeaseOp) × op.Ans)
  pass : Talk
  result : Liveness.PassResult

def Turn.talk (turn : Turn) : LoopTalk := leaseTalk turn.renewal ++ portTalk turn.pass

instance (op : LeaseOp) : Nonempty op.Ans :=
  match op with
  | .unixTime => ⟨(0 : ℤ)⟩
  | .renewLease _ => ⟨(.error .client : Except LibrarianError RenewedLease)⟩

instance (op : PortOp) : Nonempty op.Ans :=
  match op with
  | .kernel asked => ⟨(.error .client : Except LibrarianError asked.Outcome)⟩
  | .repository (.put _ _) => ⟨(.error .repository : Except DocumentError PutOutcome)⟩
  | .repository (.get _ _) => ⟨(.error .repository : Except DocumentError DocumentVersion)⟩
  | .repository (.search _ _) => ⟨(.error .repository : Except DocumentError (List SearchHit))⟩

variable [UuidText] {config : Config}

/-- Rounds from one tracked lease to another. Each renews the lease it was left with and works
through a pass. -/
inductive Rounds (config : Config) (first : Option InstanceLease) :
    List Turn → Option InstanceLease → Prop
  | nil : Rounds config first [] first
  | snoc {turns : List Turn} {turn : Turn} {lease lease' : Option InstanceLease}
      (h : Rounds config first turns lease)
      (hrenewal : Runs (renewLeaseIfDue lease) turn.renewal lease')
      (hpass : Runs (workOnce config.leaseSeconds).run turn.pass turn.result) :
      Rounds config first (turns ++ [turn]) lease'

/-- What a process still has to do in the round that it began with `lease`, or has begun next, with
the talk of its renewal and its pass, its heartbeat and the heartbeat of the loop that takes a pass
in one step. -/
inductive Phase (config : Config) (lease : Option InstanceLease) :
    Round (Option InstanceLease) → LoopTalk → Heartbeat → Heartbeat → Prop
  | renewing (p : Program LeaseOp LeaseOp.Ans (Option InstanceLease))
      {said : List ((op : LeaseOp) × op.Ans)} {h : Heartbeat}
      (hp : ∀ rest res, Runs p rest res → Runs (renewLeaseIfDue lease) (said ++ rest) res) :
      Phase config lease ((p.embed .lease fun _ ans => ans).bind fun lease =>
        (pass config).bind fun result => (noteResult result).bind fun _ => pause config lease)
        (leaseTalk said) h h
  | passing (p : Program PortOp PortOp.Ans (Except LibrarianError WorkOutcome))
      {renewal : List ((op : LeaseOp) × op.Ans)} {renewed : Option InstanceLease} {talk : Talk}
      {h : Heartbeat} (hrenewal : Runs (renewLeaseIfDue lease) renewal renewed)
      (hp : ∀ rest res, Runs p rest res → Runs (workOnce config.leaseSeconds).run (talk ++ rest) res) :
      Phase config lease ((p.embed .port fun _ ans => ans).bind fun result =>
        (noteResult result).bind fun _ => pause config renewed)
        (leaseTalk renewal ++ portTalk talk) h h
  | recording {at' : ℤ} {h : Heartbeat} :
      Phase config lease (.call (.recordSuccess at') fun _ => pause config lease) [] h ⟨at'⟩
  | pausing {h : Heartbeat} : Phase config lease (pause config lease) [] h h
  | done {h : Heartbeat} : Phase config lease (.ret lease) [] h h

/-- What one step of the process is for the loop: nothing, or the round whose pass has just
ended. -/
inductive Matches (config : Config) (lease : Option InstanceLease) (s s' : State)
    (rest' : Round (Option InstanceLease)) (talk said : LoopTalk) (h : Heartbeat) : Prop
  | stutter (hphase : Phase config lease rest' (talk ++ said) s'.heartbeat h)
  | turn (turn : Turn) {lease' : Option InstanceLease} (hsaid : said = []) (htalk : talk = turn.talk)
      (hrenewal : Runs (renewLeaseIfDue lease) turn.renewal lease')
      (hpass : Runs (workOnce config.leaseSeconds).run turn.pass turn.result)
      (hphase : Phase config lease' rest' [] s'.heartbeat (Liveness.afterPass h s.clock turn.result))

theorem passing_step {s s' : State} {op : LoopOp} {next : op.Ans → Round (Option InstanceLease)}
    {ans : op.Ans} {p : Program PortOp PortOp.Ans (Except LibrarianError WorkOutcome)}
    {lease renewed : Option InstanceLease} {renewal : List ((op : LeaseOp) × op.Ans)} (talk : Talk)
    (hrenewal : Runs (renewLeaseIfDue lease) renewal renewed)
    (hp : ∀ rest res, Runs p rest res → Runs (workOnce config.leaseSeconds).run (talk ++ rest) res)
    (hrest : ((p.embed .port fun _ ans => ans).bind fun result =>
      (noteResult result).bind fun _ => pause config renewed) = .call op next)
    (ha : Answered s op ans s') :
    Matches config lease s s' (next ans) (leaseTalk renewal ++ portTalk talk) (heard op ans)
      s.heartbeat := by
  cases p with
  | call op' next' =>
    cases hrest
    have hheart : s'.heartbeat = s.heartbeat := by
      cases ha <;> rfl
    have htalk : leaseTalk renewal ++ portTalk talk ++ heard (.port op') ans =
        leaseTalk renewal ++ portTalk (talk ++ [⟨op', ans⟩]) := by
      simp [portTalk, heard]
    apply Matches.stutter
    rw [hheart, htalk]
    apply Phase.passing (next' ans) hrenewal
    intro rest res hruns
    have hcall : Runs (.call op' next') (⟨op', ans⟩ :: rest) res :=
      runs_call.mpr ⟨ans, rest, rfl, hruns⟩
    rw [List.append_assoc]
    exact hp _ res hcall
  | ret result =>
    have hruns : Runs (workOnce config.leaseSeconds).run talk result := by
      simpa using hp [] result (.ret result)
    cases result with
    | error e =>
      cases hrest
      cases ha
      exact .turn ⟨renewal, talk, _⟩ rfl rfl hrenewal hruns .done
    | ok outcome =>
      cases outcome <;>
      · cases hrest
        cases ha
        exact .turn ⟨renewal, talk, _⟩ rfl rfl hrenewal hruns .recording

theorem Phase.step {s s' : State} {op : LoopOp} {next : op.Ans → Round (Option InstanceLease)}
    {ans : op.Ans} {lease : Option InstanceLease} {rest : Round (Option InstanceLease)}
    {talk : LoopTalk} {h : Heartbeat} (hphase : Phase config lease rest talk s.heartbeat h)
    (hrest : rest = .call op next) (ha : Answered s op ans s') :
    Matches config lease s s' (next ans) talk (heard op ans) h := by
  cases hphase with
  | @renewing p said _ hp =>
    cases p with
    | ret renewed =>
      have hrenewal : Runs (renewLeaseIfDue lease) said renewed := by
        simpa using hp [] renewed (.ret renewed)
      simpa [portTalk] using passing_step [] hrenewal (fun _ _ hruns => hruns) hrest ha
    | call op' next' =>
      cases hrest
      have hheart : s'.heartbeat = s.heartbeat := by
        cases ha <;> rfl
      have htalk : leaseTalk said ++ heard (.lease op') ans = leaseTalk (said ++ [⟨op', ans⟩]) := by
        simp [leaseTalk, heard]
      apply Matches.stutter
      rw [hheart, htalk]
      apply Phase.renewing (next' ans)
      intro rest res hruns
      have hcall : Runs (.call op' next') (⟨op', ans⟩ :: rest) res :=
        runs_call.mpr ⟨ans, rest, rfl, hruns⟩
      rw [List.append_assoc]
      exact hp _ res hcall
  | passing p hrenewal hp => exact passing_step _ hrenewal hp hrest ha
  | recording =>
    cases hrest
    cases ha
    exact .stutter .pausing
  | pausing =>
    cases hrest
    cases ha
    exact .stutter .done
  | done => cases hrest

/-- A round that has ended leaves nothing open. -/
theorem Phase.of_ret {rest : Round (Option InstanceLease)} {lease lease' : Option InstanceLease}
    {talk : LoopTalk} {h h' : Heartbeat} (hphase : Phase config lease rest talk h h')
    (hrest : rest = .ret lease') : talk = [] ∧ h' = h ∧ lease' = lease := by
  cases hphase with
  | renewing p => cases p <;> cases hrest
  | passing p =>
    cases p with
    | call => cases hrest
    | ret result =>
      cases result with
      | error => cases hrest
      | ok outcome => cases outcome <;> cases hrest
  | recording => cases hrest
  | pausing => cases hrest
  | done =>
    cases hrest
    exact ⟨rfl, rfl, rfl⟩

/-- The talk so far is the beginning of a whole round. -/
theorem Phase.exists_turn {rest : Round (Option InstanceLease)} {lease : Option InstanceLease}
    {talk : LoopTalk} {h h' : Heartbeat} (hphase : Phase config lease rest talk h h') :
    ∃ (turn : Turn) (lease' : Option InstanceLease),
      Runs (renewLeaseIfDue lease) turn.renewal lease' ∧
      Runs (workOnce config.leaseSeconds).run turn.pass turn.result ∧ talk <+: turn.talk := by
  rcases exists_runs (workOnce config.leaseSeconds).run with ⟨pass, result, hpass⟩
  have hnothing : ∃ (turn : Turn) (lease' : Option InstanceLease),
      Runs (renewLeaseIfDue lease) turn.renewal lease' ∧
      Runs (workOnce config.leaseSeconds).run turn.pass turn.result ∧ [] <+: turn.talk := by
    rcases exists_runs (renewLeaseIfDue lease) with ⟨renewal, lease', hrenewal⟩
    exact ⟨⟨renewal, pass, result⟩, lease', hrenewal, hpass, List.nil_prefix⟩
  cases hphase with
  | @renewing p said _ hp =>
    rcases exists_runs p with ⟨more, lease', hruns⟩
    refine ⟨⟨said ++ more, pass, result⟩, lease', hp more lease' hruns, hpass, ?_⟩
    simp [Turn.talk, leaseTalk]
  | @passing p renewal renewed talk _ hrenewal hp =>
    rcases exists_runs p with ⟨more, result, hruns⟩
    refine ⟨⟨renewal, talk ++ more, result⟩, renewed, hrenewal, hp more result hruns, ?_⟩
    simp [Turn.talk, portTalk]
  | recording => exact hnothing
  | pausing => exact hnothing
  | done => exact hnothing

/-- The heartbeats agree, or the process is about to record the time it has just read. -/
theorem Phase.heartbeat {rest : Round (Option InstanceLease)} {lease : Option InstanceLease}
    {talk : LoopTalk} {h h' : Heartbeat} (hphase : Phase config lease rest talk h h') :
    h' = h ∨ ∃ at' next, rest = .call (.recordSuccess at') next ∧ h' = ⟨at'⟩ := by
  cases hphase with
  | recording => exact .inr ⟨_, _, rfl, rfl⟩
  | _ => exact .inl rfl

/-- The conversation of a run. -/
def loopTalk (t : List (State × Action)) : LoopTalk := t.flatMap fun p => p.1.said p.2

/-- The passes of a run of the loop are those of the rounds. -/
def Performs (u : List (Liveness.State × Liveness.Action)) (turns : List Turn) : Prop :=
  (Liveness.finished u).map (fun f => (f.talk, f.result)) =
    turns.map fun turn => (turn.pass, turn.result)

/-- A run of the process next to the run of the loop that it is. -/
structure Simulates (config : Config) (first : Option InstanceLease) (t : List (State × Action))
    (s : State) (u : List (Liveness.State × Liveness.Action)) (x : Liveness.State)
    (turns : List Turn) : Prop where
  run : (Liveness.system config.leaseSeconds).Trace u x
  clock : x.clock = s.clock
  performs : Performs u turns
  phase : ∃ lease talk, Rounds config first turns lease ∧
    loopTalk t = turns.flatMap Turn.talk ++ talk ∧ Phase config lease s.rest talk s.heartbeat x.heartbeat

theorem Simulates.step {first : Option InstanceLease} {t : List (State × Action)} {s s' : State}
    {a : Action} {u : List (Liveness.State × Liveness.Action)} {x : Liveness.State}
    {turns : List Turn} (h : Simulates config first t s u x turns) (hm : Moves config s a s') :
    ∃ u' x' turns', Simulates config first (t ++ [(s, a)]) s' u' x' turns' := by
  have hsaid : loopTalk (t ++ [(s, a)]) = loopTalk t ++ s.said a := by
    simp [loopTalk]
  rcases h.phase with ⟨lease, talk, hrounds, htalk, hphase⟩
  cases hm with
  | @tick now hle hmax =>
    have hrun : (Liveness.system config.leaseSeconds).Trace (u ++ [(x, .tick now)])
        { x with clock := now } := h.run.step (.tick (by rw [h.clock]; exact hle) hmax)
    refine ⟨_, _, turns, hrun, rfl, ?_, lease, talk, hrounds, ?_, hphase⟩
    · simpa [Performs, Liveness.finished] using h.performs
    · simpa [hsaid, State.said] using htalk
  | again hrest =>
    rcases hphase.of_ret hrest with ⟨rfl, heq, rfl⟩
    refine ⟨u, x, turns, h.run, h.clock, h.performs, _, leaseTalk [], hrounds, ?_, ?_⟩
    · simpa [hsaid, State.said, hrest, leaseTalk] using htalk
    · rw [heq]
      exact .renewing _ fun _ _ hruns => hruns
  | @answered _ op next ans s' hrest ha hheard =>
    have hclock : x.clock = s'.clock := by
      rw [h.clock]
      cases ha <;> rfl
    rw [hheard, htalk] at hsaid
    cases hphase.step hrest ha with
    | stutter hphase' =>
      exact ⟨u, x, turns, h.run, hclock, h.performs, lease, _, hrounds,
        by rw [hsaid, List.append_assoc], hphase'⟩
    | @turn turn lease' hnone hwhole hrenewal hpass hphase' =>
      have hrun : (Liveness.system config.leaseSeconds).Trace (u ++ [(x, .pass turn.pass turn.result)])
          { x with heartbeat := Liveness.afterPass x.heartbeat x.clock turn.result } :=
        h.run.step (.pass hpass)
      refine ⟨_, _, turns ++ [turn], hrun, hclock, ?_, lease', [], hrounds.snoc hrenewal hpass, ?_, ?_⟩
      · have hperforms := h.performs
        rw [Performs] at hperforms ⊢
        rw [Liveness.finished_append, List.map_append, List.map_append, hperforms]
        simp [Liveness.finished]
      · rw [hsaid, hnone, hwhole]
        simp
      · rw [h.clock]
        exact hphase'
  | late expected expiry =>
    refine ⟨u, x, turns, h.run, h.clock, h.performs, lease, talk, hrounds, ?_, hphase⟩
    simpa [hsaid, State.said] using htalk

theorem simulates_of_trace {t : List (State × Action)} {s : State} (h : (system config).Trace t s) :
    ∃ first u x turns, (stateAt t s 0).rest = round config first ∧
      Simulates config first t s u x turns := by
  induction h with
  | @start s hinit =>
    rcases hinit with ⟨hclock, hmax, hnew, lease, hrest⟩
    refine ⟨lease, [], ⟨s.clock, s.heartbeat⟩, [], hrest, .start ⟨hclock, hmax, hnew⟩, rfl, rfl,
      lease, leaseTalk [], .nil, rfl, ?_⟩
    rw [hrest]
    exact .renewing _ fun _ _ hruns => hruns
  | step _ hs ih =>
    rcases ih with ⟨first, u, x, turns, hfirst, hx⟩
    rcases hx.step (step_moves hs) with ⟨u', x', turns', hx'⟩
    exact ⟨first, u', x', turns', by rwa [stateAt_append (Nat.zero_le _)], hx'⟩

/-- The run `u` to `x` of the loop and the rounds `turns` are what the run `t` to `s` of the process
amounts to. -/
structure Refines (config : Config) (t : List (State × Action)) (s : State)
    (u : List (Liveness.State × Liveness.Action)) (x : Liveness.State) (turns : List Turn) : Prop where
  run : (Liveness.system config.leaseSeconds).Trace u x
  clock : x.clock = s.clock
  heartbeat : x.heartbeat = s.heartbeat ∨
    ∃ at' next, s.rest = .call (.recordSuccess at') next ∧ x.heartbeat = ⟨at'⟩
  performs : Performs u turns
  rounds : ∃ first last lease, (stateAt t s 0).rest = round config first ∧
    Rounds config first (turns ++ [last]) lease ∧ turns.flatMap Turn.talk <+: loopTalk t ∧
      loopTalk t <+: (turns ++ [last]).flatMap Turn.talk

/-- Every run of the process is a run of the loop that takes each pass in one step, with the same
clock and the same heartbeat but for a record under way. Its renewals and its passes are, call by
call and in their order, those of whole rounds of the loop and of the beginning of one more. -/
theorem refines_liveness {t : List (State × Action)} {s : State} (h : (system config).Trace t s) :
    ∃ u x turns, Refines config t s u x turns := by
  rcases simulates_of_trace h with ⟨first, u, x, turns, hfirst, hx⟩
  rcases hx.phase with ⟨lease, talk, hrounds, htalk, hphase⟩
  rcases hphase.exists_turn with ⟨last, lease', hrenewal, hpass, hprefix⟩
  refine ⟨u, x, turns, hx.run, hx.clock, hphase.heartbeat, hx.performs, first, last, lease', hfirst,
    hrounds.snoc hrenewal hpass, ⟨talk, htalk.symm⟩, ?_⟩
  rw [htalk, List.flatMap_append, List.flatMap_singleton]
  exact (List.prefix_append_right_inj _).mpr hprefix

omit [UuidText] in
theorem refines_lapsedRun : ∃ s u x turns,
    System.run (@step sampleUuidText ⟨300, 5⟩) enrolled lapsedRun = some s ∧
    @Refines sampleUuidText ⟨300, 5⟩
      (System.record (@step sampleUuidText ⟨300, 5⟩) enrolled lapsedRun) s u x turns := by
  rcases trace_lapsedRun with ⟨s, hrun, htrace⟩
  rcases @refines_liveness sampleUuidText ⟨300, 5⟩ _ s htrace with ⟨u, x, turns, h⟩
  exact ⟨s, u, x, turns, hrun, h⟩

end Librarian.Process
