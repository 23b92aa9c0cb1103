import Librarian.Foundation.Transition
import Librarian.Kernel.Registration
import Librarian.Process.Loop

/-! # The process and the kernel it is registered with

One action is one step of the loop with what comes of it. The kernel answers signed calls of
a lapsed registration with status 401; any request may also fail to arrive or its answer be
lost, and a renewal may arrive long after it was sent.
-/
namespace Librarian.Process
open Foundation Health

structure State where
  clock : ℤ
  heartbeat : Heartbeat
  registration : Registration
  rest : Round (Option InstanceLease)

/-- The kernel no longer accepts what this instance signs. -/
def State.Lapsed (s : State) : Prop := s.registration.current.leaseExpiresAt ≤ s.clock

instance (s : State) : Decidable s.Lapsed := Int.decLe _ _

inductive Action where
  | tick (now : ℤ)
  | proceed
  | renew (expiry : ℤ) (delivered : Bool)
  | lose
  | kernel (call : KernelCall) (response : Response call.Body)
  | repository (call : RepositoryCall) (ans : call.Ans)
  | late (expected expiry : ℤ)

/-- One action, or `none` where it cannot happen now. -/
def step [UuidText] (config : Config) (s : State) : Action → Option State
  | .tick now =>
    if s.clock ≤ now ∧ now ≤ Postgres.i64Max then some { s with clock := now } else none
  | .proceed =>
    match s.rest with
    | .ret lease => some { s with rest := round config lease }
    | .call (.lease .unixTime) next => some { s with rest := next s.clock }
    | .call .nowSeconds next => some { s with rest := next s.clock }
    | .call (.recordSuccess at') next =>
      some { s with heartbeat := s.heartbeat.recordSuccess at', rest := next () }
    | .call (.sleep _) next => some { s with rest := next () }
    | _ => none
  | .renew expiry delivered =>
    match s.rest with
    | .call (.lease (.renewLease expected)) next =>
      let (registration, response) := s.registration.renew s.clock expected expiry
      let sent := if delivered then some response else none
      some { s with registration := registration, rest := next (receive parseRenewalResponse sent) }
    | _ => none
  | .lose =>
    match s.rest with
    | .call (.lease (.renewLease _)) next => some { s with rest := next (.error .client) }
    | .call (.port (.kernel _)) next => some { s with rest := next (.error .client) }
    | _ => none
  | .kernel call response =>
    match s.rest with
    | .call (.port (.kernel asked)) next =>
      if h : call = asked ∧ (s.Lapsed → response.status = 401) then
        some { s with rest := next (h.1 ▸ call.parse response) }
      else none
    | _ => none
  | .repository call ans =>
    match s.rest with
    | .call (.port (.repository asked)) next =>
      if h : call = asked then some { s with rest := next (h ▸ ans) } else none
    | _ => none
  | .late expected expiry =>
    -- an earlier renewal of this instance arrives; nobody waits for its answer
    some { s with registration := (s.registration.renew s.clock expected expiry).1 }

/-- A process starts its loop with the lease of its enrollment, or with none of its own. -/
def system [UuidText] (config : Config) : System State Action where
  init s := 0 ≤ s.clock ∧ s.clock ≤ Postgres.i64Max ∧ s.heartbeat = .new ∧
    ∃ lease, s.rest = round config lease
  step s a s' := step config s a = some s'

/-- What the loop may be told when it does `op`, with the state after it. -/
inductive Answered (s : State) : (op : LoopOp) → op.Ans → State → Prop
  | unixTime : Answered s (.lease .unixTime) s.clock s
  | renewed (expected expiry : ℤ) (delivered : Bool) :
      Answered s (.lease (.renewLease expected))
        (receive parseRenewalResponse
          (if delivered then some (s.registration.renew s.clock expected expiry).2 else none))
        { s with registration := (s.registration.renew s.clock expected expiry).1 }
  | renewalLost (expected : ℤ) : Answered s (.lease (.renewLease expected)) (.error .client) s
  | kernel {call : KernelCall} (response : Response call.Body)
      (h : s.Lapsed → response.status = 401) :
      Answered s (.port (.kernel call)) (call.parse response) s
  | kernelLost (call : KernelCall) : Answered s (.port (.kernel call)) (.error .client) s
  | repository {call : RepositoryCall} (ans : call.Ans) :
      Answered s (.port (.repository call)) ans s
  | nowSeconds : Answered s .nowSeconds s.clock s
  | recordSuccess (at' : ℤ) : Answered s (.recordSuccess at') ()
      { s with heartbeat := s.heartbeat.recordSuccess at' }
  | sleep (pollInterval : ℕ) : Answered s (.sleep pollInterval) () s

/-- What a renewal and a pass say, in the order of the loop. -/
abbrev LoopTalk := List ((op : LoopOp) × op.Ans)

def heard : (op : LoopOp) → op.Ans → LoopTalk
  | .lease op => fun ans => [⟨.lease op, ans⟩]
  | .port op => fun ans => [⟨.port op, ans⟩]
  | _ => fun _ => []

/-- What an action adds to it. -/
def State.said (s : State) : Action → LoopTalk
  | .proceed =>
    match s.rest with
    | .call (.lease .unixTime) _ => [⟨.lease .unixTime, s.clock⟩]
    | _ => []
  | .renew expiry delivered =>
    match s.rest with
    | .call (.lease (.renewLease expected)) _ =>
      [⟨.lease (.renewLease expected), receive parseRenewalResponse
        (if delivered then some (s.registration.renew s.clock expected expiry).2 else none)⟩]
    | _ => []
  | .kernel asked response => [⟨.port (.kernel asked), asked.parse response⟩]
  | .repository asked ans => [⟨.port (.repository asked), ans⟩]
  | .lose =>
    match s.rest with
    | .call (.lease (.renewLease expected)) _ => [⟨.lease (.renewLease expected), .error .client⟩]
    | .call (.port (.kernel asked)) _ => [⟨.port (.kernel asked), .error .client⟩]
    | _ => []
  | _ => []

/-- All a step can do. -/
inductive Moves [UuidText] (config : Config) (s : State) : Action → State → Prop
  | tick {now : ℤ} (h : s.clock ≤ now) (hmax : now ≤ Postgres.i64Max) :
      Moves config s (.tick now) { s with clock := now }
  | again {lease : Option InstanceLease} (h : s.rest = .ret lease) :
      Moves config s .proceed { s with rest := round config lease }
  | answered {a : Action} {op : LoopOp} {next : op.Ans → Round (Option InstanceLease)}
      {ans : op.Ans} {s' : State} (h : s.rest = .call op next) (ha : Answered s op ans s')
      (hsaid : s.said a = heard op ans) :
      Moves config s a { s' with rest := next ans }
  | late (expected expiry : ℤ) : Moves config s (.late expected expiry)
      { s with registration := (s.registration.renew s.clock expected expiry).1 }

theorem step_moves [UuidText] {config : Config} {s s' : State} {a : Action}
    (h : step config s a = some s') : Moves config s a s' := by
  cases a with
  | tick now =>
    simp only [step] at h
    split at h
    · rename_i hnow
      cases h
      exact .tick hnow.1 hnow.2
    · cases h
  | proceed =>
    simp only [step] at h
    split at h
    · rename_i hrest
      cases h
      exact .again hrest
    · rename_i hrest
      cases h
      exact .answered hrest .unixTime (by simp [State.said, hrest, heard])
    · rename_i hrest
      cases h
      exact .answered hrest .nowSeconds (by simp [State.said, hrest, heard])
    · rename_i hrest
      cases h
      exact .answered hrest (.recordSuccess _) (by simp [State.said, hrest, heard])
    · rename_i hrest
      cases h
      exact .answered hrest (.sleep _) (by simp [State.said, hrest, heard])
    · cases h
  | renew expiry delivered =>
    simp only [step] at h
    split at h
    · rename_i hrest
      cases h
      exact .answered hrest (.renewed _ expiry delivered) (by simp [State.said, hrest, heard])
    · cases h
  | lose =>
    simp only [step] at h
    split at h
    · rename_i hrest
      cases h
      exact .answered hrest (.renewalLost _) (by simp [State.said, hrest, heard])
    · rename_i hrest
      cases h
      exact .answered hrest (.kernelLost _) (by simp [State.said, hrest, heard])
    · cases h
  | kernel call response =>
    simp only [step] at h
    split at h
    · rename_i hrest
      split at h
      · rename_i hcall
        rcases hcall with ⟨rfl, hlapsed⟩
        cases h
        exact .answered hrest (.kernel response hlapsed) rfl
      · cases h
    · cases h
  | repository call ans =>
    simp only [step] at h
    split at h
    · rename_i hrest
      split at h
      · rename_i hcall
        subst hcall
        cases h
        exact .answered hrest (.repository ans) rfl
      · cases h
    · cases h
  | late expected expiry =>
    cases h
    exact .late expected expiry

section Sample

/-- A process that enrolled at time 100 for a hundred seconds. -/
def enrolled : State where
  clock := 100
  heartbeat := .new
  registration := ⟨⟨200, 1⟩, []⟩
  rest := @round sampleUuidText ⟨300, 5⟩ (some ⟨1, 200⟩)

/-- A round in which the kernel refuses the renewal and the pass. -/
def refusedRound : List Action :=
  [.proceed, .proceed, .renew 400 true, .kernel .eligibleRoutes ⟨401, .error ""⟩, .proceed]

/-- One round succeeds, then the process sleeps until its registration has lapsed. -/
def lapsedRun : List Action :=
  [.proceed, .kernel .eligibleRoutes ⟨200, .ok []⟩, .proceed, .proceed, .proceed, .tick 260] ++
    refusedRound ++ refusedRound ++ refusedRound

theorem trace_lapsedRun : ∃ s,
    System.run (@step sampleUuidText ⟨300, 5⟩) enrolled lapsedRun = some s ∧
    (@system sampleUuidText ⟨300, 5⟩).Trace
      (System.record (@step sampleUuidText ⟨300, 5⟩) enrolled lapsedRun) s := by
  have h : (System.run (@step sampleUuidText ⟨300, 5⟩) enrolled lapsedRun).isSome = true := by
    decide +kernel
  have hinit : (@system sampleUuidText ⟨300, 5⟩).init enrolled :=
    ⟨by decide, by decide, rfl, some ⟨1, 200⟩, rfl⟩
  have hrun := Option.eq_some_of_isSome h
  exact ⟨_, hrun, System.trace_record (fun _ _ _ hs => hs) (.start hinit) hrun⟩

end Sample
end Librarian.Process
