import Librarian.Foundation.Transition
import Librarian.InstanceLease
import Librarian.Kernel.Registration

/-! # An enrolled instance and its registration

The instance runs ticks, one after another. Its renewal requests and the kernel's responses
are messages: a request may reach the kernel late, never or more than once, and a response
is read at most while its caller still waits for it.
-/
namespace Librarian.Lease
open Foundation

abbrev Tick := Program LeaseOp LeaseOp.Ans (Option InstanceLease)

/-- `requests` and `responses` are all messages sent so far; a request is named by its
position, a response carries the name of its request. -/
structure State where
  clock : ℤ
  registration : Registration
  lease : Option InstanceLease
  tick : Option Tick
  awaiting : Option ℕ
  requests : List ℤ
  responses : List (ℕ × Response RenewedLease)

/-- The lease an enrollment starts with. -/
def enrolledLease (enrolled : RenewedLease) : InstanceLease :=
  ⟨enrolled.leaseRevision, enrolled.leaseExpiresAt⟩

def State.initial (clock : ℤ) (enrolled : RenewedLease) : State :=
  ⟨clock, ⟨enrolled, []⟩, some (enrolledLease enrolled), none, none, [], []⟩

inductive Action where
  | passTime (now : ℤ)
  | begin
  | readClock (now : ℤ)
  | send
  | process (request : ℕ) (expiry : ℤ)
  | receive (response : ℕ)
  | fail (error : LibrarianError)

/-- The state after the tick went on to `tick`; a finished tick sets the tracked lease. -/
def State.resume (s : State) : Tick → State
  | .ret lease => { s with lease := lease, tick := none, awaiting := none }
  | tick => { s with tick := some tick, awaiting := none }

/-- One action, or `none` where it cannot happen now. The instance may read any clock, and
`fail` is every way in which a renewal ends without a readable response. -/
def step (s : State) : Action → Option State
  | .passTime now => if s.clock ≤ now then some { s with clock := now } else none
  | .begin => if s.tick.isNone then some (s.resume (renewLeaseIfDue s.lease)) else none
  | .readClock now =>
    match s.tick with
    | some (.call .unixTime next) => some (s.resume (next now))
    | _ => none
  | .send =>
    match s.tick, s.awaiting with
    | some (.call (.renewLease expected) _), none =>
      some { s with requests := s.requests ++ [expected], awaiting := some s.requests.length }
    | _, _ => none
  | .process request expiry =>
    match s.requests[request]? with
    | some expected =>
      let (registration, response) := s.registration.renew s.clock expected expiry
      some { s with
        registration := registration, responses := s.responses ++ [(request, response)] }
    | none => none
  | .receive response =>
    match s.tick, s.responses[response]? with
    | some (.call (.renewLease _) next), some (request, response) =>
      if s.awaiting = some request then
        some (s.resume (next (parseRenewalResponse response)))
      else none
    | _, _ => none
  | .fail error =>
    match s.tick with
    | some (.call (.renewLease _) next) => some (s.resume (next (.error error)))
    | _ => none

def system : System State Action where
  init s := ∃ clock enrolled, s = .initial clock enrolled
  step s a s' := step s a = some s'

/-- The rest of a tick that is about to renew. -/
def renewal (lease : InstanceLease) : Tick :=
  .call (.renewLease lease.revision) fun ans => .ret (some (lease.renewed ans))

/-- All a step can do while the instance tracks `lease`. -/
inductive Moves (s : State) (lease : InstanceLease) : Action → State → Prop
  | passTime {now : ℤ} (h : s.clock ≤ now) : Moves s lease (.passTime now) { s with clock := now }
  | begin (h : s.tick = none) : Moves s lease .begin
      { s with tick := some (renewLeaseIfDue (some lease)), awaiting := none }
  | notDue {now : ℤ} (h : s.tick = some (renewLeaseIfDue (some lease)))
      (hd : now < lease.expiresAt - renewalMarginSeconds) : Moves s lease (.readClock now)
      { s with lease := some lease, tick := none, awaiting := none }
  | due {now : ℤ} (h : s.tick = some (renewLeaseIfDue (some lease)))
      (hd : ¬ now < lease.expiresAt - renewalMarginSeconds) : Moves s lease (.readClock now)
      { s with tick := some (renewal lease), awaiting := none }
  | send (h : s.tick = some (renewal lease)) (ha : s.awaiting = none) : Moves s lease .send
      { s with
        tick := some (renewal lease)
        requests := s.requests ++ [lease.revision], awaiting := some s.requests.length }
  | process {request : ℕ} {expected : ℤ} (expiry : ℤ) (h : s.requests[request]? = some expected) :
      Moves s lease (.process request expiry)
        { s with
          registration := (s.registration.renew s.clock expected expiry).1
          responses := s.responses ++ [(request, (s.registration.renew s.clock expected expiry).2)] }
  | receive {i request : ℕ} {response : Response RenewedLease}
      (h : s.tick = some (renewal lease)) (hr : s.responses[i]? = some (request, response))
      (ha : s.awaiting = some request) : Moves s lease (.receive i)
        { s with
          lease := some (lease.renewed (parseRenewalResponse response))
          tick := none, awaiting := none }
  | fail {error : LibrarianError} (h : s.tick = some (renewal lease)) : Moves s lease (.fail error)
      { s with lease := some lease, tick := none, awaiting := none }

/-- The tick in progress goes on with the tracked lease. -/
def InPhase (s : State) (lease : InstanceLease) : Prop :=
  s.tick = none ∨ s.tick = some (renewLeaseIfDue (some lease)) ∨ s.tick = some (renewal lease)

theorem step_moves {s s' : State} {lease : InstanceLease} {a : Action}
    (hl : s.lease = some lease) (hp : InPhase s lease) (h : step s a = some s') :
    Moves s lease a s' := by
  cases a with
  | passTime now =>
    simp only [step] at h
    split at h
    · rename_i hle
      cases h
      exact .passTime hle
    · cases h
  | begin =>
    simp only [step] at h
    split at h
    · rename_i hn
      cases h
      rw [hl]
      exact .begin (by simpa using hn)
    · cases h
  | readClock now =>
    rcases hp with hp | hp | hp
    · simp [step, hp] at h
    · by_cases hd : now < lease.expiresAt - renewalMarginSeconds
      · simp only [step, hp, renewLeaseIfDue, if_pos hd, State.resume, Option.some.injEq] at h
        rw [← h]
        exact .notDue hp hd
      · simp only [step, hp, renewLeaseIfDue, if_neg hd, State.resume, Option.some.injEq] at h
        rw [← h]
        exact .due hp hd
    · simp [step, hp, renewal] at h
  | send =>
    rcases hp with hp | hp | hp
    · simp [step, hp] at h
    · simp [step, hp, renewLeaseIfDue] at h
    · cases ha : s.awaiting with
      | none =>
        simp only [step, hp, renewal, ha, Option.some.injEq] at h
        rw [← h]
        exact .send hp ha
      | some n => simp [step, hp, renewal, ha] at h
  | process request expiry =>
    simp only [step] at h
    split at h
    · rename_i hr
      cases h
      exact .process expiry hr
    · cases h
  | receive i =>
    rcases hp with hp | hp | hp
    · simp [step, hp] at h
    · simp [step, hp, renewLeaseIfDue] at h
    · cases hr : s.responses[i]? with
      | none => simp [step, hp, renewal, hr] at h
      | some p =>
        rcases p with ⟨request, response⟩
        simp only [step, hp, renewal, hr] at h
        split at h
        · rename_i ha
          cases h
          exact .receive hp hr ha
        · cases h
  | fail error =>
    rcases hp with hp | hp | hp
    · simp [step, hp] at h
    · simp [step, hp, renewLeaseIfDue] at h
    · simp only [step, hp, renewal, Option.some.injEq] at h
      rw [← h]
      exact .fail hp

section Sample

/-- A run of an instance that was enrolled at second 0 for a minute. -/
def sampleRun (actions : List Action) : Option State :=
  System.run step (.initial 0 ⟨60, 1⟩) actions

def sampleRecord (actions : List Action) : List (State × Action) :=
  System.record step (.initial 0 ⟨60, 1⟩) actions

theorem trace_sampleRun {actions : List Action} (h : (sampleRun actions).isSome = true) :
    system.Trace (sampleRecord actions) ((sampleRun actions).get h) := by
  have hstart : system.Trace [] (.initial 0 ⟨60, 1⟩) := .start ⟨0, ⟨60, 1⟩, rfl⟩
  exact System.trace_record (fun _ _ _ hs => hs) hstart (Option.eq_some_of_isSome h)

/-- A tick at second 45 up to its request. -/
def askRun : List Action := [.passTime 45, .begin, .readClock 45, .send]

/-- The first request is overtaken by its retry, and both reach the kernel. -/
def overtakenRun : List Action :=
  askRun ++ .fail .client :: askRun ++ [.process 1 105, .process 0 105, .receive 0]

/-- The kernel renews the lease and its response is lost. -/
def lostRun : List Action := askRun ++ [.process 0 105, .fail .client]

end Sample
end Librarian.Lease
