import Librarian.Foundation.Transition
import Librarian.Subscriptions

/-! # Starts of the service against the kernel's subscriptions

Every start makes sure of a subscription for each action. A start does nothing until it has
read the answer to its call, so the kernel processes and answers a call in one action. Where an
answer is lost, the caller gives up first and its create may still reach the kernel.
-/
namespace Librarian.Startup
open Foundation

/-- What is left of a start's calls. -/
abbrev Rest := Program SubscriptionOp SubscriptionOp.Ans (Except LibrarianError Unit)

inductive Start where
  | idle
  | running (rest : Rest)
  | finished (result : Except LibrarianError Unit)
  | crashed

def Start.resume : Rest → Start
  | .ret result => .finished result
  | rest => .running rest

/-- The call a start waits for, if it is a create. -/
def Start.pendingCreate : Start → List String
  | .running (.call (.createSubscription eventType) _) => [eventType]
  | _ => []

/-- The active subscriptions for one event type. -/
def activeFor (subscriptions : List Subscription) (eventType : String) : List Subscription :=
  subscriptions.filter fun s => s.active && s.eventType = eventType

/-- What the kernel does with a create for an event type that has an active subscription. -/
inductive Policy where
  | accept
  | reject (status : ℕ) (h : status ≠ 201)
  deriving DecidableEq

namespace Policy

def create (policy : Policy) (subscriptions : List Subscription) (created : Subscription) :
    List Subscription × Response Subscription :=
  match policy with
  | .accept => (subscriptions ++ [created], ⟨201, .ok created⟩)
  | .reject status _ =>
    if activeFor subscriptions created.eventType = [] then
      (subscriptions ++ [created], ⟨201, .ok created⟩)
    else (subscriptions, ⟨status, .error "duplicate"⟩)

/-- The error a start reads from the rejection of a duplicate. -/
def isRejection (policy : Policy) (error : LibrarianError) : Bool :=
  match policy with
  | .accept => false
  | .reject status _ => error = .unexpectedStatus status

end Policy

/-- `abandoned` are the creates whose callers no longer wait and that may still arrive. -/
structure State where
  subscriptions : List Subscription
  start : ℕ → Start
  abandoned : List (ℕ × String)

inductive Action where
  | begin (start : ℕ)
  | list (start : ℕ)
  | create (start : ℕ) (created : Subscription)
  | fail (start : ℕ) (error : LibrarianError)
  | crash (start : ℕ)
  | arrive (start : ℕ) (created : Subscription)
  deriving DecidableEq

/-- The event type of the create that an action brings to the kernel. -/
def Action.creates : Action → Option String
  | .create _ created => some created.eventType
  | .arrive _ created => some created.eventType
  | _ => none

namespace State

def set (s : State) (i : ℕ) (start : Start) : State :=
  { s with start := Function.update s.start i start }

theorem set_self (s : State) (i : ℕ) (start : Start) : (s.set i start).start i = start :=
  Function.update_self _ _ _

theorem set_other (s : State) {i j : ℕ} (start : Start) (h : j ≠ i) :
    (s.set i start).start j = s.start j := Function.update_of_ne h _ _

/-- Start `i` stops waiting. -/
def abandon (s : State) (i : ℕ) (start : Start) : State :=
  { s.set i start with
    abandoned := s.abandoned ++ (s.start i).pendingCreate.map fun eventType => (i, eventType) }

/-- An abandoned create of start `i` reaches the kernel. -/
def arrive (s : State) (policy : Policy) (i : ℕ) (new : Subscription) : State :=
  { s with
    subscriptions := (policy.create s.subscriptions new).1
    abandoned := s.abandoned.erase (i, new.eventType) }

end State

/-- What is left after the awaited call ended in an error. -/
def failed (error : LibrarianError) : Rest → Rest
  | .ret result => .ret result
  | .call .activeSubscriptions next => next (.error error)
  | .call (.createSubscription _) next => next (.error error)

/-- One action, or `none` where it cannot happen now. `fail` is every way in which a call ends
in an error, other than the rejection of a duplicate. -/
def step (policy : Policy) (s : State) : Action → Option State
  | .begin i =>
    match s.start i with
    | .idle => some (s.set i (.resume (ensureAll actions).run))
    | _ => none
  | .list i =>
    match s.start i with
    | .running (.call .activeSubscriptions next) =>
      let response := ⟨200, .ok (s.subscriptions.filter (·.active))⟩
      some (s.set i (.resume (next (parseSubscriptionList response))))
    | _ => none
  | .create i created =>
    match s.start i with
    | .running (.call (.createSubscription eventType) next) =>
      if created.eventType = eventType ∧ created.active = true then
        let (subscriptions, response) := policy.create s.subscriptions created
        some { s.set i (.resume (next (parseCreateSubscriptionResponse response))) with
          subscriptions := subscriptions }
      else none
    | _ => none
  | .fail i error =>
    match s.start i with
    | .running rest =>
      if policy.isRejection error then none
      else some (s.abandon i (.resume (failed error rest)))
    | _ => none
  | .crash i =>
    match s.start i with
    | .running _ => some (s.abandon i .crashed)
    | _ => none
  | .arrive i created =>
    if (i, created.eventType) ∈ s.abandoned ∧ created.active = true then
      some (s.arrive policy i created)
    else none

/-- At first no process of the service has started and no event type has two subscriptions. -/
def system (policy : Policy) : System State Action where
  init s := (∀ eventType, (activeFor s.subscriptions eventType).length ≤ 1) ∧
    (∀ i, s.start i = .idle) ∧ s.abandoned = []
  step s a s' := step policy s a = some s'

/-- The rest of a start that is about to create a subscription. -/
def creating (eventType : String) (rest : List String) : Rest :=
  .call (.createSubscription eventType) fun
    | .ok _ => (ensureAll rest).run
    | .error error => .ret (.error error)

/-- A start after the answer to its list. -/
def listed (eventType : String) (rest : List String) :
    Except LibrarianError (List Subscription) → Rest
  | .ok subscriptions =>
    if subscriptions.any fun s => s.eventType = eventType then (ensureAll rest).run
    else creating eventType rest
  | .error error => .ret (.error error)

theorem ensureAll_cons {eventType : String} {rest : List String} :
    (ensureAll (eventType :: rest)).run = .call .activeSubscriptions (listed eventType rest) := by
  refine congrArg (Program.call SubscriptionOp.activeSubscriptions) (funext fun ans => ?_)
  cases ans with
  | error error => rfl
  | ok subscriptions =>
    by_cases h : subscriptions.any (fun s => s.eventType = eventType) = true
    · simp only [listed, h, if_true, Program.bind, ExceptT.bindCont]
      rfl
    · simp only [listed, h, Program.bind, ExceptT.bindCont]
      refine congrArg (Program.call (SubscriptionOp.createSubscription eventType))
        (funext fun ans => ?_)
      cases ans with
      | error error => rfl
      | ok created => rfl

/-- The check of the startup on what the kernel lists. -/
theorem any_active {subscriptions : List Subscription} {eventType : String} :
    (subscriptions.filter (·.active)).any (fun s => s.eventType = eventType) = true ↔
      activeFor subscriptions eventType ≠ [] := by
  simp [activeFor]

/-- A running start is about to list the subscriptions or to create one. -/
def InPhase (start : Start) : Prop :=
  ∀ rest, start = .running rest →
    (∃ eventType left, rest = (ensureAll (eventType :: left)).run) ∨
      ∃ eventType left, rest = creating eventType left

/-- The start with the actions `left` still to ensure. -/
def ensuring (left : List String) : Start := .resume (ensureAll left).run

theorem ensuring_cons {eventType : String} {left : List String} :
    ensuring (eventType :: left) = .running (ensureAll (eventType :: left)).run := by
  rw [ensuring, ensureAll_cons]
  rfl

/-- A start after the answer to its create. -/
def created (left : List String) : Except LibrarianError Subscription → Start
  | .ok _ => ensuring left
  | .error error => .finished (.error error)

/-- All a step can do while every start is in a phase. -/
inductive Moves (policy : Policy) (s : State) : Action → State → Prop
  | begin {i : ℕ} (h : s.start i = .idle) : Moves policy s (.begin i) (s.set i (ensuring actions))
  | found {i : ℕ} {eventType : String} {left : List String}
      (h : s.start i = ensuring (eventType :: left))
      (ha : activeFor s.subscriptions eventType ≠ []) :
      Moves policy s (.list i) (s.set i (ensuring left))
  | missing {i : ℕ} {eventType : String} {left : List String}
      (h : s.start i = ensuring (eventType :: left))
      (ha : activeFor s.subscriptions eventType = []) :
      Moves policy s (.list i) (s.set i (.running (creating eventType left)))
  | create {i : ℕ} {new : Subscription} {left : List String}
      (h : s.start i = .running (creating new.eventType left)) (ha : new.active = true) :
      Moves policy s (.create i new)
        { s.set i (created left
            (parseCreateSubscriptionResponse (policy.create s.subscriptions new).2)) with
          subscriptions := (policy.create s.subscriptions new).1 }
  | fail {i : ℕ} {rest : Rest} {error : LibrarianError} (h : s.start i = .running rest)
      (he : policy.isRejection error = false) :
      Moves policy s (.fail i error) (s.abandon i (.finished (.error error)))
  | crash {i : ℕ} {rest : Rest} (h : s.start i = .running rest) :
      Moves policy s (.crash i) (s.abandon i .crashed)
  | arrive {i : ℕ} {new : Subscription} (h : (i, new.eventType) ∈ s.abandoned)
      (ha : new.active = true) : Moves policy s (.arrive i new) (s.arrive policy i new)

theorem InPhase.failed {start : Start} {rest : Rest} {error : LibrarianError}
    (hp : InPhase start) (h : start = .running rest) : failed error rest = .ret (.error error) := by
  rcases hp rest h with ⟨eventType, left, rfl⟩ | ⟨eventType, left, rfl⟩
  · rw [ensureAll_cons]
    rfl
  · rfl

theorem step_list {policy : Policy} {s : State} {i : ℕ} {eventType : String}
    {left : List String} (h : s.start i = ensuring (eventType :: left)) :
    step policy s (.list i) = some (s.set i
      (if activeFor s.subscriptions eventType = [] then .running (creating eventType left)
      else ensuring left)) := by
  rw [ensuring_cons, ensureAll_cons] at h
  have hparse : parseSubscriptionList ⟨200, .ok (s.subscriptions.filter (·.active))⟩ =
      .ok (s.subscriptions.filter (·.active)) := rfl
  simp only [step, h, hparse, listed, any_active]
  by_cases ha : activeFor s.subscriptions eventType = []
  · rw [if_pos ha, if_neg (not_not.mpr ha)]
    rfl
  · rw [if_neg ha, if_pos ha]
    rfl

theorem step_create {policy : Policy} {s s' : State} {i : ℕ} {new : Subscription}
    {eventType : String} {left : List String}
    (h : s.start i = .running (creating eventType left))
    (hs : step policy s (.create i new) = some s') :
    (new.eventType = eventType ∧ new.active = true) ∧ s' =
      { s.set i (created left
          (parseCreateSubscriptionResponse (policy.create s.subscriptions new).2)) with
        subscriptions := (policy.create s.subscriptions new).1 } := by
  simp only [step, h, creating] at hs
  split at hs
  · rename_i hc
    cases hs
    refine ⟨hc, ?_⟩
    cases parseCreateSubscriptionResponse (policy.create s.subscriptions new).2 with
    | error error => rfl
    | ok subscription => rfl
  · cases hs

theorem step_moves {policy : Policy} {s s' : State} {a : Action} (hp : ∀ i, InPhase (s.start i))
    (h : step policy s a = some s') : Moves policy s a s' := by
  cases a with
  | begin i =>
    simp only [step] at h
    split at h
    · rename_i hi
      cases h
      exact .begin hi
    · cases h
  | list i =>
    cases hi : s.start i with
    | running rest =>
      rcases hp i rest hi with ⟨eventType, left, rfl⟩ | ⟨eventType, left, rfl⟩
      · rw [← ensuring_cons] at hi
        rw [step_list hi] at h
        cases h
        split
        · exact .missing hi ‹_›
        · exact .found hi ‹_›
      · simp [step, hi, creating] at h
    | _ => simp [step, hi] at h
  | create i new =>
    cases hi : s.start i with
    | running rest =>
      rcases hp i rest hi with ⟨eventType, left, rfl⟩ | ⟨eventType, left, rfl⟩
      · simp [step, hi, ensureAll_cons] at h
      · rcases step_create hi h with ⟨⟨rfl, ha⟩, rfl⟩
        exact .create hi ha
    | _ => simp [step, hi] at h
  | fail i error =>
    simp only [step] at h
    split at h
    · rename_i rest hi
      rw [(hp i).failed hi] at h
      split at h
      · cases h
      · rename_i he
        cases h
        exact .fail hi (Bool.eq_false_iff.mpr he)
    · cases h
  | crash i =>
    simp only [step] at h
    split at h
    · rename_i rest hi
      cases h
      exact .crash hi
    · cases h
  | arrive i new =>
    simp only [step] at h
    split at h
    · rename_i hc
      cases h
      exact .arrive hc.1 hc.2
    · cases h

section Sample

def sampleState : State := ⟨[], fun _ => .idle, []⟩

def sampleSubscription (eventType : String) : Subscription := ⟨"s", "d", eventType, 0, none, true⟩

/-- A run from a kernel without subscriptions. -/
def sampleRun (policy : Policy) (actions : List Action) : Option State :=
  System.run (step policy) sampleState actions

def sampleRecord (policy : Policy) (actions : List Action) : List (State × Action) :=
  System.record (step policy) sampleState actions

theorem trace_sampleRun {policy : Policy} {actions : List Action}
    (h : (sampleRun policy actions).isSome = true) :
    (system policy).Trace (sampleRecord policy actions) ((sampleRun policy actions).get h) := by
  have hstart : (system policy).Trace [] sampleState :=
    .start ⟨fun _ => Nat.zero_le _, fun _ => rfl, rfl⟩
  exact System.trace_record (fun _ _ _ hs => hs) hstart (Option.eq_some_of_isSome h)

/-- A start crashes before its last create arrives, which then comes before its successor. -/
def restartRun : List Action :=
  [.begin 0, .list 0, .create 0 (sampleSubscription putAction), .list 0,
    .create 0 (sampleSubscription getAction), .list 0, .crash 0,
    .arrive 0 (sampleSubscription searchAction), .begin 1, .list 1, .list 1, .list 1]

/-- The create of a crashed start arrives after its successor listed the subscriptions. -/
def lateRun : List Action :=
  [.begin 0, .list 0, .crash 0, .begin 1, .list 1, .arrive 0 (sampleSubscription putAction),
    .create 1 (sampleSubscription putAction)]

end Sample
end Librarian.Startup
