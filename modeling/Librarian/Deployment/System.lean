import Librarian.Config
import Librarian.Foundation.Transition

/-! # The starts of a deployment against the kernel's enrollment

All processes of a deployment find the same variables, but for the name of their pod. The
kernel accepts a challenge once: one that an operator issued out of band, or one that it issued
to the process that asked. An enrollment may reach the kernel after its sender stopped waiting.
-/
namespace Librarian.Deployment
open Foundation

/-- What the processes find when they start. -/
structure Surroundings where
  var : String → Option String
  podUid : ℕ → Option String
  readFile : String → Option (List UInt8)
  readToString : ℕ → String → Option String

/-- The variables of one process. -/
def Surroundings.varOf (d : Surroundings) (i : ℕ) (name : String) : Option String :=
  if name = podUidEnv then d.podUid i else d.var name

/-- An enrollment that the kernel accepted. -/
structure Grant where
  process : ℕ
  challenge : Challenge
  lease : RenewedLease
  deriving DecidableEq

/-- The challenges and the enrollments as the kernel records them. -/
structure Ledger where
  outOfBand : List Challenge
  issued : List (ℕ × Challenge)
  grants : List Grant

namespace Ledger
variable (l : Ledger)

/-- The challenge was issued and has not been used. -/
def Outstanding (c : Challenge) : Prop :=
  (c ∈ l.outOfBand ∨ c ∈ l.issued.map (·.2)) ∧ c ∉ l.grants.map (·.challenge)

def Fresh (c : Challenge) : Prop := c ∉ l.outOfBand ∧ c ∉ l.issued.map (·.2)

instance (c : Challenge) : Decidable (l.Outstanding c) :=
  inferInstanceAs (Decidable (_ ∧ _))

instance (c : Challenge) : Decidable (l.Fresh c) := inferInstanceAs (Decidable (_ ∧ _))

def issue (i : ℕ) (c : Challenge) : Ledger := { l with issued := (i, c) :: l.issued }

/-- An enrollment reaches the kernel; the answer is the lease, if it is accepted. -/
def enroll (g : Grant) : Ledger × Option RenewedLease :=
  if l.Outstanding g.challenge then ({ l with grants := g :: l.grants }, some g.lease) else (l, none)

end Ledger

/-- What is left of a configuration. -/
abbrev Rest := Program ConfigOp ConfigOp.Ans (Except ConfigError Config)

inductive Start where
  | idle
  | running (rest : Rest)
  | finished (result : Except ConfigError Config)
  | crashed

def Start.resume : Rest → Start
  | .ret result => .finished result
  | rest => .running rest

/-- The enrollment a process waits for. -/
def Start.pendingEnrollment (i : ℕ) : Start → List (ℕ × Challenge)
  | .running (.call (.enroll _ c _ _ _) _) => [(i, c)]
  | _ => []

/-- `abandoned` are the enrollments whose senders no longer wait and that may still arrive. -/
structure State where
  ledger : Ledger
  start : ℕ → Start
  abandoned : List (ℕ × Challenge)

inductive Action where
  | begin (i : ℕ)
  | proceed (i : ℕ)
  | fail (i : ℕ)
  | crash (i : ℕ)
  | issue (i : ℕ) (c : Challenge) (delivered : Bool)
  | enroll (i : ℕ) (lease : RenewedLease) (delivered : Bool)
  | subscription (i : ℕ) (op : SubscriptionOp) (ans : op.Ans)
  | arrive (i : ℕ) (c : Challenge) (lease : RenewedLease)

namespace State

def set (s : State) (i : ℕ) (start : Start) : State :=
  { s with start := Function.update s.start i start }

theorem set_self (s : State) (i : ℕ) (start : Start) : (s.set i start).start i = start :=
  Function.update_self _ _ _

theorem set_other (s : State) {i j : ℕ} (start : Start) (h : j ≠ i) :
    (s.set i start).start j = s.start j := Function.update_of_ne h _ _

/-- Process `i` stops waiting. -/
def abandon (s : State) (i : ℕ) (start : Start) : State :=
  { s.set i start with abandoned := (s.start i).pendingEnrollment i ++ s.abandoned }

end State

/-- What a process learns without the kernel, if nothing goes wrong. -/
def proceeds (d : Surroundings) (i : ℕ) : (op : ConfigOp) → Option op.Ans
  | .var name => some (d.varOf i name)
  | .readFile path => some (d.readFile path)
  | .readToString path => some (d.readToString i path)
  | .requestChallenge _ _ _ | .enroll _ _ _ _ _ | .subscription _ => none
  | .newClient _ | .parsePostgresConfig _ | .buildPool _ _ | .getConnection | .simpleQuery _ |
    .batchExecute => some (some ())

/-- What it learns if a call goes wrong. -/
def failure : (op : ConfigOp) → Option op.Ans
  | .var _ | .readFile _ | .readToString _ | .subscription _ => none
  | .newClient _ | .parsePostgresConfig _ | .buildPool _ _ | .getConnection | .simpleQuery _ |
    .batchExecute => some (none : Option Unit)
  | .requestChallenge _ _ _ => some (none : Option Challenge)
  | .enroll _ _ _ _ _ => some (none : Option RenewedLease)

variable [UrlSafeNoPad] [UuidText]

/-- One action, or `none` where it cannot happen now. -/
def step (d : Surroundings) (s : State) : Action → Option State
  | .begin i =>
    match s.start i with
    | .idle => some (s.set i (.resume Config.fromEnv.run))
    | _ => none
  | .proceed i =>
    match s.start i with
    | .running (.call op next) => (proceeds d i op).map fun ans => s.set i (.resume (next ans))
    | _ => none
  | .fail i =>
    match s.start i with
    | .running (.call op next) => (failure op).map fun ans => s.abandon i (.resume (next ans))
    | _ => none
  | .crash i =>
    match s.start i with
    | .running _ => some (s.abandon i .crashed)
    | _ => none
  | .issue i c delivered =>
    match s.start i with
    | .running (.call (.requestChallenge _ _ _) next) =>
      if s.ledger.Fresh c then
        some { s.set i (.resume (next (if delivered then some c else none))) with
          ledger := s.ledger.issue i c }
      else none
    | _ => none
  | .enroll i lease delivered =>
    match s.start i with
    | .running (.call (.enroll _ c _ _ _) next) =>
      let (ledger, answer) := s.ledger.enroll ⟨i, c, lease⟩
      some { s.set i (.resume (next (if delivered then answer else none))) with ledger := ledger }
    | _ => none
  | .subscription i op ans =>
    match s.start i with
    | .running (.call (.subscription asked) next) =>
      if h : op = asked then some (s.set i (.resume (next (h ▸ ans)))) else none
    | _ => none
  | .arrive i c lease =>
    if (i, c) ∈ s.abandoned then
      some { s with ledger := (s.ledger.enroll ⟨i, c, lease⟩).1 }
    else none

/-- At first no process has started and no challenge has been used. -/
def system (d : Surroundings) : System State Action where
  init s := s.ledger.issued = [] ∧ s.ledger.grants = [] ∧ (∀ i, s.start i = .idle) ∧ s.abandoned = []
  step s a s' := step d s a = some s'

/-- What process `i` may be told when it does `op`, with the kernel's record after it. -/
inductive Answered (d : Surroundings) (l : Ledger) (i : ℕ) : (op : ConfigOp) → op.Ans → Ledger → Prop
  | proceeds {op : ConfigOp} {ans : op.Ans} (h : proceeds d i op = some ans) : Answered d l i op ans l
  | failure {op : ConfigOp} {ans : op.Ans} (h : failure op = some ans) : Answered d l i op ans l
  | issue {baseUrl podUid token : String} {c : Challenge} (delivered : Bool) (h : l.Fresh c) :
      Answered d l i (.requestChallenge baseUrl podUid token) (if delivered then some c else none)
        (l.issue i c)
  | enroll {baseUrl endpoint podUid token : String} {c : Challenge} (lease : RenewedLease)
      (delivered : Bool) :
      Answered d l i (.enroll baseUrl c endpoint podUid token)
        (if delivered then (l.enroll ⟨i, c, lease⟩).2 else none) (l.enroll ⟨i, c, lease⟩).1
  | subscription {op : SubscriptionOp} (ans : op.Ans) : Answered d l i (.subscription op) ans l

/-- All a step can do. -/
inductive Moves (d : Surroundings) (s : State) : Action → State → Prop
  | begin {i : ℕ} (h : s.start i = .idle) :
      Moves d s (.begin i) (s.set i (.resume Config.fromEnv.run))
  | answered {a : Action} {i : ℕ} {op : ConfigOp} {next : op.Ans → Rest} {ans : op.Ans} {l : Ledger}
      {abandoned : List (ℕ × Challenge)} (h : s.start i = .running (.call op next))
      (ha : Answered d s.ledger i op ans l)
      (hab : abandoned = s.abandoned ∨ failure op = some ans ∧
        abandoned = (s.start i).pendingEnrollment i ++ s.abandoned) :
      Moves d s a { s.set i (.resume (next ans)) with ledger := l, abandoned := abandoned }
  | crash {i : ℕ} {rest : Rest} (h : s.start i = .running rest) :
      Moves d s (.crash i) (s.abandon i .crashed)
  | arrive {i : ℕ} {c : Challenge} (lease : RenewedLease) (h : (i, c) ∈ s.abandoned) :
      Moves d s (.arrive i c lease) { s with ledger := (s.ledger.enroll ⟨i, c, lease⟩).1 }

theorem step_moves {d : Surroundings} {s s' : State} {a : Action} (h : step d s a = some s') :
    Moves d s a s' := by
  cases a with
  | begin i =>
    simp only [step] at h
    split at h
    · rename_i hi
      cases h
      exact .begin hi
    · cases h
  | proceed i =>
    simp only [step] at h
    split at h
    · rename_i op next hi
      rcases Option.map_eq_some_iff.mp h with ⟨ans, hans, rfl⟩
      exact .answered hi (.proceeds hans) (.inl rfl)
    · cases h
  | fail i =>
    simp only [step] at h
    split at h
    · rename_i op next hi
      rcases Option.map_eq_some_iff.mp h with ⟨ans, hans, rfl⟩
      exact .answered hi (.failure hans) (.inr ⟨hans, rfl⟩)
    · cases h
  | crash i =>
    simp only [step] at h
    split at h
    · rename_i rest hi
      cases h
      exact .crash hi
    · cases h
  | issue i c delivered =>
    simp only [step] at h
    split at h
    · rename_i hi
      split at h
      · rename_i hfresh
        cases h
        exact .answered hi (.issue delivered hfresh) (.inl rfl)
      · cases h
    · cases h
  | enroll i lease delivered =>
    simp only [step] at h
    split at h
    · rename_i hi
      cases h
      exact .answered hi (.enroll lease delivered) (.inl rfl)
    · cases h
  | subscription i op ans =>
    simp only [step] at h
    split at h
    · rename_i asked next hi
      split at h
      · rename_i heq
        subst heq
        cases h
        exact .answered hi (.subscription ans) (.inl rfl)
      · cases h
    · cases h
  | arrive i c lease =>
    simp only [step] at h
    split at h
    · rename_i hmem
      cases h
      exact .arrive lease hmem
    · cases h

end Librarian.Deployment
