import Librarian.Kernel.Routes
import Librarian.Store.System
import Librarian.WorkOnce

/-! # Any number of instances, the kernel and the database

Each instance runs passes of `workOnce`, one after another, and makes one call at a time. A
kernel call reaches the kernel and is answered in one action, or its caller gives up or
crashes first and the request may reach the kernel at any later time. Inside a repository
call the store takes its own steps.
-/
namespace Librarian.Service
open Foundation Postgres

/-- The rest of a pass. -/
abbrev Pass := Program PortOp PortOp.Ans (Except LibrarianError WorkOutcome)

inductive Instance where
  | idle
  | running (pass : Pass)
  | storing (serial : ℕ) (call : RepositoryCall) (next : call.Ans → Pass)

/-- `sent` are the kernel calls whose callers no longer wait for an answer. -/
structure State where
  kernel : Kernel
  store : Store.State
  inst : ℕ → Instance
  sent : List KernelCall

def State.initial (clock : ℤ) : State := ⟨.empty, .initial clock, fun _ => .idle, []⟩

/-- `invoke` to `crash` are done by instance `i`, the first three by the kernel. -/
inductive Action where
  | accept (request : RoutedRequest)
  | addRoute (routeId requestId : String)
  | expire (routeId : String)
  | arrive (call : KernelCall) (response : Response call.Body)
  | start (i : ℕ) (leaseSeconds : ℤ)
  | ask (i : ℕ) (call : KernelCall) (response : Response call.Body)
  | giveUp (i : ℕ) (error : LibrarianError)
  | invoke (i serial : ℕ)
  | store (a : Store.Action)
  | answer (i : ℕ)
  | finish (i : ℕ)
  | crash (i : ℕ)

def State.setInst (s : State) (i : ℕ) (x : Instance) : State :=
  { s with inst := Function.update s.inst i x }

@[simp] theorem State.setInst_self (s : State) (i : ℕ) (x : Instance) :
    (s.setInst i x).inst i = x := Function.update_self _ _ _

theorem State.setInst_other (s : State) {i j : ℕ} (x : Instance) (h : j ≠ i) :
    (s.setInst i x).inst j = s.inst j := Function.update_of_ne h _ _

/-- The answer of a repository call, taken from its result. -/
def answerOf : (call : RepositoryCall) → RepositoryResult → Option call.Ans
  | .put _ _, .put outcome => some outcome
  | .get _ _, .get document => some document
  | .search _ _, .search hits => some hits
  | _, _ => none

/-- The steps the store takes by itself while a call is running. -/
def isInner : Store.Action → Bool
  | .invoke _ _ | .crash _ => false
  | _ => true

/-- The kernel call an instance is about to make. -/
def Instance.asks : Instance → Option KernelCall
  | .running (.call (.kernel call) _) => some call
  | _ => none

theorem Instance.asks_eq_some {x : Instance} {call : KernelCall} (h : x.asks = some call) :
    ∃ next, x = .running (.call (.kernel call) next) := by
  unfold asks at h
  split at h
  · rename_i next
    cases h
    exact ⟨next, rfl⟩
  · cases h

/-- One action, or `none` where it cannot happen now. -/
def step [Sha256] [TextSearch] [UuidText] (s : State) : Action → Option State
  | .accept request => (s.kernel.accept request).map fun k => { s with kernel := k }
  | .addRoute routeId requestId =>
    (s.kernel.addRoute routeId requestId).map fun k => { s with kernel := k }
  | .expire routeId => (s.kernel.expire routeId).map fun k => { s with kernel := k }
  | .arrive call response =>
    if call ∈ s.sent then (s.kernel.respond call response).map fun k => { s with kernel := k }
    else none
  | .start i leaseSeconds =>
    match s.inst i with
    | .idle => some (s.setInst i (.running (workOnce leaseSeconds).run))
    | _ => none
  | .ask i call response =>
    match s.inst i with
    | .running (.call (.kernel asked) next) =>
      if h : call = asked then
        (s.kernel.respond call response).map fun k =>
          { s.setInst i (.running (next (h ▸ call.parse response))) with kernel := k }
      else none
    | _ => none
  | .giveUp i error =>
    match s.inst i with
    | .running (.call (.kernel call) next) =>
      some { s.setInst i (.running (next (.error error))) with sent := call :: s.sent }
    | _ => none
  | .invoke i serial =>
    match s.inst i with
    | .running (.call (.repository call) next) =>
      (Store.step s.store (.invoke ⟨i, serial⟩ call)).map fun store =>
        { s.setInst i (.storing serial call next) with store := store }
    | _ => none
  | .store a =>
    if isInner a then (Store.step s.store a).map fun store => { s with store := store } else none
  | .answer i =>
    match s.inst i with
    | .storing serial call next =>
      match s.store.client ⟨i, serial⟩ with
      | .finished _ res => (answerOf call res).map fun ans => s.setInst i (.running (next ans))
      | _ => none
    | _ => none
  | .finish i =>
    match s.inst i with
    | .running (.ret _) => some (s.setInst i .idle)
    | _ => none
  | .crash i =>
    match s.inst i with
    | .storing serial _ _ =>
      match Store.step s.store (.crash ⟨i, serial⟩) with
      | some store => some { s.setInst i .idle with store := store }
      | none => some (s.setInst i .idle)
    | x => some { s.setInst i .idle with sent := x.asks.toList ++ s.sent }

def system [Sha256] [TextSearch] [UuidText] : System State Action where
  init s := ∃ clock, s = .initial clock
  step s a s' := step s a = some s'

/-- All a step can do. -/
inductive Moves [Sha256] [TextSearch] [UuidText] (s : State) : Action → State → Prop
  | accept {request : RoutedRequest} {k : Kernel} (h : s.kernel.accept request = some k) :
      Moves s (.accept request) { s with kernel := k }
  | addRoute {routeId requestId : String} {k : Kernel}
      (h : s.kernel.addRoute routeId requestId = some k) :
      Moves s (.addRoute routeId requestId) { s with kernel := k }
  | expire {routeId : String} {k : Kernel} (h : s.kernel.expire routeId = some k) :
      Moves s (.expire routeId) { s with kernel := k }
  | arrive {call : KernelCall} {response : Response call.Body} {k : Kernel} (hs : call ∈ s.sent)
      (h : s.kernel.respond call response = some k) :
      Moves s (.arrive call response) { s with kernel := k }
  | start {i : ℕ} (leaseSeconds : ℤ) (hi : s.inst i = .idle) :
      Moves s (.start i leaseSeconds) (s.setInst i (.running (workOnce leaseSeconds).run))
  | ask {i : ℕ} {call : KernelCall} {response : Response call.Body}
      {next : Except LibrarianError call.Outcome → Pass} {k : Kernel}
      (hi : s.inst i = .running (.call (.kernel call) next))
      (h : s.kernel.respond call response = some k) :
      Moves s (.ask i call response)
        { s.setInst i (.running (next (call.parse response))) with kernel := k }
  | giveUp {i : ℕ} {call : KernelCall} {next : Except LibrarianError call.Outcome → Pass}
      (error : LibrarianError) (hi : s.inst i = .running (.call (.kernel call) next)) :
      Moves s (.giveUp i error)
        { s.setInst i (.running (next (.error error))) with sent := call :: s.sent }
  | invoke {i serial : ℕ} {call : RepositoryCall} {next : call.Ans → Pass} {store : Store.State}
      (hi : s.inst i = .running (.call (.repository call) next))
      (h : Store.step s.store (.invoke ⟨i, serial⟩ call) = some store) :
      Moves s (.invoke i serial) { s.setInst i (.storing serial call next) with store := store }
  | store {a : Store.Action} {store : Store.State} (ha : isInner a = true)
      (h : Store.step s.store a = some store) : Moves s (.store a) { s with store := store }
  | answer {i serial : ℕ} {call op : RepositoryCall} {next : call.Ans → Pass}
      {res : RepositoryResult} {ans : call.Ans} (hi : s.inst i = .storing serial call next)
      (hc : s.store.client ⟨i, serial⟩ = .finished op res) (ha : answerOf call res = some ans) :
      Moves s (.answer i) (s.setInst i (.running (next ans)))
  | finish {i : ℕ} {res : Except LibrarianError WorkOutcome}
      (hi : s.inst i = .running (.ret res)) : Moves s (.finish i) (s.setInst i .idle)
  | crash {i : ℕ} {store : Store.State} {sent : List KernelCall}
      (hstore : store = s.store ∨ ∃ c, Store.step s.store (.crash c) = some store)
      (hsent : sent = s.sent ∨ ∃ call next, s.inst i = .running (.call (.kernel call) next) ∧
        sent = call :: s.sent) :
      Moves s (.crash i) { s.setInst i .idle with store := store, sent := sent }

theorem step_moves [Sha256] [TextSearch] [UuidText] {s s' : State} {a : Action}
    (h : step s a = some s') : Moves s a s' := by
  cases a with
  | accept request =>
    rcases Option.map_eq_some_iff.mp h with ⟨k, hk, rfl⟩
    exact .accept hk
  | addRoute routeId requestId =>
    rcases Option.map_eq_some_iff.mp h with ⟨k, hk, rfl⟩
    exact .addRoute hk
  | expire routeId =>
    rcases Option.map_eq_some_iff.mp h with ⟨k, hk, rfl⟩
    exact .expire hk
  | arrive call response =>
    simp only [step] at h
    split at h
    · rename_i hs
      rcases Option.map_eq_some_iff.mp h with ⟨k, hk, rfl⟩
      exact .arrive hs hk
    · cases h
  | start i leaseSeconds =>
    simp only [step] at h
    split at h
    · rename_i hi
      cases h
      exact .start leaseSeconds hi
    · cases h
  | ask i call response =>
    simp only [step] at h
    split at h
    · rename_i asked next hi
      split at h
      · rename_i heq
        subst heq
        rcases Option.map_eq_some_iff.mp h with ⟨k, hk, rfl⟩
        exact .ask hi hk
      · cases h
    · cases h
  | giveUp i error =>
    simp only [step] at h
    split at h
    · rename_i hi
      cases h
      exact .giveUp error hi
    · cases h
  | invoke i serial =>
    simp only [step] at h
    split at h
    · rename_i hi
      rcases Option.map_eq_some_iff.mp h with ⟨store, hstore, rfl⟩
      exact .invoke hi hstore
    · cases h
  | store a =>
    simp only [step] at h
    split at h
    · rename_i ha
      rcases Option.map_eq_some_iff.mp h with ⟨store, hstore, rfl⟩
      exact .store ha hstore
    · cases h
  | answer i =>
    simp only [step] at h
    split at h
    · rename_i hi
      split at h
      · rename_i hc
        rcases Option.map_eq_some_iff.mp h with ⟨ans, hans, rfl⟩
        exact .answer hi hc hans
      · cases h
    · cases h
  | finish i =>
    simp only [step] at h
    split at h
    · rename_i hi
      cases h
      exact .finish hi
    · cases h
  | crash i =>
    simp only [step] at h
    split at h
    · split at h
      · rename_i store hstore
        cases h
        exact .crash (.inr ⟨_, hstore⟩) (.inl rfl)
      · cases h
        exact .crash (.inl rfl) (.inl rfl)
    · cases h
      apply Moves.crash (.inl rfl)
      cases hasks : (s.inst i).asks with
      | none => exact .inl rfl
      | some call =>
        rcases Instance.asks_eq_some hasks with ⟨next, hi⟩
        exact .inr ⟨call, next, hi, rfl⟩

end Librarian.Service
