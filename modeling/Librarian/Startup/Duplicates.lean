import Librarian.Startup.System

/-! # When starts create no second subscription

A start checks and then creates, in two calls. Nothing goes wrong exactly when no other create
for the same action reaches the kernel between the answer to a start's list and its own create.
-/
namespace Librarian.Startup
open Foundation

/-- No rejection of a duplicate ended this start. -/
def Accepted (policy : Policy) (start : Start) : Prop :=
  ∀ error, start = .finished (.error error) → policy.isRejection error = false

/-- There is one active subscription at most for each event type, and no start failed because
of one that already existed. -/
structure Idempotent (policy : Policy) (s : State) : Prop where
  single : ∀ eventType, (activeFor s.subscriptions eventType).length ≤ 1
  accepted : ∀ i, Accepted policy (s.start i)

/-- A create for the event type has reached the kernel since start `i` listed last. -/
def Overtaken (t : List (State × Action)) (i : ℕ) (eventType : String) : Prop :=
  ∃ p ∈ t.reverse.takeWhile fun p => p.2 ≠ .list i, p.2.creates = some eventType

instance (t : List (State × Action)) (i : ℕ) (eventType : String) :
    Decidable (Overtaken t i eventType) :=
  inferInstanceAs (Decidable (∃ p ∈ t.reverse.takeWhile fun p => p.2 ≠ .list i,
    p.2.creates = some eventType))

/-- A create arrives before another one for its event type. Where the kernel rejects duplicates,
a create whose caller no longer waits does no harm. -/
def Undisturbed (policy : Policy) (t : List (State × Action)) (_ : State) : Action → Prop
  | .create i new => ¬ Overtaken t i new.eventType
  | .arrive i new => policy = .accept → ¬ Overtaken t i new.eventType
  | _ => True

instance (policy : Policy) (t : List (State × Action)) (s : State) :
    (a : Action) → Decidable (Undisturbed policy t s a)
  | .create i new => inferInstanceAs (Decidable (¬ Overtaken t i new.eventType))
  | .arrive i new =>
    inferInstanceAs (Decidable (policy = .accept → ¬ Overtaken t i new.eventType))
  | .begin _ | .list _ | .fail _ _ | .crash _ => inferInstanceAs (Decidable True)

variable {policy : Policy} {t : List (State × Action)} {s s' : State} {a : Action}
  {subscriptions : List Subscription} {new : Subscription} {eventType : String} {i : ℕ}

theorem overtaken_concat :
    Overtaken (t ++ [(s, a)]) i eventType ↔
      a ≠ .list i ∧ (a.creates = some eventType ∨ Overtaken t i eventType) := by
  by_cases ha : a = .list i
  · simp [Overtaken, ha]
  · simp [Overtaken, ha]

theorem activeFor_concat (ha : new.active = true) :
    activeFor (subscriptions ++ [new]) eventType =
      activeFor subscriptions eventType ++ if new.eventType = eventType then [new] else [] := by
  by_cases he : new.eventType = eventType <;> simp [activeFor, ha, he]

theorem create_fresh (h : activeFor subscriptions new.eventType = []) :
    policy.create subscriptions new = (subscriptions ++ [new], ⟨201, .ok new⟩) := by
  cases policy with
  | accept => rfl
  | reject status hs => simp [Policy.create, h]

theorem create_duplicate {status : ℕ} {hs : status ≠ 201}
    (h : activeFor subscriptions new.eventType ≠ []) :
    (Policy.reject status hs).create subscriptions new =
      (subscriptions, ⟨status, .error "duplicate"⟩) := by
  simp [Policy.create, h]

/-- A create only adds its own subscription, or nothing. -/
theorem create_cases : (policy.create subscriptions new).1 = subscriptions ++ [new] ∨
    activeFor subscriptions new.eventType ≠ [] ∧
      (policy.create subscriptions new).1 = subscriptions := by
  by_cases h : activeFor subscriptions new.eventType = []
  · rw [create_fresh h]
    exact .inl rfl
  · cases policy with
    | accept => exact .inl rfl
    | reject status hs =>
      rw [create_duplicate h]
      exact .inr ⟨h, rfl⟩

/-- After a create there is an active subscription for its event type, and for the others
nothing changed. -/
theorem activeFor_create (ha : new.active = true) :
    activeFor (policy.create subscriptions new).1 eventType ≠ [] ↔
      activeFor subscriptions eventType ≠ [] ∨ new.eventType = eventType := by
  have hcases : (policy.create subscriptions new).1 = subscriptions ++ [new] ∨ _ := create_cases
  rcases hcases with h | ⟨hne, h⟩
  · rw [h, activeFor_concat ha]
    by_cases he : new.eventType = eventType <;> simp [he]
  · rw [h]
    constructor
    · exact .inl
    · rintro (h | rfl)
      · exact h
      · exact hne

/-- The create of start `i` for the event type has not reached the kernel yet. -/
def Pending (s : State) (i : ℕ) (eventType : String) : Prop :=
  (i, eventType) ∈ s.abandoned ∨ eventType ∈ (s.start i).pendingCreate

/-- The start makes no more calls. -/
def Start.isOver : Start → Bool
  | .finished _ | .crashed => true
  | _ => false

structure Invariant (t : List (State × Action)) (s : State) : Prop where
  phase : ∀ i, InPhase (s.start i)
  seen : ∀ p ∈ t, ∀ eventType, p.2.creates = some eventType →
    activeFor s.subscriptions eventType ≠ []
  overtaken : ∀ i eventType, Pending s i eventType →
    activeFor s.subscriptions eventType ≠ [] → Overtaken t i eventType
  stopped : ∀ p ∈ s.abandoned, (s.start p.1).isOver = true

theorem pendingCreate_ensuring {left : List String} : (ensuring left).pendingCreate = [] := by
  cases left with
  | nil => rfl
  | cons eventType left =>
    rw [ensuring_cons, ensureAll_cons]
    rfl

theorem pendingCreate_created {left : List String} {ans : Except LibrarianError Subscription} :
    (created left ans).pendingCreate = [] := by
  cases ans with
  | ok _ => exact pendingCreate_ensuring
  | error _ => rfl

theorem inPhase_ensuring {left : List String} : InPhase (ensuring left) := by
  intro rest h
  cases left with
  | nil => cases h
  | cons eventType left =>
    rw [ensuring_cons] at h
    cases h
    exact .inl ⟨eventType, left, rfl⟩

theorem inPhase_created {left : List String} {ans : Except LibrarianError Subscription} :
    InPhase (created left ans) := by
  cases ans with
  | ok _ => exact inPhase_ensuring
  | error _ =>
    intro rest h
    cases h

/-- A step makes a subscription active only by a create, and never disables one. -/
theorem Moves.active (h : Moves policy s a s') :
    activeFor s'.subscriptions eventType ≠ [] ↔
      activeFor s.subscriptions eventType ≠ [] ∨ a.creates = some eventType := by
  cases h with
  | create h ha => simpa [Action.creates] using activeFor_create ha
  | arrive h ha => simpa [Action.creates, State.arrive] using activeFor_create ha
  | _ => simp [Action.creates, State.set, State.abandon]

theorem Invariant.not_abandoned {rest : Rest} (h : Invariant t s)
    (hi : s.start i = .running rest) : (i, eventType) ∉ s.abandoned := by
  intro hmem
  have hover := h.stopped _ hmem
  rw [hi] at hover
  cases hover

theorem pending_set {start : Start} {j : ℕ} (h : Pending (s.set i start) j eventType) :
    Pending s j eventType ∧ (j = i → (j, eventType) ∈ s.abandoned) ∨
      j = i ∧ eventType ∈ start.pendingCreate := by
  rcases h with h | h
  · exact .inl ⟨.inl h, fun _ => h⟩
  · by_cases hj : j = i
    · subst hj
      rw [State.set_self] at h
      exact .inr ⟨rfl, h⟩
    · rw [State.set_other s start hj] at h
      exact .inl ⟨.inr h, fun hji => absurd hji hj⟩

theorem pending_abandon {start : Start} {j : ℕ} (hs : start.pendingCreate = [])
    (h : Pending (s.abandon i start) j eventType) : Pending s j eventType := by
  rcases h with h | h
  · simp only [State.abandon, List.mem_append, List.mem_map] at h
    rcases h with h | ⟨other, hother, heq⟩
    · exact .inl h
    · cases heq
      exact .inr hother
  · have hset : Pending (s.set i start) j eventType := .inr h
    rcases pending_set hset with ⟨hp, -⟩ | ⟨-, hp⟩
    · exact hp
    · rw [hs] at hp
      cases hp

/-- A create that waits after a step waited before it, or its start just found no active
subscription. -/
theorem Moves.pending (h : Moves policy s a s') (hinv : Invariant t s)
    (hp : Pending s' i eventType) :
    Pending s i eventType ∧ a ≠ .list i ∨ activeFor s'.subscriptions eventType = [] := by
  cases h with
  | begin h =>
    rcases pending_set hp with ⟨hp, -⟩ | ⟨-, hp⟩
    · exact .inl ⟨hp, by simp⟩
    · rw [pendingCreate_ensuring] at hp
      cases hp
  | found h ha =>
    rw [ensuring_cons] at h
    rcases pending_set hp with ⟨hp, hlast⟩ | ⟨-, hp⟩
    · refine .inl ⟨hp, ?_⟩
      rintro ⟨⟩
      exact hinv.not_abandoned h (hlast rfl)
    · rw [pendingCreate_ensuring] at hp
      cases hp
  | missing h ha =>
    rw [ensuring_cons] at h
    rcases pending_set hp with ⟨hp, hlast⟩ | ⟨-, hp⟩
    · refine .inl ⟨hp, ?_⟩
      rintro ⟨⟩
      exact hinv.not_abandoned h (hlast rfl)
    · right
      rw [List.mem_singleton.mp hp]
      exact ha
  | @create j new left h ha =>
    have hset : Pending (s.set j (created left _)) i eventType := hp
    rcases pending_set hset with ⟨hp, -⟩ | ⟨-, hp⟩
    · exact .inl ⟨hp, by simp⟩
    · rw [pendingCreate_created] at hp
      cases hp
  | fail h he => exact .inl ⟨pending_abandon rfl hp, by simp⟩
  | crash h => exact .inl ⟨pending_abandon rfl hp, by simp⟩
  | arrive h ha =>
    left
    rcases hp with hp | hp
    · exact ⟨.inl (List.mem_of_mem_erase hp), by simp⟩
    · exact ⟨.inr hp, by simp⟩

theorem Moves.phase (h : Moves policy s a s') (hp : ∀ i, InPhase (s.start i)) :
    ∀ i, InPhase (s'.start i) := by
  have hset : ∀ i start, InPhase start → ∀ j, InPhase ((s.set i start).start j) := by
    intro i start hstart j
    by_cases hj : j = i
    · subst hj
      rwa [State.set_self]
    · rw [State.set_other s start hj]
      exact hp j
  cases h with
  | begin h => exact hset _ _ inPhase_ensuring
  | found h ha => exact hset _ _ inPhase_ensuring
  | missing h ha =>
    refine hset _ _ fun rest hrest => ?_
    cases hrest
    exact .inr ⟨_, _, rfl⟩
  | create h ha => exact hset _ _ inPhase_created
  | fail h he => exact hset _ _ fun rest hrest => by cases hrest
  | crash h => exact hset _ _ fun rest hrest => by cases hrest
  | arrive h ha => exact hp

/-- Starts that are over stay so, and only a start that is over leaves a create behind. -/
theorem Moves.stopped (h : Moves policy s a s') (ho : ∀ p ∈ s.abandoned, (s.start p.1).isOver = true) :
    ∀ p ∈ s'.abandoned, (s'.start p.1).isOver = true := by
  have hset : ∀ i start, (s.start i).isOver = false →
      ∀ p ∈ s.abandoned, ((s.set i start).start p.1).isOver = true := by
    intro i start hi p hp
    have hne : p.1 ≠ i := by
      rintro rfl
      rw [ho p hp] at hi
      cases hi
    rw [State.set_other s start hne]
    exact ho p hp
  have habandon : ∀ i start, start.isOver = true → (s.start i).isOver = false →
      ∀ p ∈ (s.abandon i start).abandoned, ((s.abandon i start).start p.1).isOver = true := by
    intro i start hstart hi p hp
    simp only [State.abandon, List.mem_append, List.mem_map] at hp
    rcases hp with hp | ⟨other, -, rfl⟩
    · exact hset i start hi p hp
    · exact (congrArg Start.isOver (State.set_self s i start)).trans hstart
  cases h with
  | begin h => exact hset _ _ (by rw [h]; rfl)
  | found h ha => exact hset _ _ (by rw [h, ensuring_cons]; rfl)
  | missing h ha => exact hset _ _ (by rw [h, ensuring_cons]; rfl)
  | create h ha => exact hset _ _ (by rw [h]; rfl)
  | fail h he => exact habandon _ _ rfl (by rw [h]; rfl)
  | crash h => exact habandon _ _ rfl (by rw [h]; rfl)
  | arrive h ha => exact fun p hp => ho p (List.mem_of_mem_erase hp)

theorem invariant_of_trace (h : (system policy).Trace t s) : Invariant t s := by
  induction h with
  | start h =>
    rcases h with ⟨-, hidle, hnone⟩
    constructor
    · intro i rest hrest
      rw [hidle] at hrest
      cases hrest
    · intro p hp
      cases hp
    · rintro i eventType (hp | hp)
      · rw [hnone] at hp
        cases hp
      · rw [hidle] at hp
        cases hp
    · intro p hp
      rw [hnone] at hp
      cases hp
  | @step t s s' a ht hs ih =>
    have hm := step_moves ih.phase hs
    constructor
    · exact hm.phase ih.phase
    · intro p hp eventType hc
      rcases List.mem_append.mp hp with hp | hp
      · exact hm.active.mpr (.inl (ih.seen p hp eventType hc))
      · rw [List.mem_singleton.mp hp] at hc
        exact hm.active.mpr (.inr hc)
    · intro i eventType hp hactive
      rcases hm.pending ih hp with ⟨hp, hlist⟩ | hnone
      · rw [overtaken_concat]
        refine ⟨hlist, ?_⟩
        rcases hm.active.mp hactive with hactive | hc
        · exact .inr (ih.overtaken i eventType hp hactive)
        · exact .inl hc
      · exact absurd hnone hactive
    · exact hm.stopped ih.stopped

/-- Where a create waits, its event type became active exactly when the create was overtaken. -/
theorem Invariant.overtaken_iff (h : Invariant t s) (hp : Pending s i eventType) :
    Overtaken t i eventType ↔ activeFor s.subscriptions eventType ≠ [] := by
  constructor
  · rintro ⟨p, hp, hc⟩
    exact h.seen p (List.mem_reverse.mp ((List.takeWhile_sublist _).mem hp)) eventType hc
  · exact h.overtaken i eventType hp

theorem idempotent_congr (s s' : State) (hsubscriptions : s'.subscriptions = s.subscriptions)
    (hstart : s'.start = s.start) : Idempotent policy s' ↔ Idempotent policy s := by
  constructor
  · rintro ⟨hsingle, haccepted⟩
    exact ⟨hsubscriptions ▸ hsingle, hstart ▸ haccepted⟩
  · rintro ⟨hsingle, haccepted⟩
    exact ⟨hsubscriptions ▸ hsingle, hstart ▸ haccepted⟩

theorem idempotent_set {start : Start} (hi : Accepted policy (s.start i))
    (hstart : Accepted policy start) : Idempotent policy (s.set i start) ↔ Idempotent policy s := by
  constructor
  · rintro ⟨hsingle, haccepted⟩
    refine ⟨hsingle, fun j => ?_⟩
    by_cases hj : j = i
    · rwa [hj]
    · rw [← State.set_other s start hj]
      exact haccepted j
  · rintro ⟨hsingle, haccepted⟩
    refine ⟨hsingle, fun j => ?_⟩
    by_cases hj : j = i
    · subst hj
      rwa [State.set_self]
    · rw [State.set_other s start hj]
      exact haccepted j

theorem idempotent_abandon {start : Start} (hi : Accepted policy (s.start i))
    (hstart : Accepted policy start) :
    Idempotent policy (s.abandon i start) ↔ Idempotent policy s := by
  have hset : Idempotent policy (s.abandon i start) ↔ Idempotent policy (s.set i start) :=
    idempotent_congr _ _ rfl rfl
  rw [hset, idempotent_set hi hstart]

theorem accepted_running {rest : Rest} : Accepted policy (.running rest) := by
  intro error h
  cases h

theorem accepted_ensuring {left : List String} : Accepted policy (ensuring left) := by
  cases left with
  | nil =>
    intro error h
    cases h
  | cons eventType left =>
    rw [ensuring_cons]
    exact accepted_running

/-- A new subscription does no harm exactly when none was active for its event type. -/
theorem idempotent_concat (s s' : State) (ha : new.active = true)
    (hsubscriptions : s'.subscriptions = s.subscriptions ++ [new]) (hstart : s'.start = s.start) :
    Idempotent policy s' ↔
      Idempotent policy s ∧ activeFor s.subscriptions new.eventType = [] := by
  have hactive : ∀ eventType, activeFor s'.subscriptions eventType =
      activeFor s.subscriptions eventType ++ if new.eventType = eventType then [new] else [] := by
    intro eventType
    rw [hsubscriptions, activeFor_concat ha]
  constructor
  · rintro ⟨hsingle, haccepted⟩
    simp only [hactive, List.length_append] at hsingle
    refine ⟨⟨fun eventType => ?_, hstart ▸ haccepted⟩, ?_⟩
    · exact Nat.le_trans (Nat.le_add_right _ _) (hsingle eventType)
    · have := hsingle new.eventType
      simpa using this
  · rintro ⟨⟨hsingle, haccepted⟩, hnone⟩
    refine ⟨fun eventType => ?_, hstart ▸ haccepted⟩
    simp only [hactive, List.length_append]
    by_cases he : new.eventType = eventType
    · subst he
      simp [hnone]
    · simpa [he] using hsingle eventType

/-- One step keeps the promise of the startup exactly when it is undisturbed. -/
theorem Moves.idempotent_iff (h : Moves policy s a s') (hinv : Invariant t s) :
    Idempotent policy s' ↔ Idempotent policy s ∧ Undisturbed policy t s a := by
  cases h with
  | begin h =>
    have hidle : Accepted policy (s.start _) := fun error he => by rw [h] at he; cases he
    simpa [Undisturbed] using idempotent_set hidle accepted_ensuring
  | found h ha =>
    simpa [Undisturbed] using idempotent_set (h ▸ accepted_ensuring) accepted_ensuring
  | missing h ha =>
    simpa [Undisturbed] using idempotent_set (h ▸ accepted_ensuring) accepted_running
  | @create i new left h ha =>
    have hp : Pending s i new.eventType := .inr (by simp [h, creating, Start.pendingCreate])
    have hrun : Accepted policy (s.start i) := h ▸ accepted_running
    have hadd : Idempotent policy
          { s.set i (ensuring left) with subscriptions := s.subscriptions ++ [new] } ↔
        Idempotent policy s ∧ activeFor s.subscriptions new.eventType = [] := by
      rw [← idempotent_set hrun accepted_ensuring]
      exact idempotent_concat _ _ ha rfl rfl
    simp only [Undisturbed, hinv.overtaken_iff hp, not_not]
    by_cases hnone : activeFor s.subscriptions new.eventType = []
    · rw [create_fresh hnone]
      exact hadd
    · cases policy with
      | accept => exact hadd
      | reject status hs =>
        rw [create_duplicate hnone]
        simp only [hnone, and_false, iff_false]
        intro hidem
        have hrej := hidem.accepted i (.unexpectedStatus status)
        simp [State.set, parseCreateSubscriptionResponse, Response.expect, hs, created,
          Policy.isRejection] at hrej
  | @fail i rest error h he =>
    have hfinished : Accepted policy (.finished (.error error)) := by
      intro other heq
      cases heq
      exact he
    simpa [Undisturbed] using idempotent_abandon (h ▸ accepted_running) hfinished
  | crash h =>
    have hcrashed : Accepted policy .crashed := fun error heq => by cases heq
    simpa [Undisturbed] using idempotent_abandon (h ▸ accepted_running) hcrashed
  | @arrive i new h ha =>
    simp only [Undisturbed, hinv.overtaken_iff (.inl h), not_not]
    by_cases hnone : activeFor s.subscriptions new.eventType = []
    · rw [idempotent_concat s (s.arrive policy i new) ha (congrArg Prod.fst (create_fresh hnone)) rfl]
      simp [hnone]
    · cases policy with
      | accept =>
        rw [idempotent_concat s (s.arrive .accept i new) ha rfl rfl]
        simp
      | reject status hs =>
        rw [idempotent_congr s (s.arrive (.reject status hs) i new)
          (congrArg Prod.fst (create_duplicate hnone)) rfl]
        simp

/-- In every run, the promise of the startup is kept exactly when every create arrived before
any other one for its event type. -/
theorem idempotent_iff_undisturbed (h : (system policy).Trace t s) :
    Idempotent policy s ↔ System.Along (Undisturbed policy) t := by
  induction h with
  | start h =>
    rcases h with ⟨hsingle, hidle, -⟩
    refine ⟨fun _ => System.along_nil, fun _ => ⟨hsingle, fun i error he => ?_⟩⟩
    rw [hidle] at he
    cases he
  | step ht hs ih =>
    have hinv := invariant_of_trace ht
    rw [System.along_concat, ← ih]
    exact (step_moves hinv.phase hs).idempotent_iff hinv

theorem idempotent_restartRun : Idempotent .accept ((sampleRun .accept restartRun).get (by decide)) :=
  (idempotent_iff_undisturbed (trace_sampleRun (by decide))).mpr (by decide)

/-- The late create of a crashed process makes the startup of its successor create a second
subscription, or fail. -/
theorem not_idempotent_lateRun :
    (¬ ∀ s, (system .accept).Reachable s → Idempotent .accept s) ∧
      ¬ ∀ s, (system (.reject 409 (by decide))).Reachable s →
        Idempotent (.reject 409 (by decide)) s := by
  constructor
  · intro h
    have htrace : (system .accept).Trace (sampleRecord .accept lateRun) _ :=
      trace_sampleRun (by decide)
    have hsingle := (h _ htrace.reachable).single putAction
    exact absurd hsingle (by decide)
  · intro h
    have htrace : (system (.reject 409 (by decide))).Trace (sampleRecord _ lateRun) _ :=
      trace_sampleRun (by decide)
    have haccepted := (h _ htrace.reachable).accepted 1 (.unexpectedStatus 409) rfl
    exact absurd haccepted (by decide)

end Librarian.Startup
