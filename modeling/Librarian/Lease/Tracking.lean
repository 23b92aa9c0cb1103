import Librarian.Lease.System

/-! # The tracked lease never runs ahead of the kernel

Whatever happens to the messages, the lease a process tracks is one the kernel issued, and
the kernel's own lease has at least its revision and its expiry.
-/
namespace Librarian.Lease
open Foundation

/-- The grant a tracked lease stands for. -/
def grantOf (lease : InstanceLease) : RenewedLease := ⟨lease.expiresAt, lease.revision⟩

/-- The grant that a step made the instance read. -/
def readAt (s : State) : Action → Option RenewedLease
  | .receive i => (s.responses[i]?).bind fun p => (parseRenewalResponse p.2).toOption
  | _ => none

/-- The grants the instance read during a run, in their order. -/
def readIn (t : List (State × Action)) : List RenewedLease :=
  t.filterMap fun p => readAt p.1 p.2

theorem readIn_append {t : List (State × Action)} {s : State} {a : Action} :
    readIn (t ++ [(s, a)]) = readIn t ++ (readAt s a).toList := by
  rw [readIn, List.filterMap_append]
  cases h : readAt s a <;> simp [readIn, h]

/-- What holds while the instance tracks `lease`: both copies, the messages between them and
what was read so far. -/
structure Invariant (t : List (State × Action)) (s : State) (lease : InstanceLease) : Prop where
  tracked : s.lease = some lease
  phase : InPhase s lease
  wellFormed : s.registration.WellFormed
  issued : s.registration.Issued (grantOf lease)
  requests : ∀ e ∈ s.requests, e ≤ lease.revision
  awaiting : ∀ n, s.awaiting = some n → s.requests[n]? = some lease.revision
  responses : ∀ n response, (n, response) ∈ s.responses → ∀ g,
    parseRenewalResponse response = .ok g →
      s.registration.Issued g ∧ s.requests[n]? = some (g.leaseRevision - 1)
  reads : ∀ g ∈ readIn t, g.leaseRevision ≤ lease.revision
  read : ∀ r ∈ s.registration.renewals, r.lease.leaseRevision ≤ lease.revision →
    r.lease ∈ readIn t

variable {t : List (State × Action)} {s s' : State} {a : Action} {lease : InstanceLease}

theorem invariant_initial (clock : ℤ) (enrolled : RenewedLease) :
    Invariant [] (.initial clock enrolled) (enrolledLease enrolled) where
  tracked := rfl
  phase := .inl rfl
  wellFormed := Registration.wellFormed_enrolled enrolled
  issued := .inl rfl
  requests := by simp [State.initial]
  awaiting := by simp [State.initial]
  responses := by simp [State.initial]
  reads := by simp [readIn]
  read := by simp [State.initial]

/-- A step that neither sends nor changes the kernel, and reads nothing. -/
theorem Invariant.of_quiet (h : Invariant t s lease) (hread : readAt s a = none)
    (hlease : s'.lease = some lease) (hphase : InPhase s' lease)
    (hreg : s'.registration = s.registration) (hreq : s'.requests = s.requests)
    (hres : s'.responses = s.responses)
    (hawait : s'.awaiting = s.awaiting ∨ s'.awaiting = none) :
    Invariant (t ++ [(s, a)]) s' lease where
  tracked := hlease
  phase := hphase
  wellFormed := hreg ▸ h.wellFormed
  issued := hreg ▸ h.issued
  requests := hreq ▸ h.requests
  awaiting := by
    intro n hn
    rcases hawait with hawait | hawait
    · rw [hreq]
      exact h.awaiting n (hawait ▸ hn)
    · rw [hawait] at hn
      cases hn
  responses := by
    rw [hres, hreg, hreq]
    exact h.responses
  reads := by
    rw [readIn_append, hread, Option.toList_none, List.append_nil]
    exact h.reads
  read := by
    rw [readIn_append, hread, Option.toList_none, List.append_nil, hreg]
    exact h.read

theorem getElem?_append_of_some {α : Type} {l u : List α} {n : ℕ} {x : α} (h : l[n]? = some x) :
    (l ++ u)[n]? = some x := by
  rw [List.getElem?_append_left (List.getElem?_eq_some_iff.mp h).1, h]

theorem Invariant.of_send (h : Invariant t s lease) :
    Invariant (t ++ [(s, .send)])
      { s with
        tick := some (renewal lease)
        requests := s.requests ++ [lease.revision], awaiting := some s.requests.length } lease where
  tracked := h.tracked
  phase := .inr (.inr rfl)
  wellFormed := h.wellFormed
  issued := h.issued
  requests := by
    intro e he
    rcases List.mem_append.mp he with he | he
    · exact h.requests e he
    · exact Int.le_of_eq (List.mem_singleton.mp he)
  awaiting := by
    intro n hn
    cases hn
    simp
  responses := by
    intro n response hr g hg
    exact ⟨(h.responses n response hr g hg).1,
      getElem?_append_of_some (h.responses n response hr g hg).2⟩
  reads := by
    rw [readIn_append]
    simpa [readAt] using h.reads
  read := by
    rw [readIn_append]
    simpa [readAt] using h.read

/-- The kernel handles a request: what it grants is beyond all that was read. -/
theorem Invariant.of_process (h : Invariant t s lease) {request : ℕ} {expected expiry : ℤ}
    (hr : s.requests[request]? = some expected) :
    Invariant (t ++ [(s, .process request expiry)])
      { s with
        registration := (s.registration.renew s.clock expected expiry).1
        responses :=
          s.responses ++ [(request, (s.registration.renew s.clock expected expiry).2)] } lease where
  tracked := h.tracked
  phase := h.phase
  wellFormed := Registration.wellFormed_renew h.wellFormed
  issued := Registration.issued_renew h.issued
  requests := h.requests
  awaiting := h.awaiting
  responses := by
    intro n response hmem g hg
    rcases List.mem_append.mp hmem with hmem | hmem
    · exact ⟨Registration.issued_renew (h.responses n response hmem g hg).1,
        (h.responses n response hmem g hg).2⟩
    · cases List.mem_singleton.mp hmem
      rcases Registration.renew_cases s.registration s.clock expected expiry with
        ⟨-, hno⟩ | ⟨-, heq, hgrant⟩
      · exact absurd hg (hno g)
      · rw [hgrant] at hg ⊢
        cases hg
        refine ⟨.inr ⟨_, List.mem_cons_self, rfl⟩, ?_⟩
        rw [hr, heq]
        simp [Registration.next]
  reads := by
    rw [readIn_append]
    simpa [readAt] using h.reads
  read := by
    rw [readIn_append]
    simp only [readAt, Option.toList_none, List.append_nil]
    rcases Registration.renew_cases s.registration s.clock expected expiry with
      ⟨hreg, -⟩ | ⟨-, heq, hgrant⟩
    · rw [hreg]
      exact h.read
    · rw [hgrant]
      intro r hmem hle
      rcases List.mem_cons.mp hmem with rfl | hmem
      · have hbound := (h.wellFormed.bounded _ h.issued).1
        simp only [Registration.next, grantOf] at hle hbound
        omega
      · exact h.read r hmem hle

/-- The instance reads a response: a grant is the one after the lease it tracks. -/
theorem Invariant.of_receive (h : Invariant t s lease) {i request : ℕ}
    {response : Response RenewedLease} (hr : s.responses[i]? = some (request, response))
    (ha : s.awaiting = some request) :
    Invariant (t ++ [(s, .receive i)])
      { s with
        lease := some (lease.renewed (parseRenewalResponse response))
        tick := none, awaiting := none }
      (lease.renewed (parseRenewalResponse response)) := by
  have hread : readAt s (.receive i) = (parseRenewalResponse response).toOption := by
    simp [readAt, hr]
  cases hg : parseRenewalResponse response with
  | error e =>
    apply h.of_quiet
    · rw [hread, hg]
      rfl
    · rfl
    · exact .inl rfl
    · rfl
    · rfl
    · rfl
    · exact .inr rfl
  | ok g =>
    rcases h.responses request response (List.mem_of_getElem? hr) g hg with ⟨hissued, hreq⟩
    rw [h.awaiting request ha] at hreq
    have hrev : g.leaseRevision = lease.revision + 1 := by
      have := Option.some.inj hreq
      omega
    have hreadIn : readIn (t ++ [(s, .receive i)]) = readIn t ++ [g] := by
      rw [readIn_append, hread, hg]
      rfl
    constructor
    · rfl
    · exact .inl rfl
    · exact h.wellFormed
    · exact hissued
    · intro e he
      have := h.requests e he
      simp only [InstanceLease.renewed]
      omega
    · intro n hn
      cases hn
    · exact h.responses
    · rw [hreadIn]
      intro x hx
      simp only [InstanceLease.renewed]
      rcases List.mem_append.mp hx with hx | hx
      · have := h.reads x hx
        omega
      · exact Int.le_of_eq (congrArg RenewedLease.leaseRevision (List.mem_singleton.mp hx))
    · rw [hreadIn]
      intro r hmem hle
      simp only [InstanceLease.renewed] at hle
      by_cases hold : r.lease.leaseRevision ≤ lease.revision
      · exact List.mem_append_left _ (h.read r hmem hold)
      · have heq := h.wellFormed.eq_of_revision (.inr ⟨r, hmem, rfl⟩) hissued (by omega)
        simp [heq]

theorem Invariant.step (h : Invariant t s lease) (hs : step s a = some s') :
    ∃ lease', Invariant (t ++ [(s, a)]) s' lease' := by
  cases step_moves h.tracked h.phase hs with
  | passTime hle =>
    exact ⟨lease, h.of_quiet rfl h.tracked h.phase rfl rfl rfl (.inl rfl)⟩
  | begin hn =>
    exact ⟨lease, h.of_quiet rfl h.tracked (.inr (.inl rfl)) rfl rfl rfl (.inr rfl)⟩
  | notDue hp hd => exact ⟨lease, h.of_quiet rfl rfl (.inl rfl) rfl rfl rfl (.inr rfl)⟩
  | due hp hd =>
    exact ⟨lease, h.of_quiet rfl h.tracked (.inr (.inr rfl)) rfl rfl rfl (.inr rfl)⟩
  | send hp ha => exact ⟨lease, h.of_send⟩
  | process expiry hr => exact ⟨lease, h.of_process hr⟩
  | receive hp hr ha => exact ⟨_, h.of_receive hr ha⟩
  | fail hp => exact ⟨lease, h.of_quiet rfl rfl (.inl rfl) rfl rfl rfl (.inr rfl)⟩

theorem invariant_of_trace (h : system.Trace t s) : ∃ lease, Invariant t s lease := by
  induction h with
  | start h =>
    rcases h with ⟨clock, enrolled, rfl⟩
    exact ⟨_, invariant_initial clock enrolled⟩
  | step h hs ih =>
    rcases ih with ⟨lease, hinv⟩
    exact hinv.step hs

/-- The tracked lease against the kernel's registration. -/
structure Follows (s : State) (lease : InstanceLease) : Prop where
  issued : s.registration.Issued (grantOf lease)
  revision : lease.revision ≤ s.registration.current.leaseRevision
  expiresAt : lease.expiresAt ≤ s.registration.current.leaseExpiresAt

/-- The tracked lease was issued and is not ahead of the kernel's, and no two renewals were
granted from one revision. -/
theorem follows_of_reachable (h : system.Reachable s) :
    (∃ lease, s.lease = some lease ∧ Follows s lease) ∧
      (s.registration.renewals.map (·.expected)).Nodup := by
  rcases h with ⟨t, ht⟩
  rcases invariant_of_trace ht with ⟨lease, hinv⟩
  have hbound := hinv.wellFormed.bounded _ hinv.issued
  exact ⟨⟨lease, hinv.tracked, hinv.issued, hbound.1, hbound.2⟩, hinv.wellFormed.expected⟩

/-- A retry that overtakes the first request is granted alone. -/
theorem follows_overtakenRun :
    (∃ lease, ((sampleRun overtakenRun).get (by decide)).lease = some lease ∧
      Follows ((sampleRun overtakenRun).get (by decide)) lease) ∧
    (((sampleRun overtakenRun).get (by decide)).registration.renewals.map (·.expected)).Nodup :=
  follows_of_reachable (trace_sampleRun _).reachable

end Librarian.Lease
