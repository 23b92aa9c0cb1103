import Librarian.Lease.Tracking

/-! # When a renewal can still succeed

A due tick whose messages arrive renews the lease exactly when the instance has read every
renewal the kernel granted: a grant whose response was lost is never caught up with.
-/
namespace Librarian.Lease
open Foundation

/-- A tick that reads the clock at `now`, with its request and its response delivered. -/
def deliveredTick (s : State) (now expiry : ℤ) : List Action :=
  [.begin, .readClock now, .send, .process s.requests.length expiry, .receive s.responses.length]

/-- Every due tick whose messages are delivered renews the lease and leaves both copies equal. -/
def Recovers (s : State) : Prop :=
  ∀ lease now expiry, s.lease = some lease → lease.expiresAt - renewalMarginSeconds ≤ now →
    ∃ s', System.run step s (deliveredTick s now expiry) = some s' ∧
      s'.registration.current.leaseRevision = s.registration.current.leaseRevision + 1 ∧
      s'.lease.map grantOf = some s'.registration.current

variable {t : List (State × Action)} {s : State} {lease : InstanceLease}

def afterTick (s : State) (lease : InstanceLease) (expiry : ℤ) : State :=
  let (registration, response) := s.registration.renew s.clock lease.revision expiry
  { s with
    registration := registration
    lease := some (lease.renewed (parseRenewalResponse response))
    tick := none
    awaiting := none
    requests := s.requests ++ [lease.revision]
    responses := s.responses ++ [(s.requests.length, response)] }

theorem run_deliveredTick (hidle : s.tick = none) (hl : s.lease = some lease) {now : ℤ}
    (hdue : lease.expiresAt - renewalMarginSeconds ≤ now) (expiry : ℤ) :
    System.run step s (deliveredTick s now expiry) = some (afterTick s lease expiry) := by
  have hd : ¬ now < lease.expiresAt - renewalMarginSeconds := by omega
  simp [deliveredTick, System.run_cons, System.run_nil, step, hidle, hl, renewLeaseIfDue, hd,
    State.resume, afterTick]

theorem Invariant.revision_eq_iff (h : Invariant t s lease) :
    lease.revision = s.registration.current.leaseRevision ↔
      ∀ r ∈ s.registration.renewals, r.lease ∈ readIn t := by
  have hbound := (h.wellFormed.bounded _ h.issued).1
  simp only [grantOf] at hbound
  constructor
  · intro heq r hr
    apply h.read r hr
    have := (h.wellFormed.bounded _ (.inr ⟨r, hr, rfl⟩)).1
    omega
  · intro hread
    have hle : s.registration.current.leaseRevision ≤ lease.revision := by
      rcases s.registration.issued_current with henrolled | ⟨r, hr, hcur⟩
      · rw [henrolled]
        exact h.wellFormed.enrolled_le h.issued
      · rw [← hcur]
        exact h.reads _ (hread r hr)
    omega

/-- With an unexpired lease, a delivered tick succeeds exactly when the copies agree. -/
theorem recovers_iff_revision_eq (hidle : s.tick = none) (hl : s.lease = some lease)
    (hlive : s.clock < s.registration.current.leaseExpiresAt) :
    Recovers s ↔ lease.revision = s.registration.current.leaseRevision := by
  constructor
  · intro hrec
    by_contra hne
    rcases hrec lease _ 0 hl (Int.le_refl _) with ⟨s', hs', hrev, -⟩
    rw [run_deliveredTick hidle hl (Int.le_refl _)] at hs'
    cases hs'
    simp only [afterTick, Registration.renew_stale hne] at hrev
    omega
  · intro heq lease' now expiry hl' hdue
    rw [hl] at hl'
    cases hl'
    refine ⟨_, run_deliveredTick hidle hl hdue expiry, ?_⟩
    rw [afterTick, heq, Registration.renew_granted hlive]
    exact ⟨rfl, rfl⟩

/-- A renewal succeeds whenever its messages arrive as long as no grant stayed unread. -/
theorem recovers_iff_read (h : system.Trace t s) (hidle : s.tick = none)
    (hlive : s.clock < s.registration.current.leaseExpiresAt) :
    Recovers s ↔ ∀ r ∈ s.registration.renewals, r.lease ∈ readIn t := by
  rcases invariant_of_trace h with ⟨lease, hinv⟩
  rw [recovers_iff_revision_eq hidle hinv.tracked hlive, hinv.revision_eq_iff]

theorem recovers_overtakenRun : Recovers ((sampleRun overtakenRun).get (by decide)) :=
  (recovers_iff_read (trace_sampleRun _) rfl (by decide)).mpr (by decide)

/-- After one lost response no renewal succeeds any more. -/
theorem not_recovers_lostRun : ¬ ∀ s, system.Reachable s → s.tick = none →
    s.clock < s.registration.current.leaseExpiresAt → Recovers s := by
  intro h
  have htrace : system.Trace (sampleRecord lostRun) _ := trace_sampleRun (by decide)
  have hrec := h _ htrace.reachable rfl (by decide)
  rw [recovers_iff_revision_eq rfl rfl (by decide)] at hrec
  exact absurd hrec (by decide)

end Librarian.Lease
