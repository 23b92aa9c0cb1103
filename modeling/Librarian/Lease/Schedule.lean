import Librarian.Lease.System
import Mathlib.Algebra.Order.Floor.Ring
import Mathlib.Data.Rat.Floor
import Mathlib.Tactic.Linarith

/-! # A lease that is renewed in time

The ticks of the loop on a clock with fractions of seconds, of which the process reads whole
seconds. As long as ticks come at most `G` seconds apart, requests reach the kernel within
`D` seconds and at most `k` attempts in a row fail, the lease outlives all of them.
-/
namespace Librarian.Lease
open Foundation

/-- What becomes of the renewal request of a tick: it reaches the kernel, which is about to
grant `expiry`, and the response arrives; or it fails and the kernel never sees it. -/
inductive Fate where
  | reaches (delay : ℚ) (expiry : ℤ)
  | fails (error : LibrarianError)

structure Beat where
  time : ℚ
  fate : Fate

/-- The kernel's copy and the tracked copy of the lease, between two ticks. -/
structure Copies where
  registration : Registration
  lease : Option InstanceLease

def Beat.answer (beat : Beat) : (op : LeaseOp) → Registration → op.Ans × Registration
  | .unixTime, registration => (⌊beat.time⌋, registration)
  | .renewLease expected, registration =>
    match beat.fate with
    | .reaches delay expiry =>
      let (registration, response) := registration.renew ⌊beat.time + delay⌋ expected expiry
      (parseRenewalResponse response, registration)
    | .fails error => (.error error, registration)

def Copies.tick (copies : Copies) (beat : Beat) : Copies :=
  let (lease, registration) := (renewLeaseIfDue copies.lease).handle beat.answer copies.registration
  ⟨registration, lease⟩

/-- Both copies before the `n`-th tick after the enrollment. -/
def copiesAt (enrolled : RenewedLease) (beats : ℕ → Beat) : ℕ → Copies
  | 0 => ⟨⟨enrolled, []⟩, some (enrolledLease enrolled)⟩
  | n + 1 => (copiesAt enrolled beats n).tick (beats n)

def Copies.Attempts (copies : Copies) (beat : Beat) : Prop :=
  ∃ lease, copies.lease = some lease ∧ lease.expiresAt - renewalMarginSeconds ≤ ⌊beat.time⌋

def Copies.Fails (copies : Copies) (beat : Beat) : Prop :=
  copies.Attempts beat ∧ ∃ error, beat.fate = .fails error

/-- The lease the kernel holds at a time from a tick on, until the next one. -/
def Copies.kernelLease (copies : Copies) (beat : Beat) (time : ℚ) : RenewedLease :=
  match beat.fate with
  | .reaches delay _ =>
    if beat.time + delay ≤ time then (copies.tick beat).registration.current
    else copies.registration.current
  | .fails _ => copies.registration.current

/-- The first `N` ticks keep up: they come at most `G` seconds apart, their requests reach the
kernel within `D` seconds and before the next tick, or fail, at most `k` times in a row. -/
structure KeepsUp (G D : ℚ) (k N : ℕ) (enrolledAt : ℚ) (enrolled : RenewedLease)
    (beats : ℕ → Beat) : Prop where
  granted : enrolledAt + renewalMarginSeconds < enrolled.leaseExpiresAt
  first : enrolledAt ≤ (beats 0).time ∧ (beats 0).time ≤ enrolledAt + G
  gaps : ∀ n, n + 1 < N →
    (beats n).time ≤ (beats (n + 1)).time ∧ (beats (n + 1)).time ≤ (beats n).time + G
  applied : ∀ n < N, (copiesAt enrolled beats n).Attempts (beats n) →
    ∀ delay expiry, (beats n).fate = .reaches delay expiry → 0 ≤ delay ∧ delay ≤ D ∧
      (beats n).time + delay + renewalMarginSeconds < expiry ∧
        (n + 1 < N → (beats n).time + delay ≤ (beats (n + 1)).time)
  retries : ∀ n, n + k < N →
    ∃ j ≤ k, ¬ (copiesAt enrolled beats (n + j)).Fails (beats (n + j))
  delay : 0 ≤ D
  budget : (k + 1) * G + D ≤ renewalMarginSeconds

section Ticks
variable {copies : Copies} {beat : Beat} {lease : InstanceLease}

inductive TickMoves (copies : Copies) (beat : Beat) (lease : InstanceLease) : Copies → Prop
  | notDue (h : beat.time < lease.expiresAt - renewalMarginSeconds) :
      TickMoves copies beat lease copies
  | failed (h : copies.Fails beat) : TickMoves copies beat lease copies
  | reached {delay : ℚ} {expiry : ℤ} (h : copies.Attempts beat)
      (hf : beat.fate = .reaches delay expiry) : TickMoves copies beat lease
        ⟨(copies.registration.renew ⌊beat.time + delay⌋ lease.revision expiry).1,
          some (lease.renewed (parseRenewalResponse
            (copies.registration.renew ⌊beat.time + delay⌋ lease.revision expiry).2))⟩

theorem tick_moves (beat : Beat) (hl : copies.lease = some lease) :
    TickMoves copies beat lease (copies.tick beat) := by
  rcases copies with ⟨registration, tracked⟩
  obtain rfl : tracked = some lease := hl
  by_cases hdue : ⌊beat.time⌋ < lease.expiresAt - renewalMarginSeconds
  · have htick : Copies.tick ⟨registration, some lease⟩ beat = ⟨registration, some lease⟩ := by
      simp [Copies.tick, renewLeaseIfDue, Program.handle, Beat.answer, hdue]
    rw [htick]
    refine .notDue ?_
    have hlt := Int.floor_lt.mp hdue
    push_cast at hlt
    exact hlt
  · have hattempt : Copies.Attempts ⟨registration, some lease⟩ beat := ⟨lease, rfl, by omega⟩
    cases hf : beat.fate with
    | reaches delay expiry =>
      have htick : Copies.tick ⟨registration, some lease⟩ beat =
          ⟨(registration.renew ⌊beat.time + delay⌋ lease.revision expiry).1,
            some (lease.renewed (parseRenewalResponse
              (registration.renew ⌊beat.time + delay⌋ lease.revision expiry).2))⟩ := by
        simp [Copies.tick, renewLeaseIfDue, Program.handle, Beat.answer, hdue, hf]
      rw [htick]
      exact .reached hattempt hf
    | fails error =>
      have htick : Copies.tick ⟨registration, some lease⟩ beat = ⟨registration, some lease⟩ := by
        simp [Copies.tick, renewLeaseIfDue, Program.handle, Beat.answer, hdue, hf,
          InstanceLease.renewed]
      rw [htick]
      exact .failed ⟨hattempt, error, hf⟩

theorem tick_or_reaches (beat : Beat) (hl : copies.lease = some lease) :
    copies.tick beat = copies ∨
      (copies.Attempts beat ∧ ∃ delay expiry, beat.fate = .reaches delay expiry) := by
  have hmoves := tick_moves beat hl
  generalize copies.tick beat = next at hmoves
  cases hmoves with
  | notDue => exact .inl rfl
  | failed => exact .inl rfl
  | reached hattempt hfate => exact .inr ⟨hattempt, _, _, hfate⟩

theorem kernelLease_of_same (h : copies.tick beat = copies) (time : ℚ) :
    copies.kernelLease beat time = copies.registration.current := by
  rw [Copies.kernelLease]
  split
  · rw [h, ite_self]
  · rfl

structure Copies.Synced (copies : Copies) (lease : InstanceLease) : Prop where
  tracked : copies.lease = some lease
  revision : lease.revision = copies.registration.current.leaseRevision
  expiresAt : lease.expiresAt = copies.registration.current.leaseExpiresAt

theorem Copies.Synced.renewed (h : copies.Synced lease) {delay : ℚ} {expiry : ℤ}
    (hattempt : copies.Attempts beat) (hf : beat.fate = .reaches delay expiry)
    (hlive : beat.time + delay < lease.expiresAt) :
    (copies.tick beat).registration.current = copies.registration.next expiry ∧
      (copies.tick beat).Synced (enrolledLease (copies.registration.next expiry)) := by
  have hgrant : copies.registration.renew ⌊beat.time + delay⌋ lease.revision expiry =
      ({ copies.registration with renewals :=
        ⟨copies.registration.current.leaseRevision, copies.registration.next expiry⟩ ::
          copies.registration.renewals }, ⟨200, .ok (copies.registration.next expiry)⟩) := by
    rw [h.revision]
    apply Registration.renew_granted
    rw [← h.expiresAt]
    exact Int.floor_lt.mpr hlive
  have hmoves := tick_moves beat h.tracked
  generalize copies.tick beat = next at hmoves
  cases hmoves with
  | notDue hearly =>
    rcases hattempt with ⟨held, hheld, hdue⟩
    obtain rfl := Option.some.inj (h.tracked.symm.trans hheld)
    have hlt : ⌊beat.time⌋ < lease.expiresAt - renewalMarginSeconds := by
      rw [Int.floor_lt]
      push_cast
      exact hearly
    omega
  | failed hfails =>
    rcases hfails.2 with ⟨error, hfail⟩
    cases hf.symm.trans hfail
  | reached _ hfate =>
    cases hf.symm.trans hfate
    rw [hgrant]
    exact ⟨rfl, rfl, rfl, rfl⟩

end Ticks

section Schedule
variable {G D : ℚ} {k N : ℕ} {enrolledAt : ℚ} {enrolled : RenewedLease} {beats : ℕ → Beat}
  {n : ℕ} {lease : InstanceLease}

/-- What holds before the `n`-th tick: the lease was fresh at `base`, and since tick `m` all
attempts failed. -/
structure Timely (G : ℚ) (enrolled : RenewedLease) (beats : ℕ → Beat) (n : ℕ)
    (lease : InstanceLease) (base : ℚ) (m : ℕ) : Prop where
  synced : (copiesAt enrolled beats n).Synced lease
  fresh : base + renewalMarginSeconds < lease.expiresAt
  since : m ≤ n
  failing : ∀ i, m ≤ i → i < n → (copiesAt enrolled beats i).Fails (beats i)
  time : (beats n).time ≤ base + ((n - m : ℕ) + 1) * G

/-- At a timely tick the lease has more than the longest delay left. -/
theorem Timely.live {base : ℚ} {m : ℕ} (h : Timely G enrolled beats n lease base m)
    (hk : KeepsUp G D k N enrolledAt enrolled beats) (hn : n < N) :
    (beats n).time + D < lease.expiresAt := by
  have hG : 0 ≤ G := by linarith [hk.first.1, hk.first.2]
  have hfew : n - m ≤ k := by
    by_contra hmany
    rcases hk.retries (n - (k + 1)) (by omega) with ⟨j, hj, hnot⟩
    exact hnot (h.failing _ (by omega) (by omega))
  have hcast : ((n - m : ℕ) : ℚ) ≤ k := by exact_mod_cast hfew
  have hmul : ((n - m : ℕ) + 1) * G ≤ ((k : ℚ) + 1) * G :=
    mul_le_mul_of_nonneg_right (by linarith) hG
  linarith [h.time, h.fresh, hk.budget]

theorem timely_enrolled (hk : KeepsUp G D k N enrolledAt enrolled beats) :
    Timely G enrolled beats 0 (enrolledLease enrolled) enrolledAt 0 where
  synced := ⟨rfl, rfl, rfl⟩
  fresh := hk.granted
  since := Nat.le_refl 0
  failing := by
    intro i _ hi
    exact absurd hi (Nat.not_lt_zero i)
  time := by simpa using hk.first.2

theorem Timely.step {base : ℚ} {m : ℕ} (h : Timely G enrolled beats n lease base m)
    (hk : KeepsUp G D k N enrolledAt enrolled beats) (hn : n + 1 < N) :
    ∃ lease' base' m', Timely G enrolled beats (n + 1) lease' base' m' := by
  have hgap := (hk.gaps n hn).2
  have hlive := h.live hk (by omega)
  have hmoves := tick_moves (beats n) h.synced.tracked
  have hnext : copiesAt enrolled beats (n + 1) = (copiesAt enrolled beats n).tick (beats n) := rfl
  have hstart : ∀ t : ℚ, (beats (n + 1)).time ≤ t + G →
      (beats (n + 1)).time ≤ t + ((n + 1 - (n + 1) : ℕ) + 1) * G := by
    intro t ht
    simpa using ht
  have hnone : ∀ i, n + 1 ≤ i → i < n + 1 → (copiesAt enrolled beats i).Fails (beats i) := by
    intro i hi hlt
    omega
  rw [← hnext] at hmoves
  generalize hnew : copiesAt enrolled beats (n + 1) = copies at hmoves
  cases hmoves with
  | notDue hearly =>
    refine ⟨lease, (beats n).time, n + 1, ?_, ?_, Nat.le_refl _, hnone, hstart _ hgap⟩
    · rw [hnew]
      exact h.synced
    · linarith
  | failed hfails =>
    refine ⟨lease, base, m, ?_, h.fresh, by have := h.since; omega, ?_, ?_⟩
    · rw [hnew]
      exact h.synced
    · intro i hi hlt
      rcases Nat.lt_or_eq_of_le (Nat.le_of_lt_succ hlt) with hbefore | rfl
      · exact h.failing i hi hbefore
      · exact hfails
    · have hsub : n + 1 - m = (n - m) + 1 := by have := h.since; omega
      rw [hsub]
      push_cast
      linarith [h.time]
  | @reached delay expiry hattempt hfate =>
    rcases hk.applied n (by omega) hattempt delay expiry hfate with ⟨hpos, hle, hlong, -⟩
    have hrenewed := h.synced.renewed hattempt hfate (by linarith)
    refine ⟨enrolledLease ((copiesAt enrolled beats n).registration.next expiry), (beats n).time,
      n + 1, hrenewed.2, ?_, Nat.le_refl _, hnone, hstart _ hgap⟩
    have hmax : expiry ≤ (enrolledLease
        ((copiesAt enrolled beats n).registration.next expiry)).expiresAt := le_max_right _ _
    have hcast : (expiry : ℚ) ≤ (enrolledLease
        ((copiesAt enrolled beats n).registration.next expiry)).expiresAt := by exact_mod_cast hmax
    linarith

theorem exists_timely (hk : KeepsUp G D k N enrolledAt enrolled beats) (hn : n < N) :
    ∃ lease base m, Timely G enrolled beats n lease base m := by
  induction n with
  | zero => exact ⟨_, _, _, timely_enrolled hk⟩
  | succ n ih =>
    rcases ih (by omega) with ⟨lease, base, m, h⟩
    exact h.step hk hn

/-- The actions of the system that make up a tick of the schedule. -/
def Beat.actions (beat : Beat) (s : State) (lease : InstanceLease) : List Action :=
  [.passTime ⌊beat.time⌋, .begin, .readClock ⌊beat.time⌋] ++
    if ⌊beat.time⌋ < lease.expiresAt - renewalMarginSeconds then []
    else match beat.fate with
      | .reaches delay expiry => [.send, .passTime ⌊beat.time + delay⌋,
          .process s.requests.length expiry, .receive s.responses.length]
      | .fails error => [.fail error]

def Beat.finish (beat : Beat) (lease : InstanceLease) : ℤ :=
  if ⌊beat.time⌋ < lease.expiresAt - renewalMarginSeconds then ⌊beat.time⌋
  else match beat.fate with
    | .reaches delay _ => ⌊beat.time + delay⌋
    | .fails _ => ⌊beat.time⌋

/-- A tick of the schedule is a run of the system from one idle state to the next. -/
theorem run_beat {s : State} {beat : Beat} (hidle : s.tick = none) (hl : s.lease = some lease)
    (hclock : s.clock ≤ ⌊beat.time⌋) (hfinish : ⌊beat.time⌋ ≤ beat.finish lease) :
    ∃ s', System.run step s (beat.actions s lease) = some s' ∧ s'.tick = none ∧
      ⟨s'.registration, s'.lease⟩ = Copies.tick ⟨s.registration, s.lease⟩ beat ∧
      s'.clock = beat.finish lease := by
  by_cases hd : ⌊beat.time⌋ < lease.expiresAt - renewalMarginSeconds
  · simp [Beat.actions, Beat.finish, System.run_cons, System.run_nil, step, hidle, hl, hclock, hd,
      renewLeaseIfDue, State.resume, Copies.tick, Program.handle, Beat.answer]
  · cases hf : beat.fate with
    | reaches delay expiry =>
      simp only [Beat.finish, if_neg hd, hf] at hfinish
      simp [Beat.actions, Beat.finish, System.run_cons, System.run_nil, step, hidle, hl, hclock, hd,
        hf, hfinish, renewLeaseIfDue, State.resume, Copies.tick, Program.handle, Beat.answer]
    | fails error =>
      simp [Beat.actions, Beat.finish, System.run_cons, System.run_nil, step, hidle, hl, hclock, hd,
        hf, renewLeaseIfDue, State.resume, Copies.tick, Program.handle, Beat.answer]

theorem finish_le (hk : KeepsUp G D k N enrolledAt enrolled beats) (hn : n + 1 < N)
    (hl : (copiesAt enrolled beats n).lease = some lease) :
    ⌊(beats n).time⌋ ≤ (beats n).finish lease ∧
      (beats n).finish lease ≤ ⌊(beats (n + 1)).time⌋ := by
  have hnext := Int.floor_le_floor (hk.gaps n hn).1
  by_cases hd : ⌊(beats n).time⌋ < lease.expiresAt - renewalMarginSeconds
  · rw [Beat.finish, if_pos hd]
    exact ⟨Int.le_refl _, hnext⟩
  · rw [Beat.finish, if_neg hd]
    cases hf : (beats n).fate with
    | fails error => exact ⟨Int.le_refl _, hnext⟩
    | reaches delay expiry =>
      have hattempt : (copiesAt enrolled beats n).Attempts (beats n) := ⟨lease, hl, by omega⟩
      rcases hk.applied n (by omega) hattempt delay expiry hf with ⟨hpos, -, -, hbefore⟩
      exact ⟨Int.floor_le_floor (by linarith), Int.floor_le_floor (hbefore hn)⟩

/-- The copies of a schedule that keeps up are those of a reachable state of the system. -/
theorem exists_reachable_of_keepsUp (hk : KeepsUp G D k N enrolledAt enrolled beats)
    (hn : n < N) : ∃ s, system.Reachable s ∧ s.tick = none ∧ s.clock ≤ ⌊(beats n).time⌋ ∧
      ⟨s.registration, s.lease⟩ = copiesAt enrolled beats n := by
  induction n with
  | zero =>
    refine ⟨.initial ⌊enrolledAt⌋ enrolled, .init ⟨_, _, rfl⟩, rfl, ?_, rfl⟩
    exact Int.floor_le_floor hk.first.1
  | succ n ih =>
    rcases ih (by omega) with ⟨s, ⟨t, ht⟩, hidle, hclock, hcopies⟩
    rcases exists_timely hk (n := n) (by omega) with ⟨lease, base, m, h⟩
    have hl : s.lease = some lease := by
      have htracked := h.synced.tracked
      rwa [← hcopies] at htracked
    rcases finish_le hk hn h.synced.tracked with ⟨hfinish, hbefore⟩
    rcases run_beat hidle hl hclock hfinish with ⟨s', hrun, hidle', hcopies', hclock'⟩
    have hrecord := System.trace_record (S := system) (fun _ _ _ hs => hs) ht hrun
    refine ⟨s', hrecord.reachable, hidle', ?_, ?_⟩
    · rw [hclock']
      exact hbefore
    · rw [hcopies', hcopies]
      rfl

/-- As long as the ticks keep up, in the runs of the instance and its kernel that they amount to, the
lease never lapses: it is unexpired at every tick and at any time between two ticks, and every
renewal that is applied reaches the kernel before expiry. -/
theorem unexpired_of_keepsUp (hk : KeepsUp G D k N enrolledAt enrolled beats) (hn : n < N) :
    (∃ s, system.Reachable s ∧ s.tick = none ∧ s.clock ≤ ⌊(beats n).time⌋ ∧
      ⟨s.registration, s.lease⟩ = copiesAt enrolled beats n) ∧
    (beats n).time < (copiesAt enrolled beats n).registration.current.leaseExpiresAt ∧
    (∀ time, n + 1 < N → (beats n).time ≤ time → time ≤ (beats (n + 1)).time →
      time < ((copiesAt enrolled beats n).kernelLease (beats n) time).leaseExpiresAt) ∧
    ∀ delay expiry, (copiesAt enrolled beats n).Attempts (beats n) →
      (beats n).fate = .reaches delay expiry →
        (beats n).time + delay <
            (copiesAt enrolled beats n).registration.current.leaseExpiresAt ∧
          (copiesAt enrolled beats (n + 1)).registration.current =
            (copiesAt enrolled beats n).registration.next expiry := by
  rcases exists_timely hk hn with ⟨lease, base, m, h⟩
  have hlive := h.live hk hn
  have hdelay := hk.delay
  rw [h.synced.expiresAt] at hlive
  refine ⟨exists_reachable_of_keepsUp hk hn, by linarith, fun time hlast hfrom hto => ?_,
    fun delay expiry hattempt hfate => ?_⟩
  · rcases exists_timely hk hlast with ⟨lease', base', m', h'⟩
    have hlive' := h'.live hk hlast
    rw [h'.synced.expiresAt] at hlive'
    have hnext : copiesAt enrolled beats (n + 1) = (copiesAt enrolled beats n).tick (beats n) := rfl
    rw [hnext] at hlive'
    rcases tick_or_reaches (beats n) h.synced.tracked with hsame | ⟨hattempt, delay, expiry, hfate⟩
    · rw [kernelLease_of_same hsame]
      rw [hsame] at hlive'
      linarith
    · rcases hk.applied n hn hattempt delay expiry hfate with ⟨-, hle, -⟩
      simp only [Copies.kernelLease, hfate]
      split
      · linarith
      · linarith
  · rcases hk.applied n hn hattempt delay expiry hfate with ⟨-, hle, -⟩
    have hreach : (beats n).time + delay <
        (copiesAt enrolled beats n).registration.current.leaseExpiresAt := by linarith
    rw [← h.synced.expiresAt] at hreach ⊢
    exact ⟨hreach, (h.synced.renewed hattempt hfate hreach).1⟩

end Schedule

/-- Ticks 9 seconds apart, the first of which fails to renew the lease. -/
def sampleBeats (n : ℕ) : Beat where
  time := 9 * (n + 1)
  fate := if n = 0 then .fails .client else .reaches 2 (9 * n + 32)

theorem keepsUp_sampleBeats : KeepsUp 9 2 1 3 0 ⟨25, 1⟩ sampleBeats where
  granted := by norm_num [renewalMarginSeconds]
  first := by norm_num [sampleBeats]
  gaps := by
    intro n _
    constructor
    · simp [sampleBeats]
    · simp only [sampleBeats]
      push_cast
      linarith
  applied := by
    intro n _ _ delay expiry hfate
    by_cases hzero : n = 0
    · simp [sampleBeats, hzero] at hfate
    · simp only [sampleBeats, if_neg hzero, Fate.reaches.injEq] at hfate
      rcases hfate with ⟨rfl, rfl⟩
      simp only [sampleBeats, renewalMarginSeconds]
      push_cast
      exact ⟨by norm_num, by norm_num, by linarith, fun _ => by linarith⟩
  retries := by
    intro n _
    refine ⟨1, le_refl 1, ?_⟩
    rintro ⟨-, error, hfate⟩
    simp [sampleBeats] at hfate
  delay := by norm_num
  budget := by norm_num [renewalMarginSeconds]

theorem unexpired_sampleBeats :
    (∃ s, system.Reachable s ∧ s.tick = none ∧ s.clock ≤ ⌊(sampleBeats 1).time⌋ ∧
      ⟨s.registration, s.lease⟩ = copiesAt ⟨25, 1⟩ sampleBeats 1) ∧
    (sampleBeats 1).time <
        (copiesAt ⟨25, 1⟩ sampleBeats 1).registration.current.leaseExpiresAt ∧
    (19 : ℚ) < ((copiesAt ⟨25, 1⟩ sampleBeats 1).kernelLease (sampleBeats 1) 19).leaseExpiresAt ∧
    (copiesAt ⟨25, 1⟩ sampleBeats 2).registration.current =
      (copiesAt ⟨25, 1⟩ sampleBeats 1).registration.next 41 := by
  have hn : 1 < 3 := by decide
  have hattempt : (copiesAt ⟨25, 1⟩ sampleBeats 1).Attempts (sampleBeats 1) := by
    refine ⟨⟨1, 25⟩, ?_, ?_⟩
    · simp [copiesAt, Copies.tick, renewLeaseIfDue, enrolledLease, Program.handle, Beat.answer,
        sampleBeats, renewalMarginSeconds, InstanceLease.renewed]
    · norm_num [sampleBeats, renewalMarginSeconds]
  have hfate : (sampleBeats 1).fate = .reaches 2 41 := by norm_num [sampleBeats]
  have h := unexpired_of_keepsUp keepsUp_sampleBeats hn
  refine ⟨h.1, h.2.1, h.2.2.1 19 (by decide) ?_ ?_, (h.2.2.2 2 41 hattempt hfate).2⟩
  · norm_num [sampleBeats]
  · norm_num [sampleBeats]

end Librarian.Lease
