import Librarian.Kernel.Responses
import Mathlib.Data.List.Nodup

/-! # The registration of an instance

The kernel renews a lease by compare-and-set on its revision. All grants are kept, so that
the current lease is the newest of them.
-/
namespace Librarian

/-- A granted renewal with the revision its request expected. -/
structure Renewal where
  expected : ℤ
  lease : RenewedLease
  deriving DecidableEq

/-- The grant of the enrollment and all renewals since, the newest first. -/
structure Registration where
  enrolled : RenewedLease
  renewals : List Renewal
  deriving DecidableEq

namespace Registration
variable (reg : Registration)

def current : RenewedLease := (reg.renewals.head?.map (·.lease)).getD reg.enrolled

/-- A lease the kernel really issued. -/
def Issued (lease : RenewedLease) : Prop :=
  lease = reg.enrolled ∨ ∃ r ∈ reg.renewals, r.lease = lease

/-- The next lease: one more revision and an expiry that is not earlier. -/
def next (expiry : ℤ) : RenewedLease where
  leaseExpiresAt := max reg.current.leaseExpiresAt expiry
  leaseRevision := reg.current.leaseRevision + 1

/-- The answer to a renewal at time `now`. A lapsed lease is not renewed. -/
def renew (now expected expiry : ℤ) : Registration × Response RenewedLease :=
  if reg.current.leaseExpiresAt ≤ now then (reg, ⟨401, .error ""⟩)
  else if expected ≠ reg.current.leaseRevision then (reg, ⟨409, .error ""⟩)
  else ({ reg with renewals := ⟨expected, reg.next expiry⟩ :: reg.renewals },
    ⟨200, .ok (reg.next expiry)⟩)

/-- Every renewal takes one revision to the next, and nothing issued is ahead of the current
lease. -/
structure WellFormed : Prop where
  expected : (reg.renewals.map (·.expected)).Nodup
  revision : ∀ r ∈ reg.renewals, r.lease.leaseRevision = r.expected + 1
  enrolled : ∀ r ∈ reg.renewals, reg.enrolled.leaseRevision ≤ r.expected
  bounded : ∀ lease, reg.Issued lease → lease.leaseRevision ≤ reg.current.leaseRevision ∧
    lease.leaseExpiresAt ≤ reg.current.leaseExpiresAt

variable {reg} {now expected expiry : ℤ}

theorem wellFormed_enrolled (lease : RenewedLease) : (Registration.mk lease []).WellFormed := by
  constructor
  · simp
  · simp
  · simp
  · rintro x (rfl | ⟨r, hr, -⟩)
    · exact ⟨Int.le_refl _, Int.le_refl _⟩
    · simp at hr

theorem issued_current (reg : Registration) : reg.Issued reg.current := by
  rcases reg with ⟨enrolled, renewals⟩
  cases renewals with
  | nil => exact .inl rfl
  | cons r rest => exact .inr ⟨r, by simp, rfl⟩

theorem renew_granted (h : now < reg.current.leaseExpiresAt) :
    reg.renew now reg.current.leaseRevision expiry =
      ({ reg with renewals := ⟨reg.current.leaseRevision, reg.next expiry⟩ :: reg.renewals },
        ⟨200, .ok (reg.next expiry)⟩) := by
  rw [renew, if_neg (by omega), if_neg (by simp)]

theorem renew_stale (h : expected ≠ reg.current.leaseRevision) :
    (reg.renew now expected expiry).1 = reg := by
  rw [renew, if_pos h]
  split <;> rfl

/-- All a renewal can do. -/
theorem renew_cases (reg : Registration) (now expected expiry : ℤ) :
    ((reg.renew now expected expiry).1 = reg ∧
      (∀ lease, parseRenewalResponse (reg.renew now expected expiry).2 ≠ .ok lease)) ∨
    (now < reg.current.leaseExpiresAt ∧ expected = reg.current.leaseRevision ∧
      reg.renew now expected expiry =
        ({ reg with renewals := ⟨expected, reg.next expiry⟩ :: reg.renewals },
          ⟨200, .ok (reg.next expiry)⟩)) := by
  rw [renew]
  split
  · exact .inl ⟨rfl, by simp [parseRenewalResponse, Response.expect]⟩
  · split
    · exact .inl ⟨rfl, by simp [parseRenewalResponse, Response.expect]⟩
    · rename_i hlive hexp
      exact .inr ⟨by omega, by simpa using hexp, rfl⟩

theorem wellFormed_renew (h : reg.WellFormed) : (reg.renew now expected expiry).1.WellFormed := by
  rcases renew_cases reg now expected expiry with ⟨hreg, -⟩ | ⟨-, rfl, hreg⟩
  · rwa [hreg]
  · rw [hreg]
    have hcur := h.bounded _ (.inl rfl)
    constructor
    · rw [List.map_cons, List.nodup_cons]
      refine ⟨?_, h.expected⟩
      intro hmem
      rcases List.mem_map.mp hmem with ⟨r, hr, heq⟩
      have hrev := h.revision r hr
      have hle := (h.bounded _ (.inr ⟨r, hr, rfl⟩)).1
      simp only at heq
      omega
    · intro r hr
      rcases List.mem_cons.mp hr with rfl | hr
      · rfl
      · exact h.revision r hr
    · intro r hr
      rcases List.mem_cons.mp hr with rfl | hr
      · exact hcur.1
      · exact h.enrolled r hr
    · have hnew : ∀ lease, reg.Issued lease → lease.leaseRevision ≤ (reg.next expiry).leaseRevision ∧
          lease.leaseExpiresAt ≤ (reg.next expiry).leaseExpiresAt := by
        intro lease hlease
        have hle := h.bounded lease hlease
        simp only [next]
        omega
      rintro lease (rfl | ⟨r, hr, rfl⟩)
      · exact hnew _ (.inl rfl)
      · rcases List.mem_cons.mp hr with rfl | hr
        · exact ⟨Int.le_refl _, Int.le_refl _⟩
        · exact hnew _ (.inr ⟨r, hr, rfl⟩)

theorem issued_renew {lease : RenewedLease} (h : reg.Issued lease) :
    (reg.renew now expected expiry).1.Issued lease := by
  rcases renew_cases reg now expected expiry with ⟨hreg, -⟩ | ⟨-, -, hreg⟩
  · rwa [hreg]
  · rw [hreg]
    rcases h with rfl | ⟨r, hr, rfl⟩
    · exact .inl rfl
    · exact .inr ⟨r, List.mem_cons_of_mem _ hr, rfl⟩

theorem WellFormed.enrolled_le (h : reg.WellFormed) {lease : RenewedLease}
    (hl : reg.Issued lease) : reg.enrolled.leaseRevision ≤ lease.leaseRevision := by
  rcases hl with rfl | ⟨r, hr, rfl⟩
  · exact Int.le_refl _
  · have hrev := h.revision r hr
    have hle := h.enrolled r hr
    omega

/-- The revision tells issued leases apart. -/
theorem WellFormed.eq_of_revision (h : reg.WellFormed) {a b : RenewedLease} (ha : reg.Issued a)
    (hb : reg.Issued b) (heq : a.leaseRevision = b.leaseRevision) : a = b := by
  have hlater : ∀ r ∈ reg.renewals, reg.enrolled.leaseRevision < r.lease.leaseRevision := by
    intro r hr
    have hrev := h.revision r hr
    have hle := h.enrolled r hr
    omega
  rcases ha with rfl | ⟨r, hr, rfl⟩
  · rcases hb with rfl | ⟨r', hr', rfl⟩
    · rfl
    · have := hlater r' hr'
      omega
  · rcases hb with rfl | ⟨r', hr', rfl⟩
    · have := hlater r hr
      omega
    · have hrev := h.revision r hr
      have hrev' := h.revision r' hr'
      have hexp : r.expected = r'.expected := by omega
      rw [List.inj_on_of_nodup_map h.expected hr hr' hexp]

end Registration
end Librarian
