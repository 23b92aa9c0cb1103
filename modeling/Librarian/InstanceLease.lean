import Librarian.Foundation.Program
import Librarian.Kernel.Responses

/-! # The renewal of the instance lease

One tick of the loop asks for a renewal when the lease is about to expire, always with the
revision it tracks, and takes over whatever a readable response grants.
-/
namespace Librarian
open Foundation

/-- The lease as this process tracks it. -/
structure InstanceLease where
  revision : ℤ
  expiresAt : ℤ
  deriving DecidableEq

def renewalMarginSeconds : ℤ := 20

inductive LeaseOp where
  | unixTime
  | renewLease (expectedRevision : ℤ)
  deriving DecidableEq

def LeaseOp.Ans : LeaseOp → Type
  | .unixTime => ℤ
  | .renewLease _ => Except LibrarianError RenewedLease

/-- The lease that follows from the answer to a renewal. -/
def InstanceLease.renewed (lease : InstanceLease) : Except LibrarianError RenewedLease →
    InstanceLease
  | .ok renewed => ⟨renewed.leaseRevision, renewed.leaseExpiresAt⟩
  | .error _ => lease

/-- One tick; its result is the new value of `instance_lease`. -/
def renewLeaseIfDue : Option InstanceLease → Program LeaseOp LeaseOp.Ans (Option InstanceLease)
  | none => .ret none
  | some lease => .call .unixTime fun (now : ℤ) =>
    if now < lease.expiresAt - renewalMarginSeconds then .ret (some lease)
    else .call (.renewLease lease.revision) fun ans => .ret (some (lease.renewed ans))

end Librarian
