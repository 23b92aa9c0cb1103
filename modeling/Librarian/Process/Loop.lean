import Librarian.Health
import Librarian.InstanceLease
import Librarian.WorkOnce

/-! # One process

A round of the loop of `run`: a renewal if it is due, one pass, a heartbeat if the pass
succeeded, and a pause. The process runs round after round against the kernel it is
registered with, which refuses every signed call once the registration has lapsed.
-/
namespace Librarian.Process
open Foundation Health

/-- What the loop does besides computing. -/
inductive LoopOp where
  | lease (op : LeaseOp)
  | port (op : PortOp)
  | nowSeconds
  | recordSuccess (at' : ℤ)
  | sleep (pollInterval : ℕ)

def LoopOp.Ans : LoopOp → Type
  | .lease op => op.Ans
  | .port op => op.Ans
  | .nowSeconds => ℤ
  | .recordSuccess _ | .sleep _ => Unit

abbrev Round (α : Type) := Program LoopOp LoopOp.Ans α

/-- The part of `Config` that the loop keeps. -/
structure Config where
  leaseSeconds : ℤ
  pollInterval : ℕ

def renewal (lease : Option InstanceLease) : Round (Option InstanceLease) :=
  (renewLeaseIfDue lease).embed .lease fun _ ans => ans

def recordNow : Round Unit :=
  .call .nowSeconds fun (now : ℤ) => .call (.recordSuccess now) .ret

/-- What `run` does with the result of a pass. -/
def noteResult : Except LibrarianError WorkOutcome → Round Unit
  | .ok .nothingEligible => recordNow
  | .ok _ => recordNow
  | .error _ => .ret ()

def pause (config : Config) (lease : Option InstanceLease) : Round (Option InstanceLease) :=
  .call (.sleep config.pollInterval) fun _ => .ret lease

variable [UuidText]

def pass (config : Config) : Round (Except LibrarianError WorkOutcome) :=
  (workOnce config.leaseSeconds).run.embed .port fun _ ans => ans

/-- One round; its result is the lease tracked from then on. -/
def round (config : Config) (lease : Option InstanceLease) : Round (Option InstanceLease) :=
  (renewal lease).bind fun lease =>
    (pass config).bind fun result =>
      (noteResult result).bind fun _ => pause config lease

end Librarian.Process
