import Librarian.Foundation.Program
import Librarian.Kernel.Responses

/-! # The calls of a work pass

A pass calls the kernel through `KernelPort` and its own database through
`DocumentRepository`, and stops at the first error.
-/
namespace Librarian
open Foundation

/-- The answer of one repository call. -/
def RepositoryCall.Ans : RepositoryCall → Type
  | .put _ _ => Except DocumentError PutOutcome
  | .get _ _ => Except DocumentError DocumentVersion
  | .search _ _ => Except DocumentError (List SearchHit)

/-- The methods of the trait `KernelPort` with their arguments. -/
inductive KernelCall where
  | eligibleRoutes
  | proposeClaim (routeId : String) (leaseSeconds : ℤ)
  | routedRequest (routeId : String)
  | completeClaim (claimId : String) (fencingToken : ℤ)
  deriving DecidableEq

namespace KernelCall

/-- What the body of a successful response holds. -/
def Body : KernelCall → Type
  | .eligibleRoutes => List EligibleRoute
  | .proposeClaim _ _ | .completeClaim _ _ => WorkClaim
  | .routedRequest _ => RoutedRequest

def Outcome : KernelCall → Type
  | .eligibleRoutes => List EligibleRoute
  | .proposeClaim _ _ => ClaimOutcome
  | .routedRequest _ => RoutedRequestOutcome
  | .completeClaim _ _ => CompleteOutcome

/-- The parser of each method's response. -/
def parse : (call : KernelCall) → Response call.Body → Except LibrarianError call.Outcome
  | .eligibleRoutes => parseEligibleRoutes
  | .proposeClaim _ _ => parseClaimResponse
  | .routedRequest _ => parseRoutedRequestResponse
  | .completeClaim _ _ => parseCompleteResponse

end KernelCall

inductive PortOp where
  | kernel (call : KernelCall)
  | repository (call : RepositoryCall)
  deriving DecidableEq

def PortOp.Ans : PortOp → Type
  | .kernel call => Except LibrarianError call.Outcome
  | .repository call => call.Ans

abbrev Work (α : Type) := Fallible PortOp PortOp.Ans LibrarianError α

namespace Work

def eligibleRoutes : Work (List EligibleRoute) := ExceptT.mk (.call (.kernel .eligibleRoutes) .ret)

def proposeClaim (routeId : String) (leaseSeconds : ℤ) : Work ClaimOutcome :=
  ExceptT.mk (.call (.kernel (.proposeClaim routeId leaseSeconds)) .ret)

def routedRequest (routeId : String) : Work RoutedRequestOutcome :=
  ExceptT.mk (.call (.kernel (.routedRequest routeId)) .ret)

def completeClaim (claimId : String) (fencingToken : ℤ) : Work CompleteOutcome :=
  ExceptT.mk (.call (.kernel (.completeClaim claimId fencingToken)) .ret)

/-- `repository.put(..)?`, with the error converted. -/
def put (requestId : Uuid) (document : PutDocument) : Work PutOutcome :=
  ExceptT.mk (.call (.repository (.put requestId document)) fun ans => .ret (ans.mapError .document))

def get (documentId : Uuid) (version : Option ℤ) : Work DocumentVersion :=
  ExceptT.mk (.call (.repository (.get documentId version)) fun ans => .ret (ans.mapError .document))

def search (query : String) (limit : ℤ) : Work (List SearchHit) :=
  ExceptT.mk (.call (.repository (.search query limit)) fun ans => .ret (ans.mapError .document))

/-- The result of a part as a value, for code that matches on it. -/
def attempt {α : Type} (part : Work α) : Work (Except LibrarianError α) :=
  ExceptT.mk (part.run.bind fun res => .ret (.ok res))

end Work
end Librarian
