import Librarian.Domain

/-! # What the kernel answers

The kernel's HTTP answers and the functions that read them. A response carries its status
and the verdict of the JSON decoder on its body; the transport and the decoder come from
crates.
-/
namespace Librarian

/-- The failures of a pass, of a renewal and of the startup. A transport failure keeps no
detail. -/
inductive LibrarianError where
  | client
  | unexpectedStatus (status : ℕ)
  | malformedResponse (message : String)
  | malformedScope (reason : String)
  | unknownAction (action : String)
  | document (error : DocumentError)
  deriving DecidableEq

structure EligibleRoute where
  routeId : String
  requestId : String
  subscriptionId : String
  destinationServiceId : String
  createdAt : ℤ
  deriving DecidableEq

structure WorkClaim where
  claimId : String
  routeId : String
  workerServiceId : String
  workerInstanceId : String
  fencingToken : ℤ
  status : String
  claimedAt : ℤ
  leaseExpiresAt : ℤ
  deriving DecidableEq

inductive ClaimOutcome where
  | claimed (claim : WorkClaim)
  | alreadyClaimed
  | routeNotFound
  deriving DecidableEq

inductive CompleteOutcome where
  | completed (claim : WorkClaim)
  | fenced
  | notFound
  deriving DecidableEq

structure RoutedRequest where
  requestId : String
  sourceServiceId : String
  action : String
  scope : String
  artifactSchemaVersionId : String
  permissionPolicySchemaVersionId : String
  acceptedAt : ℤ
  deriving DecidableEq

inductive RoutedRequestOutcome where
  | found (request : RoutedRequest)
  | notFound
  deriving DecidableEq

structure Subscription where
  id : String
  serviceId : String
  eventType : String
  createdAt : ℤ
  disabledAt : Option ℤ
  active : Bool
  deriving DecidableEq

structure RenewedLease where
  leaseExpiresAt : ℤ
  leaseRevision : ℤ
  deriving DecidableEq

structure Response (α : Type) where
  status : ℕ
  body : Except String α

namespace Response
variable {α : Type}

def decode (response : Response α) : Except LibrarianError α :=
  response.body.mapError .malformedResponse

/-- The body of a response with the one status that means success. -/
def expect (status : ℕ) (response : Response α) : Except LibrarianError α :=
  if response.status ≠ status then .error (.unexpectedStatus response.status)
  else response.decode

theorem expect_eq_ok {status : ℕ} {response : Response α} {a : α} :
    response.expect status = .ok a ↔ response.status = status ∧ response.body = .ok a := by
  rcases response with ⟨s, body⟩
  by_cases hs : s = status
  · cases body <;> simp [expect, decode, hs, Except.mapError]
  · simp [expect, hs]

end Response

def parseEligibleRoutes : Response (List EligibleRoute) → Except LibrarianError (List EligibleRoute) :=
  Response.expect 200

def parseClaimResponse (response : Response WorkClaim) : Except LibrarianError ClaimOutcome :=
  match response.status with
  | 201 => response.decode.map .claimed
  | 409 => .ok .alreadyClaimed
  | 404 => .ok .routeNotFound
  | other => .error (.unexpectedStatus other)

theorem parseClaimResponse_claimed {response : Response WorkClaim} {claim : WorkClaim} :
    parseClaimResponse response = .ok (.claimed claim) ↔ response.expect 201 = .ok claim := by
  rw [Response.expect_eq_ok]
  rcases response with ⟨status, body⟩
  simp only [parseClaimResponse]
  split
  · cases body <;> simp [Response.decode, Except.mapError, Except.map]
  · simp
  · simp
  · rename_i hne _ _
    simpa using fun h => absurd h hne

def parseCompleteResponse (response : Response WorkClaim) : Except LibrarianError CompleteOutcome :=
  match response.status with
  | 200 => response.decode.map .completed
  | 409 => .ok .fenced
  | 404 => .ok .notFound
  | other => .error (.unexpectedStatus other)

def parseRoutedRequestResponse (response : Response RoutedRequest) :
    Except LibrarianError RoutedRequestOutcome :=
  match response.status with
  | 200 => response.decode.map .found
  | 404 => .ok .notFound
  | other => .error (.unexpectedStatus other)

theorem parseRoutedRequestResponse_found {response : Response RoutedRequest}
    {request : RoutedRequest} :
    parseRoutedRequestResponse response = .ok (.found request) ↔
      response.expect 200 = .ok request := by
  rw [Response.expect_eq_ok]
  rcases response with ⟨status, body⟩
  simp only [parseRoutedRequestResponse]
  split
  · cases body <;> simp [Response.decode, Except.mapError, Except.map]
  · simp
  · rename_i hne _
    simpa using fun h => absurd h hne

def parseSubscriptionList : Response (List Subscription) → Except LibrarianError (List Subscription) :=
  Response.expect 200

def parseCreateSubscriptionResponse : Response Subscription → Except LibrarianError Subscription :=
  Response.expect 201

def parseRenewalResponse : Response RenewedLease → Except LibrarianError RenewedLease :=
  Response.expect 200

/-- The answer of `Client::send`: no response at all, or one. -/
abbrev Sent (α : Type) := Option (Response α)

/-- `self.client.send(&signed)?` and the parser of the response. -/
def receive {α β : Type} (parse : Response α → Except LibrarianError β) : Sent α →
    Except LibrarianError β
  | none => .error .client
  | some response => parse response

end Librarian
