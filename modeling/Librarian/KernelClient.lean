import Librarian.Config
import Librarian.Foundation.Json

/-! # The calls of the kernel client as signed requests

Each method builds one request, signs it and sends it once. The keys, the signature and the
transport are those of the client crate, and bodies are written and read by `serde_json`.
-/
namespace Librarian
open Foundation

/-- Every call that this service signs. -/
inductive ClientCall where
  | port (call : KernelCall)
  | renewLease (expectedRevision : ℤ)
  | activeSubscriptions
  | createSubscription (eventType : String)
  deriving DecidableEq

namespace ClientCall

def Body : ClientCall → Type
  | .port call => call.Body
  | .renewLease _ => RenewedLease
  | .activeSubscriptions => List Subscription
  | .createSubscription _ => Subscription

def Outcome : ClientCall → Type
  | .port call => call.Outcome
  | .renewLease _ => RenewedLease
  | .activeSubscriptions => List Subscription
  | .createSubscription _ => Subscription

def parse : (call : ClientCall) → Response call.Body → Except LibrarianError call.Outcome
  | .port call => call.parse
  | .renewLease _ => parseRenewalResponse
  | .activeSubscriptions => parseSubscriptionList
  | .createSubscription _ => parseCreateSubscriptionResponse

end ClientCall

def eligibleRoutesPath : String := "/v1/routes/eligible"
def renewInstancePath : String := "/v1/instances/renew"
def subscriptionsPath : String := "/v1/subscriptions"
def activeSubscriptionsPath : String := "/v1/subscriptions?active=true"

/-- `serde_json::to_vec`, given the fields of a structure. -/
class JsonEncoder where
  toVec : List (String × Json.Value) → Except String (List UInt8)

section Bodies
variable [JsonEncoder]

def claimRequest (leaseSeconds : ℤ) : Except String (List UInt8) :=
  JsonEncoder.toVec [("lease_seconds", .integer leaseSeconds)]

def fencedActionRequest (fencingToken : ℤ) : Except String (List UInt8) :=
  JsonEncoder.toVec [("fencing_token", .integer fencingToken)]

def renewInstanceRequest (expectedRevision : ℤ) : Except String (List UInt8) :=
  JsonEncoder.toVec [("expected_revision", .integer expectedRevision)]

def createSubscriptionRequest (eventType : String) : Except String (List UInt8) :=
  JsonEncoder.toVec [("event_type", .string eventType.toList)]

end Bodies

structure RequestParts where
  method : String
  authority : String
  path : String
  contentType : String
  body : List UInt8
  requestId : Uuid
  deriving DecidableEq

structure SignedRequest where
  parts : RequestParts
  created : ℤ
  expires : ℤ
  nonce : List UInt8
  deriving DecidableEq

/-- What the transport brings back. -/
structure RawResponse where
  status : ℕ
  body : List UInt8
  deriving DecidableEq

/-- What a method does besides computing. `newParts` and `sign` check what they are given, and
nothing follows a panic. -/
inductive WireOp where
  | panicked
  | newUuid
  | unixTime
  | newParts (parts : RequestParts)
  | generateNonce
  | sign (request : SignedRequest)
  | send (request : SignedRequest)
  deriving DecidableEq

def WireOp.Ans : WireOp → Type
  | .panicked => Empty
  | .newUuid => Uuid
  | .unixTime => ℤ
  | .newParts _ | .sign _ => Option Unit
  | .generateNonce => Option (List UInt8)
  | .send _ => Option RawResponse

abbrev Wire (α : Type) := Fallible WireOp WireOp.Ans LibrarianError α

/-- `serde_json::from_slice` at the type of each call's body. -/
class JsonDecoder where
  decode : (call : ClientCall) → List UInt8 → Except String call.Body

def signatureValiditySeconds : ℤ := 30

namespace KernelClient

/-- A step of the client crate, with its error converted by `?`. -/
def orClient {α : Type} : Option α → Except LibrarianError α
  | some a => .ok a
  | none => .error .client

def newUuid : Wire Uuid := ExceptT.mk (.call .newUuid fun u => .ret (.ok u))

def unixTime : Wire ℤ := ExceptT.mk (.call .unixTime fun now => .ret (.ok now))

def newParts (parts : RequestParts) : Wire RequestParts :=
  ExceptT.mk (.call (.newParts parts) fun (ans : Option Unit) =>
    .ret ((orClient ans).map fun _ => parts))

def generateNonce : Wire (List UInt8) :=
  ExceptT.mk (.call .generateNonce fun (ans : Option (List UInt8)) => .ret (orClient ans))

def signRequest (request : SignedRequest) : Wire SignedRequest :=
  ExceptT.mk (.call (.sign request) fun (ans : Option Unit) =>
    .ret ((orClient ans).map fun _ => request))

def sendRequest (request : SignedRequest) : Wire RawResponse :=
  ExceptT.mk (.call (.send request) fun (ans : Option RawResponse) => .ret (orClient ans))

def sign (parts : RequestParts) (now : ℤ) : Wire SignedRequest := do
  let nonce ← generateNonce
  signRequest ⟨parts, now, now + signatureValiditySeconds, nonce⟩

def buildGet (authority path : String) (requestId : Uuid) (now : ℤ) : Wire SignedRequest := do
  let parts ← newParts ⟨"GET", authority, path, "application/json", [], requestId⟩
  sign parts now

def buildPost (authority path : String) (body : List UInt8) (requestId : Uuid) (now : ℤ) :
    Wire SignedRequest := do
  let parts ← newParts ⟨"POST", authority, path, "application/json", body, requestId⟩
  sign parts now

/-- A body that could not be written fails the call. -/
def serialized (body : Except String (List UInt8)) : Except LibrarianError (List UInt8) :=
  body.mapError .malformedResponse

/-- A body that could not be written ends the process. -/
def expect : Except String (List UInt8) → Wire (List UInt8)
  | .ok body => pure body
  | .error _ => ExceptT.mk (.call .panicked fun (ans : Empty) => ans.elim)

section Methods
variable [JsonEncoder] [JsonDecoder] (client : KernelClient)

def renewalRequestBody (expectedRevision : ℤ) : Wire (List UInt8) :=
  expect (renewInstanceRequest expectedRevision)

/-- The end of every method: the request is sent and its response parsed. -/
def receive (call : ClientCall) (signed : SignedRequest) : Wire call.Outcome := do
  let response ← sendRequest signed
  (call.parse ⟨response.status, JsonDecoder.decode call response.body⟩ : Except LibrarianError _)

def getCall (path : String) (call : ClientCall) : Wire call.Outcome := do
  let requestId ← newUuid
  let now ← unixTime
  let signed ← buildGet client.authority path requestId now
  receive call signed

def postCall (path : String) (body : List UInt8) (call : ClientCall) : Wire call.Outcome := do
  let requestId ← newUuid
  let now ← unixTime
  let signed ← buildPost client.authority path body requestId now
  receive call signed

def renewLease (expectedRevision : ℤ) : Wire RenewedLease := do
  let body ← renewalRequestBody expectedRevision
  client.postCall renewInstancePath body (.renewLease expectedRevision)

def activeSubscriptions : Wire (List Subscription) :=
  client.getCall activeSubscriptionsPath .activeSubscriptions

def createSubscription (eventType : String) : Wire Subscription := do
  let body ← serialized (createSubscriptionRequest eventType)
  client.postCall subscriptionsPath body (.createSubscription eventType)

def eligibleRoutes : Wire (List EligibleRoute) :=
  client.getCall eligibleRoutesPath (.port .eligibleRoutes)

def proposeClaim (routeId : String) (leaseSeconds : ℤ) : Wire ClaimOutcome := do
  let body ← serialized (claimRequest leaseSeconds)
  client.postCall ("/v1/routes/" ++ routeId ++ "/claims") body
    (.port (.proposeClaim routeId leaseSeconds))

def routedRequest (routeId : String) : Wire RoutedRequestOutcome :=
  client.getCall ("/v1/routes/" ++ routeId ++ "/request") (.port (.routedRequest routeId))

def completeClaim (claimId : String) (fencingToken : ℤ) : Wire CompleteOutcome := do
  let body ← serialized (fencedActionRequest fencingToken)
  client.postCall ("/v1/claims/" ++ claimId ++ "/complete") body
    (.port (.completeClaim claimId fencingToken))

/-- The method of each call. -/
def perform : (call : ClientCall) → Wire call.Outcome
  | .port .eligibleRoutes => client.eligibleRoutes
  | .port (.proposeClaim routeId leaseSeconds) => client.proposeClaim routeId leaseSeconds
  | .port (.routedRequest routeId) => client.routedRequest routeId
  | .port (.completeClaim claimId fencingToken) => client.completeClaim claimId fencingToken
  | .renewLease expectedRevision => client.renewLease expectedRevision
  | .activeSubscriptions => client.activeSubscriptions
  | .createSubscription eventType => client.createSubscription eventType

end Methods
end KernelClient
end Librarian
