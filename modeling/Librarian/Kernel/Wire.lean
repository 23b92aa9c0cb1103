import Librarian.Foundation.Expansion
import Librarian.Foundation.Target
import Librarian.Foundation.Utf8
import Librarian.KernelClient
import Librarian.Process.Loop

/-! # What the kernel sees of a round

A reader of requests that takes targets apart as servers do, and knows nothing of how they are
built. Every request of a round is read back as the call it stands for, is sent once, and what the
round goes on with is what the kernel answered to it.
-/
namespace Librarian

/-- The identifier that goes into the path is one segment of it. -/
def ClientCall.isAddressable : ClientCall → Bool
  | .port (.proposeClaim routeId _) | .port (.routedRequest routeId) =>
    Foundation.Target.isSegment routeId
  | .port (.completeClaim claimId _) => Foundation.Target.isSegment claimId
  | _ => true

namespace OnWire
open Foundation Program Process

def readGet (target : Target) : Option ClientCall :=
  match target.path, target.query with
  | ["v1", "routes", "eligible"], none => some (.port .eligibleRoutes)
  | ["v1", "routes", id, "request"], none => some (.port (.routedRequest id))
  | ["v1", "subscriptions"], some "active=true" => some .activeSubscriptions
  | _, _ => none

/-- A request that carries one integer. -/
def readNumbered (path : List String) (name : List Char) (n : ℤ) : Option ClientCall :=
  match path, String.ofList name with
  | ["v1", "routes", id, "claims"], "lease_seconds" => some (.port (.proposeClaim id n))
  | ["v1", "claims", id, "complete"], "fencing_token" => some (.port (.completeClaim id n))
  | ["v1", "instances", "renew"], "expected_revision" => some (.renewLease n)
  | _, _ => none

def readNamed (path : List String) (name s : List Char) : Option ClientCall :=
  match path, String.ofList name with
  | ["v1", "subscriptions"], "event_type" => some (.createSubscription (.ofList s))
  | _, _ => none

def readPost (target : Target) (body : List UInt8) : Option ClientCall :=
  match target.query, Json.readObject (Utf8.decodeLossy body) with
  | none, some ([(name, .integer n)], []) => readNumbered target.path name n
  | none, some ([(name, .string s)], []) => readNamed target.path name s
  | _, _ => none

def readRequest (parts : RequestParts) : Option ClientCall :=
  if parts.contentType ≠ "application/json" then none
  else (Target.read parts.path.toList).bind fun target =>
    if parts.method = "GET" ∧ parts.body = [] then readGet target
    else if parts.method = "POST" then readPost target parts.body
    else none

section Reading
variable {call : ClientCall} {target : Target} {parts : RequestParts}

end Reading

/-- A call of the wire with its answer. -/
abbrev WireTalk := List ((op : WireOp) × op.Ans)

/-- The requests sent, each with what the transport brought back. -/
def sends (talk : WireTalk) : List (SignedRequest × Option RawResponse) :=
  talk.filterMap fun x =>
    match x with
    | ⟨.send request, ans⟩ => some (request, ans)
    | _ => none

/-- Either nothing was sent, or one request, which reads as `call` if that can be read at all, is
younger than its expiry and has an identifier of its own; its answer decides the outcome. -/
inductive Exchanged [JsonDecoder] (client : KernelClient) (call : ClientCall) :
    WireTalk → Except LibrarianError call.Outcome → Prop
  | unsent {talk : WireTalk} (h : sends talk = []) : Exchanged client call talk (.error .client)
  | sent {talk : WireTalk} {request : SignedRequest} {ans : Option RawResponse}
      (h : sends talk = [(request, ans)])
      (hcall : readRequest request.parts = some call ↔ call.isAddressable = true)
      (hauthority : request.parts.authority = client.authority)
      (hid : ⟨.newUuid, request.parts.requestId⟩ ∈ talk) (hcreated : ⟨.unixTime, request.created⟩ ∈ talk)
      (hexpires : request.expires = request.created + 30) :
      Exchanged client call talk (receive call.parse
        (ans.map fun response => ⟨response.status, JsonDecoder.decode call response.body⟩))

section Exchanges
variable [JsonDecoder] {client : KernelClient} {call : ClientCall} {talk : WireTalk}
  {res : Except LibrarianError call.Outcome}

section Posts
variable [JsonEncoder] {body : List UInt8}

end Posts
end Exchanges

/-- What a round does once its calls are requests. -/
inductive RoundOp where
  | wire (op : WireOp)
  | own (op : LoopOp)

def RoundOp.Ans : RoundOp → Type
  | .wire op => op.Ans
  | .own op => op.Ans

abbrev RoundTalk := List ((op : RoundOp) × op.Ans)

def wired (talk : RoundTalk) : WireTalk :=
  talk.filterMap fun x =>
    match x with
    | ⟨.wire op, ans⟩ => some ⟨op, ans⟩
    | ⟨.own _, _⟩ => none

def clientCall : LoopOp → Option ClientCall
  | .lease (.renewLease expectedRevision) => some (.renewLease expectedRevision)
  | .port (.kernel kernelCall) => some (.port kernelCall)
  | _ => none

section Talks

end Talks

section Rounds
variable [JsonDecoder]

/-- A call to the kernel is an exchange, and everything else is done as it is. -/
def Carried (client : KernelClient) : (op : LoopOp) → op.Ans → RoundTalk → Prop
  | .lease (.renewLease expectedRevision), ans, talk =>
    Exchanged client (.renewLease expectedRevision) (wired talk) ans
  | .port (.kernel kernelCall), ans, talk => Exchanged client (.port kernelCall) (wired talk) ans
  | op, ans, talk => talk = [⟨.own op, ans⟩]

variable {client : KernelClient}

theorem Exchanged.requests {call : ClientCall} {talk : WireTalk}
    {res : Except LibrarianError call.Outcome} (h : Exchanged client call talk res)
    (haddress : call.isAddressable = true) :
    ((sends talk).map fun sent => readRequest sent.1.parts).Sublist [some call] := by
  cases h with
  | unsent h =>
    rw [h]
    exact List.nil_sublist _
  | sent h hcall =>
    rw [h, List.map_cons, List.map_nil, hcall.mpr haddress]

theorem Carried.requests {op : LoopOp} {ans : op.Ans} {talk : RoundTalk}
    (h : Carried client op ans talk)
    (haddress : ∀ call ∈ clientCall op, call.isAddressable = true) :
    ((sends (wired talk)).map fun sent => readRequest sent.1.parts).Sublist
      ((clientCall op).toList.map some) := by
  have hown : ∀ {op : LoopOp} {ans : op.Ans}, talk = [⟨.own op, ans⟩] →
      ((sends (wired talk)).map fun sent => readRequest sent.1.parts).Sublist [] := by
    rintro op ans rfl
    exact List.Sublist.refl _
  cases op with
  | lease op =>
    cases op with
    | unixTime => exact hown h
    | renewLease expectedRevision => exact Exchanged.requests h rfl
  | port op =>
    cases op with
    | kernel kernelCall => exact Exchanged.requests h (haddress _ rfl)
    | repository repositoryCall => exact hown h
  | nowSeconds => exact hown h
  | recordSuccess at' => exact hown h
  | sleep pollInterval => exact hown h

end Rounds

section Sample

def sampleRoute : EligibleRoute := ⟨"route", "request", "subscription", "librarian", 0⟩

end Sample
end OnWire
end Librarian
