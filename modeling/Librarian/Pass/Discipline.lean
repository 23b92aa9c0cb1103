import Librarian.WorkOnce
import Mathlib.Data.List.Pairwise

/-! # The call discipline of a pass

Which calls a pass makes, in which order and with which arguments, whatever the kernel and
the repository answer. A complete conversation has one of few shapes, and the discipline is
read off each of them.
-/
namespace Librarian
open Foundation Program

/-- The place of a call in the order of the source. -/
def PortOp.stage : PortOp → ℕ
  | .kernel .eligibleRoutes => 0
  | .kernel (.proposeClaim _ _) => 1
  | .kernel (.routedRequest _) => 2
  | .repository _ => 3
  | .kernel (.completeClaim _ _) => 4

/-- The repository answered `Ok`. -/
def RepositoryCall.succeeded : (call : RepositoryCall) → call.Ans → Bool
  | .put _ _ => fun (ans : Except DocumentError PutOutcome) => ans.isOk
  | .get _ _ => fun (ans : Except DocumentError DocumentVersion) => ans.isOk
  | .search _ _ => fun (ans : Except DocumentError (List SearchHit)) => ans.isOk

/-- Answers after which no further call is made. -/
inductive Stops : (op : PortOp) → op.Ans → Prop
  | kernelError {call : KernelCall} (e : LibrarianError) : Stops (.kernel call) (.error e)
  | nothingEligible : Stops (.kernel .eligibleRoutes) (.ok [])
  | claimLost {routeId : String} {leaseSeconds : ℤ} {outcome : ClaimOutcome}
      (h : outcome = .alreadyClaimed ∨ outcome = .routeNotFound) :
      Stops (.kernel (.proposeClaim routeId leaseSeconds)) (.ok outcome)
  | unavailable {routeId : String} : Stops (.kernel (.routedRequest routeId)) (.ok .notFound)

namespace Talk

/-- The first of the eligible routes the kernel named. -/
def First (talk : Talk) (routeId : String) : Prop :=
  ∃ route routes, ⟨.kernel .eligibleRoutes, .ok (route :: routes)⟩ ∈ talk ∧ route.routeId = routeId

/-- The kernel granted the claim for the route. -/
def Claimed (talk : Talk) (routeId : String) (claim : WorkClaim) : Prop :=
  ∃ leaseSeconds, ⟨.kernel (.proposeClaim routeId leaseSeconds), .ok (.claimed claim)⟩ ∈ talk

/-- The kernel delivered the request of the route. -/
def Found (talk : Talk) (routeId : String) (request : RoutedRequest) : Prop :=
  ⟨.kernel (.routedRequest routeId), .ok (.found request)⟩ ∈ talk

/-- The completion of the claim was called and answered. -/
def Completes (talk : Talk) (claim : WorkClaim) (ans : Except LibrarianError CompleteOutcome) : Prop :=
  ⟨.kernel (.completeClaim claim.claimId claim.fencingToken), ans⟩ ∈ talk

end Talk

section Peers
variable [UuidText]

/-- The one repository call a request asks for: its own id and scope, and a put for the put
action alone. -/
inductive Serves (request : RoutedRequest) : RepositoryCall → Prop
  | put {id : Uuid} (h : request.action = putAction) (hid : requestUuid request = .ok id) :
      Serves request (.put id (requestedDocument request.scope))
  | get {d : Uuid} {v : Option ℤ} (h : request.action = getAction)
      (hs : parseGetScope request.scope = .ok (d, v)) : Serves request (.get d v)
  | search (h : request.action = searchAction) :
      Serves request (.search request.scope searchResultLimit)

/-- The discipline of one pass. The stages grow strictly, so each call is made at most once
and what a field finds in the talk at a lower stage was said before. -/
structure Disciplined (leaseSeconds : ℤ) (talk : Talk) : Prop where
  ordered : talk.Pairwise fun x y => x.1.stage < y.1.stage
  proposesFirst : ∀ routeId lease ans, ⟨.kernel (.proposeClaim routeId lease), ans⟩ ∈ talk →
    lease = leaseSeconds ∧ talk.First routeId
  requestsFirst : ∀ routeId ans, ⟨.kernel (.routedRequest routeId), ans⟩ ∈ talk →
    talk.First routeId ∧ ∃ claim, talk.Claimed routeId claim
  servesFound : ∀ call ans, ⟨.repository call, ans⟩ ∈ talk →
    ∃ routeId claim request, talk.Claimed routeId claim ∧ talk.Found routeId request ∧
      Serves request call
  completesOwn : ∀ claimId fencingToken ans,
    ⟨.kernel (.completeClaim claimId fencingToken), ans⟩ ∈ talk →
      ∃ routeId claim request, talk.Claimed routeId claim ∧ talk.Found routeId request ∧
        claimId = claim.claimId ∧ fencingToken = claim.fencingToken
  completesIff : ∀ call ans, ⟨.repository call, ans⟩ ∈ talk →
    ((∃ claimId fencingToken ans', ⟨.kernel (.completeClaim claimId fencingToken), ans'⟩ ∈ talk) ↔
      call.succeeded ans = true)
  stops : ∀ before after op ans, talk = before ++ ⟨op, ans⟩ :: after → Stops op ans → after = []

omit [UuidText] in
theorem eq_of_stage {talk : Talk} (h : talk.Pairwise fun x y => x.1.stage < y.1.stage)
    {x y : (op : PortOp) × op.Ans} (hx : x ∈ talk) (hy : y ∈ talk) (heq : x.1.stage = y.1.stage) :
    x = y := by
  have hsymm : Std.Symm fun x y : (op : PortOp) × op.Ans => x.1.stage ≠ y.1.stage :=
    ⟨fun _ _ hne => hne.symm⟩
  have hne : talk.Pairwise fun x y => x.1.stage ≠ y.1.stage := h.imp Nat.ne_of_lt
  by_contra hxy
  exact hne.forall hx hy hxy heq

/-- What is said after the request of a claimed route was delivered. -/
inductive Served (claim : WorkClaim) (request : RoutedRequest) : Talk → Prop
  | rejected : Served claim request []
  | failed {call : RepositoryCall} {ans : call.Ans} (hs : Serves request call)
      (h : call.succeeded ans = false) : Served claim request [⟨.repository call, ans⟩]
  | skipped (ans : Except LibrarianError CompleteOutcome) :
      Served claim request [⟨.kernel (.completeClaim claim.claimId claim.fencingToken), ans⟩]
  | served {call : RepositoryCall} {ans : call.Ans} (hs : Serves request call)
      (h : call.succeeded ans = true) (ans' : Except LibrarianError CompleteOutcome) :
      Served claim request [⟨.repository call, ans⟩,
        ⟨.kernel (.completeClaim claim.claimId claim.fencingToken), ans'⟩]

/-- The shapes of a complete conversation. -/
inductive Shape (leaseSeconds : ℤ) : Talk → Prop
  | routes {ans : Except LibrarianError (List EligibleRoute)}
      (h : Stops (.kernel .eligibleRoutes) ans) :
      Shape leaseSeconds [⟨.kernel .eligibleRoutes, ans⟩]
  | claim {route : EligibleRoute} {routes : List EligibleRoute}
      {ans : Except LibrarianError ClaimOutcome}
      (h : Stops (.kernel (.proposeClaim route.routeId leaseSeconds)) ans) :
      Shape leaseSeconds [⟨.kernel .eligibleRoutes, .ok (route :: routes)⟩,
        ⟨.kernel (.proposeClaim route.routeId leaseSeconds), ans⟩]
  | request {route : EligibleRoute} {routes : List EligibleRoute} {claim : WorkClaim}
      {ans : Except LibrarianError RoutedRequestOutcome}
      (h : Stops (.kernel (.routedRequest route.routeId)) ans) :
      Shape leaseSeconds [⟨.kernel .eligibleRoutes, .ok (route :: routes)⟩,
        ⟨.kernel (.proposeClaim route.routeId leaseSeconds), .ok (.claimed claim)⟩,
        ⟨.kernel (.routedRequest route.routeId), ans⟩]
  | found {route : EligibleRoute} {routes : List EligibleRoute} {claim : WorkClaim}
      {request : RoutedRequest} {rest : Talk} (h : Served claim request rest) :
      Shape leaseSeconds (⟨.kernel .eligibleRoutes, .ok (route :: routes)⟩ ::
        ⟨.kernel (.proposeClaim route.routeId leaseSeconds), .ok (.claimed claim)⟩ ::
        ⟨.kernel (.routedRequest route.routeId), .ok (.found request)⟩ :: rest)

section Runs
variable {leaseSeconds : ℤ} {talk : Talk} {routeId : String} {claim : WorkClaim}
  {request : RoutedRequest}

/-- A dispatch either makes the call its request asks for, with the matching result, or none. -/
theorem DispatchRuns.serves {id : Uuid} {res : Except LibrarianError DispatchOutcome}
    (hid : requestUuid request = .ok id) (h : DispatchRuns request.action id request.scope talk res) :
    (talk = [] ∧ ∃ e, res = .error e) ∨ ∃ call ans, talk = [⟨.repository call, ans⟩] ∧
      Serves request call ∧ call.succeeded ans = res.isOk ∧
        ∀ action, res ≠ .error (.unknownAction action) := by
  cases h with
  | put ha ans =>
    refine .inr ⟨.put id (requestedDocument request.scope), ans, rfl, .put ha hid, ?_, ?_⟩ <;>
      cases ans <;> first | rfl | rintro _ ⟨⟩
  | malformed => exact .inl ⟨rfl, _, rfl⟩
  | @get ha d v hs ans =>
    refine .inr ⟨.get d v, ans, rfl, .get ha hs, ?_, ?_⟩ <;>
      cases ans <;> first | rfl | rintro _ ⟨⟩
  | search ha ans =>
    refine .inr ⟨.search request.scope searchResultLimit, ans, rfl, .search ha, ?_, ?_⟩ <;>
      cases ans <;> first | rfl | rintro _ ⟨⟩
  | unknown => exact .inl ⟨rfl, _, rfl⟩

theorem PerformRuns.served {res : Except LibrarianError WorkOutcome}
    (h : PerformRuns routeId claim request talk res) : Served claim request talk := by
  cases h with
  | malformed => exact .rejected
  | failed hid hd =>
    rcases hd.serves hid with ⟨rfl, -⟩ | ⟨call, ans, rfl, hs, hok, -⟩
    · exact .rejected
    · exact .failed hs hok
  | unknown hid hd ans =>
    rcases hd.serves hid with ⟨rfl, -⟩ | ⟨call, ans, -, -, -, hne⟩
    · exact .skipped ans
    · exact absurd rfl (hne _)
  | performed hid hd ans' =>
    rcases hd.serves hid with ⟨-, e, he⟩ | ⟨call, ans, rfl, hs, hok, -⟩
    · cases he
    · exact .served hs hok ans'

theorem PassRuns.shape {res : Except LibrarianError WorkOutcome}
    (h : PassRuns leaseSeconds talk res) : Shape leaseSeconds talk := by
  cases h with
  | noAnswer => exact .routes (.kernelError _)
  | nothingEligible => exact .routes .nothingEligible
  | noClaim => exact .claim (.kernelError _)
  | claimLost hlost => exact .claim (.claimLost hlost)
  | claimed hrequest =>
    cases hrequest with
    | noAnswer => exact .request (.kernelError _)
    | unavailable => exact .request .unavailable
    | found hperform => exact .found hperform.served

/-- What is known about one exchange of a conversation. -/
inductive Placed (leaseSeconds : ℤ) (talk : Talk) : ((op : PortOp) × op.Ans) → Prop
  | routes (ans : Except LibrarianError (List EligibleRoute)) :
      Placed leaseSeconds talk ⟨.kernel .eligibleRoutes, ans⟩
  | claim {routeId : String} (h : talk.First routeId) (ans : Except LibrarianError ClaimOutcome) :
      Placed leaseSeconds talk ⟨.kernel (.proposeClaim routeId leaseSeconds), ans⟩
  | request {routeId : String} {claim : WorkClaim} (h : talk.First routeId)
      (hc : talk.Claimed routeId claim) (ans : Except LibrarianError RoutedRequestOutcome) :
      Placed leaseSeconds talk ⟨.kernel (.routedRequest routeId), ans⟩
  | repository {routeId : String} {claim : WorkClaim} {request : RoutedRequest}
      {call : RepositoryCall} (hc : talk.Claimed routeId claim) (hf : talk.Found routeId request)
      (hs : Serves request call) (ans : call.Ans) :
      Placed leaseSeconds talk ⟨.repository call, ans⟩
  | complete {routeId : String} {claim : WorkClaim} {request : RoutedRequest}
      (hc : talk.Claimed routeId claim) (hf : talk.Found routeId request)
      (ans : Except LibrarianError CompleteOutcome) :
      Placed leaseSeconds talk ⟨.kernel (.completeClaim claim.claimId claim.fencingToken), ans⟩

theorem Shape.placed (h : Shape leaseSeconds talk) : ∀ x ∈ talk, Placed leaseSeconds talk x := by
  cases h with
  | routes => simpa using .routes _
  | @claim route routes ans h =>
    have hfirst : Talk.First [⟨.kernel .eligibleRoutes, .ok (route :: routes)⟩,
        ⟨.kernel (.proposeClaim route.routeId leaseSeconds), ans⟩] route.routeId :=
      ⟨route, routes, by simp, rfl⟩
    simpa using ⟨.routes _, .claim hfirst _⟩
  | @request route routes claim ans h =>
    generalize htalk : [_, _, _] = talk
    have hfirst : Talk.First talk route.routeId := ⟨route, routes, by simp [← htalk], rfl⟩
    have hclaim : Talk.Claimed talk route.routeId claim := ⟨leaseSeconds, by simp [← htalk]⟩
    rw [← htalk, List.forall_mem_cons, List.forall_mem_cons, List.forall_mem_singleton, htalk]
    exact ⟨.routes _, .claim hfirst _, .request hfirst hclaim _⟩
  | @found route routes claim request rest hs =>
    generalize htalk : _ :: _ :: _ :: rest = talk
    have hfirst : Talk.First talk route.routeId := ⟨route, routes, by simp [← htalk], rfl⟩
    have hclaim : Talk.Claimed talk route.routeId claim := ⟨leaseSeconds, by simp [← htalk]⟩
    have hfound : Talk.Found talk route.routeId request := by simp [Talk.Found, ← htalk]
    rw [← htalk, List.forall_mem_cons, List.forall_mem_cons, List.forall_mem_cons, htalk]
    refine ⟨.routes _, .claim hfirst _, .request hfirst hclaim _, ?_⟩
    cases hs with
    | rejected => simp
    | failed hs => simpa using .repository hclaim hfound hs _
    | skipped ans => simpa using .complete hclaim hfound ans
    | served hs _ ans' =>
      simpa using ⟨.repository hclaim hfound hs _, .complete hclaim hfound ans'⟩

/-- A repository call and a completion come last, after the earlier stages. -/
theorem Shape.split (h : Shape leaseSeconds talk) : ∃ front rest, talk = front ++ rest ∧
    (∀ x ∈ front, x.1.stage < 3) ∧ (rest = [] ∨ ∃ claim request, Served claim request rest) := by
  cases h with
  | routes => exact ⟨[_], [], rfl, by simp [PortOp.stage], .inl rfl⟩
  | claim => exact ⟨[_, _], [], rfl, by simp [PortOp.stage], .inl rfl⟩
  | request => exact ⟨[_, _, _], [], rfl, by simp [PortOp.stage], .inl rfl⟩
  | found hs => exact ⟨[_, _, _], _, rfl, by simp [PortOp.stage], .inr ⟨_, _, hs⟩⟩

omit [UuidText] in
theorem mem_rest {front rest : Talk} {x : (op : PortOp) × op.Ans} (hfront : ∀ x ∈ front, x.1.stage < 3)
    (h : x ∈ front ++ rest) (hx : 3 ≤ x.1.stage) : x ∈ rest := by
  rcases List.mem_append.mp h with hearly | hrest
  · exact absurd (hfront x hearly) (Nat.not_lt.mpr hx)
  · exact hrest

theorem Shape.completes_iff (h : Shape leaseSeconds talk) {call : RepositoryCall} {ans : call.Ans}
    (hmem : ⟨.repository call, ans⟩ ∈ talk) :
    (∃ claimId fencingToken ans', ⟨.kernel (.completeClaim claimId fencingToken), ans'⟩ ∈ talk) ↔
      call.succeeded ans = true := by
  rcases h.split with ⟨front, rest, rfl, hfront, hrest⟩
  have hcall : ⟨.repository call, ans⟩ ∈ rest := mem_rest hfront hmem (Nat.le_refl 3)
  rcases hrest with rfl | ⟨claim, request, hs⟩
  · exact absurd hcall (by simp)
  · cases hs with
    | rejected => exact absurd hcall (by simp)
    | failed _ hno =>
      cases List.mem_singleton.mp hcall
      rw [hno]
      refine iff_of_false ?_ Bool.false_ne_true
      rintro ⟨claimId, fencingToken, ans', hlast⟩
      cases List.mem_singleton.mp (mem_rest hfront hlast (Nat.le_succ 3))
    | skipped => cases List.mem_singleton.mp hcall
    | @served _ _ _ hok ans' =>
      have hans : call.succeeded ans = true := by
        rcases List.mem_cons.mp hcall with hhead | hlast
        · cases hhead
          exact hok
        · cases List.mem_singleton.mp hlast
      exact iff_of_true ⟨claim.claimId, claim.fencingToken, ans', by simp⟩ hans

theorem Shape.ordered (h : Shape leaseSeconds talk) :
    talk.Pairwise fun x y => x.1.stage < y.1.stage := by
  cases h with
  | found hs => cases hs <;> simp [PortOp.stage]
  | _ => simp [PortOp.stage]

/-- Every exchange but the last one lets the pass go on. -/
theorem Shape.goes_on (h : Shape leaseSeconds talk) : ∀ x ∈ talk.dropLast, ¬ Stops x.1 x.2 := by
  have hroutes (route : EligibleRoute) (routes : List EligibleRoute) :
      ¬ Stops (.kernel .eligibleRoutes) (.ok (route :: routes)) := by rintro ⟨⟩
  have hclaim (routeId : String) (claim : WorkClaim) :
      ¬ Stops (.kernel (.proposeClaim routeId leaseSeconds)) (.ok (.claimed claim)) := by
    rintro ⟨⟩
    simp at *
  have hrequest (routeId : String) (request : RoutedRequest) :
      ¬ Stops (.kernel (.routedRequest routeId)) (.ok (.found request)) := by rintro ⟨⟩
  have hrepository (call : RepositoryCall) (ans : call.Ans) : ¬ Stops (.repository call) ans := by
    rintro ⟨⟩
  cases h with
  | found hs => cases hs <;> simp [List.dropLast, hroutes, hclaim, hrequest, hrepository]
  | _ => simp [List.dropLast, hroutes, hclaim]

theorem Shape.stops (h : Shape leaseSeconds talk) {before after : Talk} {op : PortOp}
    {ans : op.Ans} (htalk : talk = before ++ ⟨op, ans⟩ :: after) (hs : Stops op ans) :
    after = [] := by
  by_contra hne
  apply h.goes_on ⟨op, ans⟩ ?_ hs
  rw [htalk, List.dropLast_append_of_ne_nil (by simp), List.dropLast_cons_of_ne_nil hne]
  simp

theorem Shape.disciplined (h : Shape leaseSeconds talk) : Disciplined leaseSeconds talk where
  ordered := h.ordered
  proposesFirst _ _ _ hmem := by
    cases h.placed _ hmem with
    | claim hfirst => exact ⟨rfl, hfirst⟩
  requestsFirst _ _ hmem := by
    cases h.placed _ hmem with
    | request hfirst hclaim => exact ⟨hfirst, _, hclaim⟩
  servesFound _ _ hmem := by
    cases h.placed _ hmem with
    | repository hclaim hfound hs => exact ⟨_, _, _, hclaim, hfound, hs⟩
  completesOwn _ _ _ hmem := by
    cases h.placed _ hmem with
    | complete hclaim hfound => exact ⟨_, _, _, hclaim, hfound, rfl, rfl⟩
  completesIff _ _ hmem := h.completes_iff hmem
  stops _ _ _ _ htalk hs := h.stops htalk hs

/-- The calls of a pass are disciplined against arbitrary peers, whatever each call returns. -/
theorem workOnce_disciplined {res : Except LibrarianError WorkOutcome}
    (h : Runs (workOnce leaseSeconds).run talk res) : Disciplined leaseSeconds talk :=
  (runs_workOnce h).shape.disciplined

end Runs
end Peers

section Sample

def sampleRoute : EligibleRoute := ⟨"route", sampleRequestId, "subscription", "librarian", 0⟩

def performedTalk (ans : Except LibrarianError CompleteOutcome) : Talk :=
  [⟨.kernel .eligibleRoutes, .ok [sampleRoute]⟩,
    ⟨.kernel (.proposeClaim "route" 300), .ok (.claimed (sampleClaim 0))⟩,
    ⟨.kernel (.routedRequest "route"), .ok (.found sampleRequest)⟩,
    ⟨.repository (.put 1 (requestedDocument "alpha")), .ok (⟨7, 1, false⟩ : PutOutcome)⟩,
    ⟨.kernel (.completeClaim "claim-0" 1), ans⟩]

theorem found_performedTalk {ans : Except LibrarianError CompleteOutcome} {routeId : String}
    {request : RoutedRequest} (h : (performedTalk ans).Found routeId request) :
    request = sampleRequest := by
  simp only [Talk.Found, performedTalk, List.mem_cons] at h
  rcases h with h | h | h | h | h | h <;> cases h
  rfl

theorem workOnce_disciplined_performed :
    @Disciplined sampleUuidText 300 (performedTalk (.ok (.completed (sampleClaim 0)))) :=
  @workOnce_disciplined sampleUuidText _ _ (.ok (.completed "route" (.put 7 1 false)))
    (.call _ (.call _ (.call _ (.call _ (.call _ (.ret _))))))

end Sample
end Librarian
