import Librarian.Kernel.Port
import Mathlib.Logic.Function.Basic

/-! # The routes and claims of the kernel

What this service assumes of the kernel: a route has at most one current claim, an
uncompleted route without one is eligible, the request of a route never changes, and only
the current claim completes its route. The kernel may refuse any call at any time.
-/
namespace Librarian

/-- `claim` is the current claim and `fencingToken` the last token issued for the route. -/
structure Route where
  requestId : String
  claim : Option WorkClaim
  fencingToken : ℤ
  completed : Bool
  deriving DecidableEq

def Route.eligible (route : Route) : Bool := route.claim.isNone && !route.completed

/-- Requests by their own ids, routes by theirs, and every claim ever granted. -/
structure Kernel where
  requests : String → Option RoutedRequest
  routes : String → Option Route
  claims : String → Option WorkClaim

namespace Kernel

def empty : Kernel := ⟨fun _ => none, fun _ => none, fun _ => none⟩

variable (k : Kernel)

/-- The request a route delivers. -/
def routed (routeId : String) : Option RoutedRequest :=
  (k.routes routeId).bind fun route => k.requests route.requestId

def isEligible (routeId : String) : Bool := (k.routes routeId).any Route.eligible

def setRoute (routeId : String) (route : Route) : Kernel :=
  { k with routes := Function.update k.routes routeId (some route) }

/-- A new request is accepted under an id of its own. -/
def accept (request : RoutedRequest) : Option Kernel :=
  match k.requests request.requestId with
  | none =>
    some { k with requests := Function.update k.requests request.requestId (some request) }
  | some _ => none

/-- An accepted request gets one more route. -/
def addRoute (routeId requestId : String) : Option Kernel :=
  match k.routes routeId, k.requests requestId with
  | none, some _ => some (k.setRoute routeId ⟨requestId, none, 0, false⟩)
  | _, _ => none

/-- The lease of the current claim ends. -/
def expire (routeId : String) : Option Kernel :=
  (k.routes routeId).map fun route => k.setRoute routeId { route with claim := none }

/-- A claim with a new id and a new fencing token becomes current. -/
def grant (routeId : String) (claim : WorkClaim) : Option Kernel :=
  match k.routes routeId with
  | some route =>
    if route.eligible ∧ claim.routeId = routeId ∧ k.claims claim.claimId = none ∧
        route.fencingToken < claim.fencingToken then
      some { k.setRoute routeId
          { route with claim := some claim, fencingToken := claim.fencingToken } with
        claims := Function.update k.claims claim.claimId (some claim) }
    else none
  | none => none

/-- The current claim completes its route. -/
def complete (claimId : String) (fencingToken : ℤ) : Option Kernel :=
  match k.claims claimId with
  | some claim =>
    match k.routes claim.routeId with
    | some route =>
      if route.claim = some claim ∧ claim.fencingToken = fencingToken then
        some (k.setRoute claim.routeId { route with claim := none, completed := true })
      else none
    | none => none
  | none => none

/-- The kernel after it answered a call with the given response, or `none` if it does not
answer so. Responses other than the successful one change nothing. -/
def respond : (call : KernelCall) → Response call.Body → Option Kernel
  | .eligibleRoutes => fun (response : Response (List EligibleRoute)) =>
    match response.expect 200 with
    | .ok routes => if routes.all fun route => k.isEligible route.routeId then some k else none
    | .error _ => some k
  | .proposeClaim routeId _ => fun (response : Response WorkClaim) =>
    match response.expect 201 with
    | .ok claim => k.grant routeId claim
    | .error _ => some k
  | .routedRequest routeId => fun (response : Response RoutedRequest) =>
    match response.expect 200 with
    | .ok request => if k.routed routeId = some request then some k else none
    | .error _ => some k
  | .completeClaim claimId fencingToken => fun (response : Response WorkClaim) =>
    match response.expect 200 with
    | .ok _ => k.complete claimId fencingToken
    | .error _ => some k

/-- What the caller may conclude from an answer of the kernel. -/
def Tells : (call : KernelCall) → Except LibrarianError call.Outcome → Prop
  | .proposeClaim routeId _ => fun outcome => ∀ claim, outcome = .ok (.claimed claim) →
    k.claims claim.claimId = some claim ∧ claim.routeId = routeId
  | .routedRequest routeId => fun outcome => ∀ request, outcome = .ok (.found request) →
    k.routed routeId = some request
  | _ => fun _ => True

def Completed (routeId : String) : Prop := ∃ route, k.routes routeId = some route ∧ route.completed

/-- Granted claims stay granted, and routes go on delivering the same request. -/
structure Grows (k' : Kernel) : Prop where
  claims : ∀ claimId claim, k.claims claimId = some claim → k'.claims claimId = some claim
  routed : ∀ routeId request, k.routed routeId = some request → k'.routed routeId = some request

variable {k} {k' : Kernel}

theorem Grows.refl (k : Kernel) : k.Grows k := ⟨fun _ _ h => h, fun _ _ h => h⟩

theorem Grows.trans {k₁ k₂ k₃ : Kernel} (h : k₁.Grows k₂) (h' : k₂.Grows k₃) : k₁.Grows k₃ where
  claims claimId claim hc := h'.claims claimId claim (h.claims claimId claim hc)
  routed routeId request hr := h'.routed routeId request (h.routed routeId request hr)

/-- What an answer told stays true. -/
theorem Tells.mono {call : KernelCall} {outcome : Except LibrarianError call.Outcome}
    (h : k.Tells call outcome) (hg : k.Grows k') : k'.Tells call outcome := by
  cases call with
  | proposeClaim routeId leaseSeconds =>
    intro claim hc
    exact ⟨hg.claims _ _ (h claim hc).1, (h claim hc).2⟩
  | routedRequest routeId =>
    intro request hr
    exact hg.routed _ _ (h request hr)
  | eligibleRoutes => trivial
  | completeClaim claimId fencingToken => trivial

theorem tells_error {call : KernelCall} (e : LibrarianError) : k.Tells call (.error e) := by
  cases call with
  | proposeClaim routeId leaseSeconds => exact fun _ h => nomatch h
  | routedRequest routeId => exact fun _ h => nomatch h
  | eligibleRoutes => trivial
  | completeClaim claimId fencingToken => trivial

section SetRoute
variable {routeId x : String} {old route : Route}

theorem setRoute_self : (k.setRoute routeId route).routes routeId = some route :=
  Function.update_self _ _ _

theorem setRoute_other (h : x ≠ routeId) : (k.setRoute routeId route).routes x = k.routes x :=
  Function.update_of_ne h _ _

/-- A route may change as long as it keeps its request. -/
theorem routed_setRoute (h : k.routes routeId = some old) (hr : route.requestId = old.requestId) :
    (k.setRoute routeId route).routed = k.routed := by
  ext x request
  by_cases hx : x = routeId
  · subst hx
    rw [routed, routed, setRoute_self, h]
    change k.requests route.requestId = _ ↔ k.requests old.requestId = _
    rw [hr]
  · rw [routed, routed, setRoute_other hx]
    rfl

theorem grows_setRoute (h : k.routes routeId = some old) (hr : route.requestId = old.requestId) :
    k.Grows (k.setRoute routeId route) where
  claims _ _ hc := hc
  routed x request hx := by rwa [routed_setRoute h hr]

theorem completed_setRoute (h : (k.setRoute routeId route).Completed x) :
    k.Completed x ∨ (x = routeId ∧ route.completed) := by
  rcases h with ⟨found, hfound, hdone⟩
  by_cases hx : x = routeId
  · subst hx
    rw [setRoute_self] at hfound
    cases hfound
    exact .inr ⟨rfl, hdone⟩
  · rw [setRoute_other hx] at hfound
    exact .inl ⟨found, hfound, hdone⟩

end SetRoute

section Cases
variable {routeId requestId claimId : String} {request : RoutedRequest} {claim : WorkClaim}
  {fencingToken : ℤ}

theorem accept_cases (h : k.accept request = some k') :
    k.requests request.requestId = none ∧ k' = { k with
      requests := Function.update k.requests request.requestId (some request) } := by
  rw [accept] at h
  split at h
  · rename_i hnone
    exact ⟨hnone, (Option.some.inj h).symm⟩
  · cases h

theorem addRoute_cases (h : k.addRoute routeId requestId = some k') :
    k.routes routeId = none ∧ k' = k.setRoute routeId ⟨requestId, none, 0, false⟩ := by
  rw [addRoute] at h
  split at h
  · rename_i hnone _
    exact ⟨hnone, (Option.some.inj h).symm⟩
  · cases h

theorem expire_cases (h : k.expire routeId = some k') :
    ∃ route, k.routes routeId = some route ∧
      k' = k.setRoute routeId { route with claim := none } := by
  rcases Option.map_eq_some_iff.mp h with ⟨route, hroute, rfl⟩
  exact ⟨route, hroute, rfl⟩

theorem grant_cases (h : k.grant routeId claim = some k') :
    ∃ route, k.routes routeId = some route ∧ route.eligible ∧ claim.routeId = routeId ∧
      k.claims claim.claimId = none ∧ k' = { k.setRoute routeId
          { route with claim := some claim, fencingToken := claim.fencingToken } with
        claims := Function.update k.claims claim.claimId (some claim) } := by
  rw [grant] at h
  split at h
  · rename_i route hroute
    split at h
    · rename_i hif
      exact ⟨route, hroute, hif.1, hif.2.1, hif.2.2.1, (Option.some.inj h).symm⟩
    · cases h
  · cases h

theorem complete_cases (h : k.complete claimId fencingToken = some k') :
    ∃ claim route, k.claims claimId = some claim ∧ k.routes claim.routeId = some route ∧
      route.claim = some claim ∧
      k' = k.setRoute claim.routeId { route with claim := none, completed := true } := by
  rw [complete] at h
  split at h
  · rename_i claim hclaim
    split at h
    · rename_i route hroute
      split at h
      · rename_i hif
        exact ⟨claim, route, hclaim, hroute, hif.1, (Option.some.inj h).symm⟩
      · cases h
    · cases h
  · cases h

/-- An accepted request changes no route that was there. -/
theorem grows_accept (h : k.accept request = some k') : k.Grows k' := by
  rcases accept_cases h with ⟨hnone, rfl⟩
  constructor
  · exact fun _ _ hc => hc
  · intro routeId x hx
    rcases Option.bind_eq_some_iff.mp hx with ⟨route, hroute, hreq⟩
    apply Option.bind_eq_some_iff.mpr ⟨route, hroute, ?_⟩
    have hne : route.requestId ≠ request.requestId := by
      intro heq
      rw [heq, hnone] at hreq
      cases hreq
    exact (Function.update_of_ne hne _ _).trans hreq

theorem grows_addRoute (h : k.addRoute routeId requestId = some k') : k.Grows k' := by
  rcases addRoute_cases h with ⟨hnone, rfl⟩
  constructor
  · exact fun _ _ hc => hc
  · intro x request hx
    rcases Option.bind_eq_some_iff.mp hx with ⟨route, hroute, hreq⟩
    have hne : x ≠ routeId := by
      rintro rfl
      rw [hnone] at hroute
      cases hroute
    exact Option.bind_eq_some_iff.mpr ⟨route, by rwa [setRoute_other hne], hreq⟩

theorem grows_expire (h : k.expire routeId = some k') : k.Grows k' := by
  rcases expire_cases h with ⟨route, hroute, rfl⟩
  exact grows_setRoute hroute rfl

theorem grows_grant (h : k.grant routeId claim = some k') : k.Grows k' := by
  rcases grant_cases h with ⟨route, hroute, -, -, hnew, rfl⟩
  have hset : k.Grows (k.setRoute routeId
      { route with claim := some claim, fencingToken := claim.fencingToken }) :=
    grows_setRoute hroute rfl
  constructor
  · intro id held hheld
    have hne : id ≠ claim.claimId := by
      rintro rfl
      rw [hnew] at hheld
      cases hheld
    exact (Function.update_of_ne hne _ _).trans hheld
  · exact hset.routed

theorem grows_complete (h : k.complete claimId fencingToken = some k') : k.Grows k' := by
  rcases complete_cases h with ⟨claim, route, -, hroute, -, rfl⟩
  exact grows_setRoute hroute rfl

theorem completed_accept (h : k.accept request = some k') {x : String} (hx : k'.Completed x) :
    k.Completed x := by
  rcases accept_cases h with ⟨-, rfl⟩
  exact hx

theorem completed_expire (h : k.expire routeId = some k') {x : String} (hx : k'.Completed x) :
    k.Completed x := by
  rcases expire_cases h with ⟨route, hroute, rfl⟩
  rcases completed_setRoute hx with hx | ⟨rfl, hdone⟩
  · exact hx
  · exact ⟨route, hroute, hdone⟩

theorem completed_addRoute (h : k.addRoute routeId requestId = some k') {x : String}
    (hx : k'.Completed x) : k.Completed x := by
  rcases addRoute_cases h with ⟨-, rfl⟩
  rcases completed_setRoute hx with hx | ⟨-, hdone⟩
  · exact hx
  · cases hdone

theorem completed_grant (h : k.grant routeId claim = some k') {x : String}
    (hx : k'.Completed x) : k.Completed x := by
  rcases grant_cases h with ⟨route, hroute, -, -, -, rfl⟩
  rcases completed_setRoute hx with hx | ⟨rfl, hdone⟩
  · exact hx
  · exact ⟨route, hroute, hdone⟩

end Cases

section Respond
variable {call : KernelCall} {response : Response call.Body}

/-- Everything a response of the kernel comes with. -/
inductive Responds (k : Kernel) : (call : KernelCall) → Response call.Body → Kernel → Prop
  | refused {call : KernelCall} {response : Response call.Body}
      (h : ∀ k' : Kernel, k'.Tells call (call.parse response)) : Responds k call response k
  | granted {routeId : String} {leaseSeconds : ℤ} {response : Response WorkClaim}
      {claim : WorkClaim} {k' : Kernel} (hr : response.expect 201 = .ok claim)
      (h : k.grant routeId claim = some k') :
      Responds k (.proposeClaim routeId leaseSeconds) response k'
  | found {routeId : String} {response : Response RoutedRequest} {request : RoutedRequest}
      (hr : response.expect 200 = .ok request) (h : k.routed routeId = some request) :
      Responds k (.routedRequest routeId) response k
  | completed {claimId : String} {fencingToken : ℤ} {response : Response WorkClaim}
      {k' : Kernel} (h : k.complete claimId fencingToken = some k') :
      Responds k (.completeClaim claimId fencingToken) response k'

theorem respond_cases (h : k.respond call response = some k') : k.Responds call response k' := by
  cases call with
  | eligibleRoutes =>
    have hk : k' = k := by
      simp only [respond] at h
      split at h
      · split at h
        · exact (Option.some.inj h).symm
        · cases h
      · exact (Option.some.inj h).symm
    rw [hk]
    exact .refused fun _ => trivial
  | proposeClaim routeId leaseSeconds =>
    simp only [respond] at h
    split at h
    · rename_i claim hr
      exact .granted hr h
    · rename_i e hr
      cases h
      apply Responds.refused
      intro x claim hp
      rw [parseClaimResponse_claimed.mp hp] at hr
      cases hr
  | routedRequest routeId =>
    simp only [respond] at h
    split at h
    · rename_i request hr
      split at h
      · rename_i hrouted
        cases h
        exact .found hr hrouted
      · cases h
    · rename_i e hr
      cases h
      apply Responds.refused
      intro x request hp
      rw [parseRoutedRequestResponse_found.mp hp] at hr
      cases hr
  | completeClaim claimId fencingToken =>
    simp only [respond] at h
    split at h
    · exact .completed h
    · cases h
      exact .refused fun _ => trivial

theorem grows_respond (h : k.respond call response = some k') : k.Grows k' := by
  cases respond_cases h with
  | refused => exact .refl k
  | granted _ h => exact grows_grant h
  | found => exact .refl k
  | completed h => exact grows_complete h

theorem tells_respond (h : k.respond call response = some k') :
    k'.Tells call (call.parse response) := by
  cases respond_cases h with
  | refused htells => exact htells _
  | granted hr hgrant =>
    rcases grant_cases hgrant with ⟨route, -, -, hrouteId, -, rfl⟩
    intro claim hp
    rw [parseClaimResponse_claimed.mp hp] at hr
    cases hr
    exact ⟨Function.update_self _ _ _, hrouteId⟩
  | found hr hrouted =>
    intro request hp
    rw [parseRoutedRequestResponse_found.mp hp] at hr
    cases hr
    exact hrouted
  | completed => trivial

/-- Only the completion of a claim of the route completes it. -/
theorem completed_respond (h : k.respond call response = some k') {routeId : String}
    (hx : k'.Completed routeId) : k.Completed routeId ∨ ∃ claimId fencingToken claim,
      call = .completeClaim claimId fencingToken ∧ k.claims claimId = some claim ∧
        claim.routeId = routeId := by
  cases respond_cases h with
  | refused => exact .inl hx
  | granted _ h => exact .inl (completed_grant h hx)
  | found => exact .inl hx
  | completed h =>
    rcases complete_cases h with ⟨claim, route, hclaim, -, -, rfl⟩
    rcases completed_setRoute hx with hx | ⟨rfl, -⟩
    · exact .inl hx
    · exact .inr ⟨_, _, claim, rfl, hclaim, rfl⟩

end Respond

section Completed
variable {routeId x requestId claimId : String} {old route : Route} {claim : WorkClaim}
  {request : RoutedRequest} {fencingToken : ℤ}

/-- A completed route is no longer eligible. -/
theorem Completed.not_eligible (h : k.Completed routeId) : k.isEligible routeId = false := by
  rcases h with ⟨found, hfound, hdone⟩
  simp [isEligible, hfound, Route.eligible, hdone]

theorem Completed.not_granted (h : k.Completed routeId) : k.grant routeId claim = none := by
  rcases h with ⟨found, hfound, hdone⟩
  simp [grant, hfound, Route.eligible, hdone]

theorem Completed.setRoute (h : k.Completed x) (hold : k.routes routeId = some old)
    (hr : old.completed = true → route.completed = true) : (k.setRoute routeId route).Completed x := by
  rcases h with ⟨found, hfound, hdone⟩
  by_cases hx : x = routeId
  · subst hx
    rw [hold] at hfound
    cases hfound
    exact ⟨route, setRoute_self, hr hdone⟩
  · exact ⟨found, by rwa [setRoute_other hx], hdone⟩

theorem Completed.accept (hx : k.Completed x) (h : k.accept request = some k') : k'.Completed x := by
  rcases accept_cases h with ⟨-, rfl⟩
  exact hx

theorem Completed.addRoute (hx : k.Completed x) (h : k.addRoute routeId requestId = some k') :
    k'.Completed x := by
  rcases addRoute_cases h with ⟨hnone, rfl⟩
  rcases hx with ⟨found, hfound, hdone⟩
  have hne : x ≠ routeId := by
    rintro rfl
    rw [hnone] at hfound
    cases hfound
  exact ⟨found, by rwa [setRoute_other hne], hdone⟩

theorem Completed.expire (hx : k.Completed x) (h : k.expire routeId = some k') :
    k'.Completed x := by
  rcases expire_cases h with ⟨found, hfound, rfl⟩
  exact hx.setRoute hfound fun hdone => hdone

/-- No answer of the kernel reopens a route. -/
theorem Completed.respond {call : KernelCall} {response : Response call.Body} (hx : k.Completed x)
    (h : k.respond call response = some k') : k'.Completed x := by
  cases respond_cases h with
  | refused => exact hx
  | granted _ h =>
    rcases grant_cases h with ⟨found, hfound, -, -, -, rfl⟩
    exact hx.setRoute hfound fun hdone => hdone
  | found => exact hx
  | completed h =>
    rcases complete_cases h with ⟨_, found, -, hfound, -, rfl⟩
    exact hx.setRoute hfound fun _ => rfl

/-- An accepted completion completes the route of the claim. -/
theorem respond_completes {response : Response WorkClaim} {done : WorkClaim}
    (h : k.respond (.completeClaim claimId fencingToken) response = some k')
    (hr : response.expect 200 = .ok done) (hclaim : k.claims claimId = some claim) :
    k'.Completed claim.routeId := by
  simp only [Kernel.respond, hr] at h
  rcases complete_cases h with ⟨held, found, hheld, -, -, rfl⟩
  rw [hclaim] at hheld
  cases hheld
  exact ⟨_, setRoute_self, rfl⟩

end Completed
end Kernel
end Librarian
