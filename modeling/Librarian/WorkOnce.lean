import Librarian.Dispatch

/-! # One receive, dispatch and complete pass

`workOnce` in the order of the source. A claim is completed only after its request was
performed, or when its action is unknown.
-/
namespace Librarian

inductive WorkOutcome where
  | nothingEligible
  | claimLost (routeId : String)
  | requestUnavailable (routeId : String)
  | lostBeforeCompletion (routeId claimId : String)
  | completed (routeId : String) (outcome : DispatchOutcome)
  | unknownAction (routeId action : String)
  deriving DecidableEq

variable [UuidText]

/-- The request id of a routed request, which has to be a UUID. -/
def requestUuid (request : RoutedRequest) : Except LibrarianError Uuid :=
  (UuidText.parse request.requestId).elim
    (.error (.malformedResponse "request_id was not a UUID")) .ok

/-- The completion of a claim whose request was performed. -/
def completePerformed (routeId : String) (claim : WorkClaim) (outcome : DispatchOutcome) :
    Work WorkOutcome := do
  let completed ← Work.completeClaim claim.claimId claim.fencingToken
  match completed with
  | .completed _ => pure (.completed routeId outcome)
  | .fenced | .notFound => pure (.lostBeforeCompletion routeId claim.claimId)

/-- What follows once the request of a claimed route is known. -/
def performRequest (routeId : String) (claim : WorkClaim) (request : RoutedRequest) :
    Work WorkOutcome := do
  let requestId ← (requestUuid request : Except LibrarianError _)
  let dispatched ← Work.attempt (dispatch request.action requestId request.scope)
  match dispatched with
  | .ok outcome => completePerformed routeId claim outcome
  | .error (.unknownAction action) => do
    -- an action nobody here performs is still completed, whatever the kernel answers
    let _ ← Work.completeClaim claim.claimId claim.fencingToken
    pure (.unknownAction routeId action)
  | .error error => throw error

/-- What follows once a route is claimed. -/
def performClaim (routeId : String) (claim : WorkClaim) : Work WorkOutcome := do
  let request ← Work.routedRequest routeId
  match request with
  | .found request => performRequest routeId claim request
  | .notFound => pure (.requestUnavailable routeId)

def workOnce (leaseSeconds : ℤ) : Work WorkOutcome := do
  let routes ← Work.eligibleRoutes
  match routes.head? with
  | none => pure .nothingEligible
  | some route => do
    let claimed ← Work.proposeClaim route.routeId leaseSeconds
    match claimed with
    | .claimed claim => performClaim route.routeId claim
    | .alreadyClaimed | .routeNotFound => pure (.claimLost route.routeId)

/-- A list of calls with their answers. -/
abbrev Talk := List ((op : PortOp) × op.Ans)

section Runs
open Foundation Program

/-- All runs of `dispatch`. -/
inductive DispatchRuns (action : String) (requestId : Uuid) (scope : String) :
    Talk → Except LibrarianError DispatchOutcome → Prop
  | put (h : action = putAction) (ans : Except DocumentError PutOutcome) :
      DispatchRuns action requestId scope
        [⟨.repository (.put requestId (requestedDocument scope)), ans⟩]
        ((ans.mapError .document).map fun o => .put o.documentId o.version o.wasAlreadyProcessed)
  | malformed (h : action = getAction) {e : LibrarianError} (hs : parseGetScope scope = .error e) :
      DispatchRuns action requestId scope [] (.error e)
  | get (h : action = getAction) {d : Uuid} {v : Option ℤ} (hs : parseGetScope scope = .ok (d, v))
      (ans : Except DocumentError DocumentVersion) :
      DispatchRuns action requestId scope [⟨.repository (.get d v), ans⟩]
        ((ans.mapError .document).map fun r => .get r.documentId r.version r.contentType)
  | search (h : action = searchAction) (ans : Except DocumentError (List SearchHit)) :
      DispatchRuns action requestId scope [⟨.repository (.search scope searchResultLimit), ans⟩]
        ((ans.mapError .document).map fun hits => .search scope hits.length)
  | unknown (h : action ∉ actions) :
      DispatchRuns action requestId scope [] (.error (.unknownAction action))

/-- What a pass reports after the kernel answered the completion. -/
def completion (routeId : String) (claim : WorkClaim) (outcome : DispatchOutcome) :
    CompleteOutcome → WorkOutcome
  | .completed _ => .completed routeId outcome
  | .fenced | .notFound => .lostBeforeCompletion routeId claim.claimId

/-- All runs of `performRequest`. -/
inductive PerformRuns (routeId : String) (claim : WorkClaim) (request : RoutedRequest) :
    Talk → Except LibrarianError WorkOutcome → Prop
  | malformed {e : LibrarianError} (h : requestUuid request = .error e) :
      PerformRuns routeId claim request [] (.error e)
  | failed {id : Uuid} {talk : Talk} {e : LibrarianError} (hid : requestUuid request = .ok id)
      (h : DispatchRuns request.action id request.scope talk (.error e))
      (hne : ∀ action, e ≠ .unknownAction action) :
      PerformRuns routeId claim request talk (.error e)
  | unknown {id : Uuid} {talk : Talk} {action : String} (hid : requestUuid request = .ok id)
      (h : DispatchRuns request.action id request.scope talk (.error (.unknownAction action)))
      (ans : Except LibrarianError CompleteOutcome) :
      PerformRuns routeId claim request
        (talk ++ [⟨.kernel (.completeClaim claim.claimId claim.fencingToken), ans⟩])
        (ans.map fun _ => .unknownAction routeId action)
  | performed {id : Uuid} {talk : Talk} {outcome : DispatchOutcome}
      (hid : requestUuid request = .ok id)
      (h : DispatchRuns request.action id request.scope talk (.ok outcome))
      (ans : Except LibrarianError CompleteOutcome) :
      PerformRuns routeId claim request
        (talk ++ [⟨.kernel (.completeClaim claim.claimId claim.fencingToken), ans⟩])
        (ans.map (completion routeId claim outcome))

/-- All runs of `performClaim`. -/
inductive RequestRuns (routeId : String) (claim : WorkClaim) :
    Talk → Except LibrarianError WorkOutcome → Prop
  | noAnswer {e : LibrarianError} :
      RequestRuns routeId claim [⟨.kernel (.routedRequest routeId), .error e⟩] (.error e)
  | unavailable :
      RequestRuns routeId claim [⟨.kernel (.routedRequest routeId), .ok .notFound⟩]
        (.ok (.requestUnavailable routeId))
  | found {request : RoutedRequest} {talk : Talk} {res : Except LibrarianError WorkOutcome}
      (h : PerformRuns routeId claim request talk res) :
      RequestRuns routeId claim (⟨.kernel (.routedRequest routeId), .ok (.found request)⟩ :: talk) res

/-- All runs of `workOnce`. -/
inductive PassRuns (leaseSeconds : ℤ) : Talk → Except LibrarianError WorkOutcome → Prop
  | noAnswer {e : LibrarianError} : PassRuns leaseSeconds [⟨.kernel .eligibleRoutes, .error e⟩] (.error e)
  | nothingEligible :
      PassRuns leaseSeconds [⟨.kernel .eligibleRoutes, .ok []⟩] (.ok .nothingEligible)
  | noClaim {route : EligibleRoute} {routes : List EligibleRoute} {e : LibrarianError} :
      PassRuns leaseSeconds [⟨.kernel .eligibleRoutes, .ok (route :: routes)⟩,
        ⟨.kernel (.proposeClaim route.routeId leaseSeconds), .error e⟩] (.error e)
  | claimLost {route : EligibleRoute} {routes : List EligibleRoute} {outcome : ClaimOutcome}
      (h : outcome = .alreadyClaimed ∨ outcome = .routeNotFound) :
      PassRuns leaseSeconds [⟨.kernel .eligibleRoutes, .ok (route :: routes)⟩,
        ⟨.kernel (.proposeClaim route.routeId leaseSeconds), .ok outcome⟩] (.ok (.claimLost route.routeId))
  | claimed {route : EligibleRoute} {routes : List EligibleRoute} {claim : WorkClaim} {talk : Talk}
      {res : Except LibrarianError WorkOutcome} (h : RequestRuns route.routeId claim talk res) :
      PassRuns leaseSeconds (⟨.kernel .eligibleRoutes, .ok (route :: routes)⟩ ::
        ⟨.kernel (.proposeClaim route.routeId leaseSeconds), .ok (.claimed claim)⟩ :: talk) res

variable {action scope routeId : String} {id : Uuid} {claim : WorkClaim} {request : RoutedRequest}
  {leaseSeconds : ℤ} {talk : Talk}

theorem runs_dispatch {res : Except LibrarianError DispatchOutcome}
    (h : Runs (dispatch action id scope).run talk res) : DispatchRuns action id scope talk res := by
  rw [dispatch] at h
  split at h
  · rename_i ha
    rcases runs_call.mp h with ⟨ans, rest, rfl, hrest⟩
    cases ans with
    | error e =>
      rcases runs_ret.mp hrest with ⟨rfl, rfl⟩
      exact .put ha (.error e)
    | ok outcome =>
      rcases runs_ret.mp hrest with ⟨rfl, rfl⟩
      exact .put ha (.ok outcome)
  · rename_i hput
    split at h
    · rename_i ha
      cases hs : parseGetScope scope with
      | error e =>
        rw [hs] at h
        rcases runs_ret.mp h with ⟨rfl, rfl⟩
        exact .malformed ha hs
      | ok target =>
        rw [hs] at h
        rcases runs_call.mp h with ⟨ans, rest, rfl, hrest⟩
        cases ans with
        | error e =>
          rcases runs_ret.mp hrest with ⟨rfl, rfl⟩
          exact .get ha hs (.error e)
        | ok document =>
          rcases runs_ret.mp hrest with ⟨rfl, rfl⟩
          exact .get ha hs (.ok document)
    · rename_i hget
      split at h
      · rename_i ha
        rcases runs_call.mp h with ⟨ans, rest, rfl, hrest⟩
        cases ans with
        | error e =>
          rcases runs_ret.mp hrest with ⟨rfl, rfl⟩
          exact .search ha (.error e)
        | ok hits =>
          rcases runs_ret.mp hrest with ⟨rfl, rfl⟩
          exact .search ha (.ok hits)
      · rename_i hsearch
        rcases runs_ret.mp h with ⟨rfl, rfl⟩
        exact .unknown (by simp [actions, hput, hget, hsearch])

omit [UuidText] in
theorem runs_completePerformed {outcome : DispatchOutcome} {res : Except LibrarianError WorkOutcome}
    (h : Runs (completePerformed routeId claim outcome).run talk res) :
    ∃ ans : Except LibrarianError CompleteOutcome,
      talk = [⟨.kernel (.completeClaim claim.claimId claim.fencingToken), ans⟩] ∧
        res = ans.map (completion routeId claim outcome) := by
  rw [completePerformed] at h
  rcases runs_call.mp h with ⟨ans, rest, rfl, hrest⟩
  refine ⟨ans, ?_⟩
  cases ans with
  | error e =>
    rcases runs_ret.mp hrest with ⟨rfl, rfl⟩
    exact ⟨rfl, rfl⟩
  | ok completed =>
    cases completed <;>
    · rcases runs_ret.mp hrest with ⟨rfl, rfl⟩
      exact ⟨rfl, rfl⟩

theorem runs_performRequest {res : Except LibrarianError WorkOutcome}
    (h : Runs (performRequest routeId claim request).run talk res) :
    PerformRuns routeId claim request talk res := by
  rw [performRequest] at h
  cases hid : requestUuid request with
  | error e =>
    rw [hid] at h
    rcases runs_ret.mp h with ⟨rfl, rfl⟩
    exact .malformed hid
  | ok id =>
    rw [hid] at h
    rcases runs_bind.mp h with ⟨none, all, lifted, rfl, hlift, hall⟩
    rcases runs_ret.mp hlift with ⟨rfl, rfl⟩
    rcases runs_bind.mp hall with ⟨attempted, rest, result, rfl, hattempt, hrest⟩
    rcases runs_bind.mp hattempt with ⟨first, last, dispatched, rfl, hdispatch, hlast⟩
    rcases runs_ret.mp hlast with ⟨rfl, rfl⟩
    have hd := runs_dispatch hdispatch
    rw [List.nil_append, List.append_nil]
    cases dispatched with
    | ok outcome =>
      rcases runs_completePerformed hrest with ⟨ans, rfl, rfl⟩
      exact .performed hid hd ans
    | error e =>
      cases e with
      | unknownAction action =>
        rcases runs_call.mp hrest with ⟨ans, rest', rfl, hcompleted⟩
        cases ans with
        | error e =>
          rcases runs_ret.mp hcompleted with ⟨rfl, rfl⟩
          exact .unknown hid hd (.error e)
        | ok outcome =>
          rcases runs_ret.mp hcompleted with ⟨rfl, rfl⟩
          exact .unknown hid hd (.ok outcome)
      | _ =>
        rcases runs_ret.mp hrest with ⟨rfl, rfl⟩
        rw [List.append_nil]
        exact .failed hid hd (by simp)

theorem runs_performClaim {res : Except LibrarianError WorkOutcome}
    (h : Runs (performClaim routeId claim).run talk res) : RequestRuns routeId claim talk res := by
  rw [performClaim] at h
  rcases runs_call.mp h with ⟨ans, rest, rfl, hrest⟩
  cases ans with
  | error e =>
    rcases runs_ret.mp hrest with ⟨rfl, rfl⟩
    exact .noAnswer
  | ok outcome =>
    cases outcome with
    | found request => exact .found (runs_performRequest hrest)
    | notFound =>
      rcases runs_ret.mp hrest with ⟨rfl, rfl⟩
      exact .unavailable

/-- Every run of a pass is one of these. -/
theorem runs_workOnce {res : Except LibrarianError WorkOutcome}
    (h : Runs (workOnce leaseSeconds).run talk res) : PassRuns leaseSeconds talk res := by
  rw [workOnce] at h
  rcases runs_call.mp h with ⟨ans, rest, rfl, hrest⟩
  cases ans with
  | error e =>
    rcases runs_ret.mp hrest with ⟨rfl, rfl⟩
    exact .noAnswer
  | ok routes =>
    cases routes with
    | nil =>
      rcases runs_ret.mp hrest with ⟨rfl, rfl⟩
      exact .nothingEligible
    | cons route routes =>
      rcases runs_call.mp hrest with ⟨ans, rest', rfl, hclaimed⟩
      cases ans with
      | error e =>
        rcases runs_ret.mp hclaimed with ⟨rfl, rfl⟩
        exact .noClaim
      | ok outcome =>
        cases outcome with
        | claimed claim => exact .claimed (runs_performClaim hclaimed)
        | alreadyClaimed =>
          rcases runs_ret.mp hclaimed with ⟨rfl, rfl⟩
          exact .claimLost (.inl rfl)
        | routeNotFound =>
          rcases runs_ret.mp hclaimed with ⟨rfl, rfl⟩
          exact .claimLost (.inr rfl)

end Runs

section Sample

/-- The identifier the sample requests carry. -/
def sampleRequestId : String := "00000000-0000-0000-0000-000000000001"

@[reducible] def sampleUuidText : UuidText where
  parse s := if s = sampleRequestId then some 1 else none

def sampleRequest : RoutedRequest :=
  ⟨sampleRequestId, "source", putAction, "alpha", "schema", "policy", 0⟩

def sampleClaim (i : ℕ) : WorkClaim :=
  ⟨if i = 0 then "claim-0" else "claim-1", "route", "librarian", "instance", i + 1, "active", 0, 300⟩

end Sample
end Librarian
