import Librarian.GetScope
import Librarian.Pass.Discipline

/-! # What a pass reports about its claim

The fate of a claim is decided by the kernel's answer to its completion. An unknown action
is completed on a path of its own, which reports the same whatever the kernel answers.
-/
namespace Librarian
open Foundation Program

/-- The kernel answered the completion of a claim by saying that the claim is lost. -/
def CompleteOutcome.isLost : CompleteOutcome → Bool
  | .completed _ => false
  | .fenced | .notFound => true

namespace Talk

/-- The completion was answered, and the claim found lost. -/
def LostClaim (talk : Talk) : Prop :=
  ∃ claimId fencingToken outcome,
    ⟨.kernel (.completeClaim claimId fencingToken), .ok outcome⟩ ∈ talk ∧ outcome.isLost = true

/-- The kernel completed the claim of the route. -/
def CompletedClaim (talk : Talk) (routeId : String) : Prop :=
  ∃ claim done, talk.Claimed routeId claim ∧ talk.Completes claim (.ok (.completed done))

/-- A talk followed by the completion of a claim. -/
def withCompletion (front : Talk) (claim : WorkClaim) (ans : Except LibrarianError CompleteOutcome) :
    Talk :=
  front ++ [⟨.kernel (.completeClaim claim.claimId claim.fencingToken), ans⟩]

theorem Claimed.withCompletion {front : Talk} {routeId : String} {claim other : WorkClaim}
    {ans : Except LibrarianError CompleteOutcome} (h : front.Claimed routeId claim) :
    (front.withCompletion other ans).Claimed routeId claim :=
  h.imp fun _ hmem => List.mem_append_left _ hmem

theorem completes_withCompletion (front : Talk) (claim : WorkClaim)
    (ans : Except LibrarianError CompleteOutcome) :
    (front.withCompletion claim ans).Completes claim ans := by
  simp [Completes, Talk.withCompletion]

end Talk

/-- The pass reports a completion only if the kernel confirmed it, and every lost claim as lost. -/
structure Truthful (talk : Talk) (res : Except LibrarianError WorkOutcome) : Prop where
  completed : ∀ routeId outcome, res = .ok (.completed routeId outcome) → talk.CompletedClaim routeId
  unknownAction : ∀ routeId action, res = .ok (.unknownAction routeId action) →
    talk.CompletedClaim routeId
  lost : ∀ claimId fencingToken outcome,
    ⟨.kernel (.completeClaim claimId fencingToken), .ok outcome⟩ ∈ talk → outcome.isLost = true →
      ∃ routeId claim, talk.Claimed routeId claim ∧ claim.claimId = claimId ∧
        claim.fencingToken = fencingToken ∧ res = .ok (.lostBeforeCompletion routeId claimId)

section Runs
variable [UuidText] {leaseSeconds : ℤ} {talk : Talk} {routeId : String} {claim : WorkClaim}
  {request : RoutedRequest} {res : Except LibrarianError WorkOutcome}

/-- How a conversation ends: without a completion and with nothing to report about it, or with
the completion on one of the two paths. -/
inductive Ending : Talk → Except LibrarianError WorkOutcome → Prop
  | silent {talk : Talk} {res : Except LibrarianError WorkOutcome}
      (hno : ∀ x ∈ talk, x.1.stage < 4)
      (hcompleted : ∀ routeId outcome, res ≠ .ok (.completed routeId outcome))
      (hunknown : ∀ routeId action, res ≠ .ok (.unknownAction routeId action)) : Ending talk res
  | performed {front : Talk} {routeId : String} {claim : WorkClaim} {request : RoutedRequest}
      {outcome : DispatchOutcome} (hno : ∀ x ∈ front, x.1.stage < 4)
      (hclaim : front.Claimed routeId claim) (hfound : front.Found routeId request)
      (haction : request.action ∈ actions) (ans : Except LibrarianError CompleteOutcome) :
      Ending (front.withCompletion claim ans)
        (ans.map (completion routeId claim outcome))
  | unknown {front : Talk} {routeId : String} {claim : WorkClaim} {request : RoutedRequest}
      (hno : ∀ x ∈ front, x.1.stage < 4) (hclaim : front.Claimed routeId claim)
      (hfound : front.Found routeId request) (haction : request.action ∉ actions)
      (ans : Except LibrarianError CompleteOutcome) :
      Ending (front.withCompletion claim ans)
        (ans.map fun _ => .unknownAction routeId request.action)

theorem DispatchRuns.ending {action scope : String} {id : Uuid}
    {dispatched : Except LibrarianError DispatchOutcome}
    (h : DispatchRuns action id scope talk dispatched) :
    (∀ x ∈ talk, x.1.stage < 4) ∧ (∀ outcome, dispatched = .ok outcome → action ∈ actions) ∧
      ∀ a, dispatched = .error (.unknownAction a) → a = action ∧ action ∉ actions := by
  cases h with
  | put ha ans =>
    refine ⟨by simp [PortOp.stage], fun _ _ => by simp [ha, actions], ?_⟩
    cases ans <;> rintro _ ⟨⟩
  | malformed ha hs =>
    refine ⟨by simp, ?_, ?_⟩
    · rintro _ ⟨⟩
    · rintro a ⟨⟩
      rcases parseGetScope_error hs with ⟨reason, hreason⟩
      cases hreason
  | get ha hs ans =>
    refine ⟨by simp [PortOp.stage], fun _ _ => by simp [ha, actions], ?_⟩
    cases ans <;> rintro _ ⟨⟩
  | search ha ans =>
    refine ⟨by simp [PortOp.stage], fun _ _ => by simp [ha, actions], ?_⟩
    cases ans <;> rintro _ ⟨⟩
  | unknown ha =>
    refine ⟨by simp, ?_, ?_⟩
    · rintro _ ⟨⟩
    · rintro a ⟨⟩
      exact ⟨rfl, ha⟩

/-- Every conversation of a pass ends in one of these ways. -/
theorem PassRuns.ending (h : PassRuns leaseSeconds talk res) : Ending talk res := by
  have hearly {ls : ℤ} {route : EligibleRoute} {routes : List EligibleRoute} {claim : WorkClaim}
      {request : RoutedRequest} {talk : Talk} (hno : ∀ x ∈ talk, x.1.stage < 4) (x)
      (hx : x ∈ (⟨.kernel .eligibleRoutes, .ok (route :: routes)⟩ ::
        ⟨.kernel (.proposeClaim route.routeId ls), .ok (.claimed claim)⟩ ::
        ⟨.kernel (.routedRequest route.routeId), .ok (.found request)⟩ :: talk : Talk)) :
      x.1.stage < 4 := by
    simp only [List.mem_cons] at hx
    rcases hx with rfl | rfl | rfl | hx
    · simp [PortOp.stage]
    · simp [PortOp.stage]
    · simp [PortOp.stage]
    · exact hno x hx
  cases h with
  | claimed hrequest =>
    cases hrequest with
    | found hperform =>
      cases hperform with
      | malformed => exact .silent (hearly (by simp)) (by simp) (by simp)
      | failed _ hd => exact .silent (hearly hd.ending.1) (by simp) (by simp)
      | @unknown id rest action _ hd ans =>
        rcases hd.ending with ⟨hno, -, hunknown⟩
        rcases hunknown _ rfl with ⟨rfl, haction⟩
        exact .unknown (hearly hno) ⟨leaseSeconds, by simp⟩ (by simp [Talk.Found]) haction ans
      | performed _ hd ans =>
        rcases hd.ending with ⟨hno, hok, -⟩
        exact .performed (hearly hno) ⟨leaseSeconds, by simp⟩ (by simp [Talk.Found]) (hok _ rfl) ans
    | _ => exact .silent (by simp [PortOp.stage]) (by simp) (by simp)
  | _ => exact .silent (by simp [PortOp.stage]) (by simp) (by simp)

section Completion
variable {outcome : DispatchOutcome} {ans : Except LibrarianError CompleteOutcome}

omit [UuidText] in
theorem completed_of_completion {r : String} {o : DispatchOutcome}
    (h : ans.map (completion routeId claim outcome) = .ok (.completed r o)) :
    ∃ done, ans = .ok (.completed done) ∧ r = routeId := by
  cases ans with
  | error e => cases h
  | ok answered =>
    cases answered with
    | completed done =>
      cases h
      exact ⟨done, rfl, rfl⟩
    | fenced => cases h
    | notFound => cases h

omit [UuidText] in
theorem completion_ne_unknownAction (r action : String) :
    ans.map (completion routeId claim outcome) ≠ .ok (.unknownAction r action) := by
  intro h
  cases ans with
  | error e => cases h
  | ok answered => cases answered <;> cases h

omit [UuidText] in
theorem lost_completion {answered : CompleteOutcome} (h : answered.isLost = true) :
    (Except.ok answered : Except LibrarianError _).map (completion routeId claim outcome) =
      .ok (.lostBeforeCompletion routeId claim.claimId) := by
  cases answered with
  | completed done => cases h
  | fenced => rfl
  | notFound => rfl

end Completion

section Last
variable {front : Talk} {ans : Except LibrarianError CompleteOutcome}

omit [UuidText] in
/-- The completion at the end is the only one. -/
theorem completion_last {claimId : String} {fencingToken : ℤ}
    {ans' : Except LibrarianError CompleteOutcome} (hno : ∀ x ∈ front, x.1.stage < 4)
    (h : ⟨.kernel (.completeClaim claimId fencingToken), ans'⟩ ∈ front.withCompletion claim ans) :
    claimId = claim.claimId ∧ fencingToken = claim.fencingToken ∧ ans' = ans := by
  rcases List.mem_append.mp h with hearly | hlast
  · exact absurd (hno _ hearly) (Nat.lt_irrefl 4)
  · cases List.mem_singleton.mp hlast
    exact ⟨rfl, rfl, rfl⟩

end Last

/-- A pass reports the fate of its claim truthfully exactly when the kernel finds no claim lost
whose request asks for an unknown action. -/
theorem truthful_iff (h : Runs (workOnce leaseSeconds).run talk res) :
    Truthful talk res ↔
      (talk.LostClaim → ∀ routeId request, talk.Found routeId request → request.action ∈ actions) := by
  have hordered := (workOnce_disciplined h).ordered
  cases (runs_workOnce h).ending with
  | silent hno hcompleted hunknown =>
    have hnone {claimId : String} {fencingToken : ℤ} {ans : Except LibrarianError CompleteOutcome}
        (hmem : ⟨.kernel (.completeClaim claimId fencingToken), ans⟩ ∈ talk) : False := by
      have hlt := hno _ hmem
      exact absurd hlt (Nat.lt_irrefl 4)
    refine iff_of_true ⟨fun _ _ hres => ?_, fun _ _ hres => ?_, fun _ _ _ hmem => ?_⟩ ?_
    · exact absurd hres (hcompleted _ _)
    · exact absurd hres (hunknown _ _)
    · exact (hnone hmem).elim
    · rintro ⟨_, _, _, hmem, -⟩
      exact (hnone hmem).elim
  | @performed front routeId claim request outcome hno hclaim hfound haction ans =>
    refine iff_of_true ⟨fun _ _ hres => ?_, fun _ _ hres => ?_, fun _ _ answered hmem hlost => ?_⟩ ?_
    · rcases completed_of_completion hres with ⟨done, rfl, rfl⟩
      exact ⟨claim, done, hclaim.withCompletion, Talk.completes_withCompletion _ _ _⟩
    · exact absurd hres (completion_ne_unknownAction _ _)
    · rcases completion_last hno hmem with ⟨rfl, rfl, rfl⟩
      exact ⟨routeId, claim, hclaim.withCompletion, rfl, rfl, lost_completion hlost⟩
    · intro _ r found hr
      have hlast : Talk.Found (front.withCompletion claim ans) routeId request :=
        List.mem_append_left _ hfound
      cases eq_of_stage hordered hr hlast rfl
      exact haction
  | @unknown front routeId claim request hno hclaim hfound haction ans =>
    have hlast : Talk.Found (front.withCompletion claim ans) routeId request :=
      List.mem_append_left _ hfound
    constructor
    · rintro htruthful ⟨claimId, fencingToken, answered, hmem, hlost⟩
      rcases htruthful.lost _ _ _ hmem hlost with ⟨_, _, -, -, -, hres⟩
      rcases completion_last hno hmem with ⟨-, -, rfl⟩
      cases hres
    · intro hcond
      have hnot (answered : CompleteOutcome) (hans : ans = .ok answered) : answered.isLost = false := by
        by_contra hlost
        rw [Bool.not_eq_false] at hlost
        have hmem := Talk.completes_withCompletion front claim ans
        rw [hans] at hmem hlast hcond
        exact haction (hcond ⟨_, _, answered, hmem, hlost⟩ routeId request hlast)
      refine ⟨fun _ _ hres => ?_, fun _ _ hres => ?_, fun _ _ answered hmem hlost => ?_⟩
      · cases ans <;> cases hres
      · cases ans with
        | error e => cases hres
        | ok answered =>
          cases hres
          cases answered with
          | completed done =>
            exact ⟨claim, done, hclaim.withCompletion, Talk.completes_withCompletion _ _ _⟩
          | fenced => cases hnot _ rfl
          | notFound => cases hnot _ rfl
      · rcases completion_last hno hmem with ⟨-, -, rfl⟩
        rw [hnot answered rfl] at hlost
        cases hlost

end Runs

section Sample

theorem truthful_fenced :
    Truthful (performedTalk (.ok .fenced)) (.ok (.lostBeforeCompletion "route" "claim-0")) := by
  have hruns : Runs (@workOnce sampleUuidText 300).run (performedTalk (.ok .fenced))
      (.ok (.lostBeforeCompletion "route" "claim-0")) :=
    .call _ (.call _ (.call _ (.call _ (.call _ (.ret _)))))
  apply (@truthful_iff sampleUuidText _ _ _ hruns).mpr
  intro _ routeId request hfound
  rw [found_performedTalk hfound]
  decide

def unknownRequest : RoutedRequest := { sampleRequest with action := "librarian.document.erase" }

/-- The claim of an unknown action is found fenced. -/
def fencedUnknownTalk : Talk :=
  [⟨.kernel .eligibleRoutes, .ok [sampleRoute]⟩,
    ⟨.kernel (.proposeClaim "route" 300), .ok (.claimed (sampleClaim 0))⟩,
    ⟨.kernel (.routedRequest "route"), .ok (.found unknownRequest)⟩,
    ⟨.kernel (.completeClaim "claim-0" 1), .ok .fenced⟩]

theorem not_truthful_fencedUnknown :
    Runs (@workOnce sampleUuidText 300).run fencedUnknownTalk
        (.ok (.unknownAction "route" "librarian.document.erase")) ∧
      ¬ Truthful fencedUnknownTalk (.ok (.unknownAction "route" "librarian.document.erase")) := by
  refine ⟨.call _ (.call _ (.call _ (.call _ (.ret _)))), fun h => ?_⟩
  rcases h.lost "claim-0" 1 .fenced (by simp [fencedUnknownTalk]) rfl with ⟨_, _, -, -, -, hres⟩
  cases hres

end Sample
end Librarian
