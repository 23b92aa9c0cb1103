import Librarian.Pass.Fate
import Librarian.Service.Closed
import Librarian.Service.Recovery

/-! # Requests that can never succeed

A request that the dispatcher rejects by itself is rejected at every retry, and some requests that
the repository refuses are refused whatever it stores. The claim of such a request should be
completed in the same pass, since nothing else ends the route; the pass does so for unknown actions
only.
-/
namespace Librarian.Service
open Foundation Postgres Program

/-- A call of the repository was answered with an error. -/
def RepositoryFailed (talk : Talk) : Prop :=
  ∃ (call : RepositoryCall) (ans : call.Ans), ⟨.repository call, ans⟩ ∈ talk ∧
    call.succeeded ans = false

section Peers
variable [UuidText]

/-- The dispatcher rejects the request before any call to the repository. -/
def Rejected (request : RoutedRequest) : Prop :=
  ∃ id e, requestUuid request = .ok id ∧
    Runs (dispatch request.action id request.scope).run [] (.error e)

/-- A get whose scope the parser rejects. -/
def MalformedGet (request : RoutedRequest) : Prop :=
  (∃ id, requestUuid request = .ok id) ∧ request.action = getAction ∧
    ∃ e, parseGetScope request.scope = .error e

/-- The kernel failed in this pass: it answered with an error, no longer has the request, or
delivered it without a well-formed id. -/
def KernelFailed (talk : Talk) : Prop :=
  (∃ (call : KernelCall) (e : LibrarianError), ⟨.kernel call, .error e⟩ ∈ talk) ∨
    (∃ routeId, ⟨.kernel (.routedRequest routeId), .ok .notFound⟩ ∈ talk) ∨
      ∃ routeId request e, talk.Found routeId request ∧ requestUuid request = .error e

/-- A retry performs the request, with the right documents in the store. -/
def Retryable [TextSearch] (request : RoutedRequest) : Prop :=
  ∃ L : Library, L.Sound ∧ Performable L request

/-- The pass leaves no poison route behind: a rejected request has its claim completed, which
ends the route for good once the kernel accepts it, and a claim without an answered completion is
one the kernel failed on, or one whose repository call failed where a retry may not. -/
structure Unpoisoned [Sha256] [TextSearch] (talk : Talk) : Prop where
  completes : ∀ routeId request, talk.Found routeId request → Rejected request →
    ∃ claim ans, talk.Claimed routeId claim ∧ talk.Completes claim ans ∧ Closes claim
  leftOpen : ∀ routeId claim, talk.Claimed routeId claim →
    (∀ outcome, ¬ talk.Completes claim (.ok outcome)) →
      KernelFailed talk ∨ RepositoryFailed talk ∧ ∃ request, talk.Found routeId request ∧
        Retryable request

/-- What a request has to be for the repository ever to perform it. -/
structure Attainable [TextSearch] (request : RoutedRequest) : Prop where
  put : request.action = putAction →
    isBlank request.scope = false ∧ (requestedDocument request.scope).isStorable = true
  get : request.action = getAction → ∀ d v, parseGetScope request.scope = .ok (d, some v) → 1 ≤ v
  search : request.action = searchAction → isQuery request.scope = true

section Requests
variable {request : RoutedRequest}

/-- A dispatch without a call rejects a malformed get or an unknown action. -/
theorem silent_dispatch {action scope : String} {id : Uuid} {talk : Talk}
    {res : Except LibrarianError DispatchOutcome} (h : DispatchRuns action id scope talk res)
    (htalk : talk = []) :
    (action = getAction ∧ ∃ e, parseGetScope scope = .error e) ∨
      action ∉ actions ∧ res = .error (.unknownAction action) := by
  cases h with
  | put => cases htalk
  | get => cases htalk
  | search => cases htalk
  | malformed ha hs => exact .inl ⟨ha, _, hs⟩
  | unknown ha => exact .inr ⟨ha, rfl⟩

/-- What is rejected: an unknown action, or a get with a malformed scope. -/
theorem rejected_iff : Rejected request ↔ (∃ id, requestUuid request = .ok id) ∧
    (request.action ∉ actions ∨
      request.action = getAction ∧ ∃ e, parseGetScope request.scope = .error e) := by
  constructor
  · rintro ⟨id, e, hid, hruns⟩
    refine ⟨⟨id, hid⟩, ?_⟩
    rcases silent_dispatch (runs_dispatch hruns) rfl with hget | hunknown
    · exact .inr hget
    · exact .inl hunknown.1
  · rintro ⟨⟨id, hid⟩, hunknown | ⟨ha, e, hs⟩⟩
    · refine ⟨id, .unknownAction request.action, hid, ?_⟩
      have hdispatch : dispatch request.action id request.scope =
          throw (.unknownAction request.action) := by
        simp only [actions, List.mem_cons, List.not_mem_nil, or_false, not_or] at hunknown
        rw [dispatch, if_neg hunknown.1, if_neg hunknown.2.1, if_neg hunknown.2.2]
      rw [hdispatch]
      exact .ret _
    · refine ⟨id, e, hid, ?_⟩
      rw [dispatch, if_neg (by rw [ha]; decide), if_pos ha, hs]
      exact .ret _

theorem MalformedGet.rejected (h : MalformedGet request) : Rejected request :=
  rejected_iff.mpr ⟨h.1, .inr h.2⟩

/-- A request that asks for a repository call is not rejected. -/
theorem serves_not_rejected {call : RepositoryCall} (hs : Serves request call) :
    ¬ Rejected request := by
  rw [rejected_iff]
  cases hs with
  | put ha => simp [ha, actions, getAction, putAction]
  | get ha hparse => simp [ha, actions, hparse]
  | search ha => simp [ha, actions, getAction, searchAction]

theorem parse_of_requestUuid {id : Uuid} (h : requestUuid request = .ok id) :
    UuidText.parse request.requestId = some id := by
  unfold requestUuid at h
  cases hp : UuidText.parse request.requestId with
  | none =>
    rw [hp] at h
    cases h
  | some found =>
    rw [hp] at h
    cases h
    rfl

/-- A library whose documents all have `n` versions. -/
def uniform (n : ℕ) : Library where
  documents d := (List.range n).map fun (k : ℕ) =>
    ⟨d, k + 1, "", "", none, none, .replicate 32 0, 0⟩
  recorded _ := none

omit [UuidText] in
theorem sound_uniform (n : ℕ) : (uniform n).Sound where
  numbered := by
    intro d k e hk
    rcases List.getElem?_eq_some_iff.mp hk with ⟨hlt, rfl⟩
    simp [uniform]
  recorded := by
    intro r d v hr
    cases hr

omit [UuidText] in
/-- Every version from 1 on, and a latest one, can be read somewhere. -/
theorem exists_get (d : Uuid) {v : Option ℤ} (h : ∀ n, v = some n → 1 ≤ n) :
    ∃ L : Library, L.Sound ∧ ∃ e, L.get d v = .ok e := by
  cases v with
  | none =>
    rcases (sound_uniform 1).get_latest (n := 1) (d := d)
      (Library.find_eq_some.mpr ⟨0, rfl, rfl⟩) with ⟨e, he, -⟩
    exact ⟨uniform 1, sound_uniform 1, e, he⟩
  | some n =>
    have hn := h n rfl
    have hlt : (n - 1).toNat < ((uniform n.toNat).documents d).length := by
      simp only [uniform, List.length_map, List.length_range]
      omega
    exact ⟨uniform n.toNat, sound_uniform _, _,
      Library.get_of_find (Library.find_eq_some.mpr ⟨(n - 1).toNat, by omega, List.getElem?_eq_getElem hlt⟩)⟩

variable [TextSearch]

/-- A retry performs exactly the attainable requests. -/
theorem retryable_iff {id : Uuid} {call : RepositoryCall} (hid : requestUuid request = .ok id)
    (hs : Serves request call) : Retryable request ↔ Attainable request := by
  have hp := parse_of_requestUuid hid
  constructor
  · rintro ⟨L, hL, hperform⟩
    cases hperform with
    | unknown _ hunknown => cases hs <;> simp_all [actions]
    | put _ ha hcontent hstorable =>
      exact ⟨fun _ => ⟨hcontent, hstorable⟩, by simp [ha, putAction, getAction],
        by simp [ha, putAction, searchAction]⟩
    | get _ ha hparse hd =>
      refine ⟨by simp [ha, putAction, getAction], fun _ d v hv => ?_,
        by simp [ha, getAction, searchAction]⟩
      rw [hparse] at hv
      cases hv
      rcases hd with ⟨e, he⟩
      rcases hL.find_of_get he with ⟨-, hfind, hversion⟩
      rcases Library.find_eq_some.mp hfind with ⟨k, hk, -⟩
      have := hversion v rfl
      omega
    | search _ ha hquery =>
      exact ⟨by simp [ha, putAction, searchAction], by simp [ha, getAction, searchAction],
        fun _ => hquery⟩
  · rintro ⟨hput, hget, hsearch⟩
    cases hs with
    | put ha =>
      rcases hput ha with ⟨hcontent, hstorable⟩
      exact ⟨.empty, Library.sound_empty, .put hp ha hcontent hstorable⟩
    | @get d v ha hparse =>
      rcases exists_get d (v := v) (fun n hn => hget ha d n (hn ▸ hparse)) with ⟨L, hL, hd⟩
      exact ⟨L, hL, .get hp ha hparse hd⟩
    | search ha => exact ⟨.empty, Library.sound_empty, .search hp ha (hsearch ha)⟩

end Requests

section Passes
variable {leaseSeconds : ℤ} {talk : Talk} {routeId : String} {claim : WorkClaim}
  {request : RoutedRequest} {res : Except LibrarianError WorkOutcome}

/-- What becomes of a delivered request and its claim. -/
inductive Resolution (claim : WorkClaim) (request : RoutedRequest) (talk : Talk) : Prop
  | completed {ans : Except LibrarianError CompleteOutcome} (h : talk.Completes claim ans)
      (hget : ¬ MalformedGet request) (hok : ¬ RepositoryFailed talk) : Resolution claim request talk
  | malformedId {e : LibrarianError} (h : requestUuid request = .error e) (htalk : talk = []) :
      Resolution claim request talk
  | failed {id : Uuid} {call : RepositoryCall} {ans : call.Ans} (hid : requestUuid request = .ok id)
      (hs : Serves request call) (hans : call.succeeded ans = false)
      (htalk : talk = [⟨.repository call, ans⟩]) : Resolution claim request talk
  | poisoned (h : MalformedGet request) (htalk : talk = []) : Resolution claim request talk

omit [UuidText] in
theorem repositoryFailed_append {front rest : Talk} : RepositoryFailed (front ++ rest) ↔
    RepositoryFailed front ∨ RepositoryFailed rest := by
  simp [RepositoryFailed, or_and_right, exists_or]

omit [UuidText] in
theorem not_repositoryFailed_kernel (call : KernelCall) (ans : (PortOp.kernel call).Ans) :
    ¬ RepositoryFailed [⟨.kernel call, ans⟩] := by
  rintro ⟨_, _, hmem, -⟩
  cases List.mem_singleton.mp hmem

theorem performRuns_resolution (h : PerformRuns routeId claim request talk res) :
    Resolution claim request talk := by
  cases h with
  | malformed he => exact .malformedId he rfl
  | failed hid hd hne =>
    rcases hd.serves hid with ⟨rfl, -⟩ | ⟨call, ans, rfl, hs, hok, -⟩
    · rcases silent_dispatch hd rfl with hget | ⟨-, hunknown⟩
      · exact .poisoned ⟨⟨_, hid⟩, hget⟩ rfl
      · exact absurd (Except.error.inj hunknown) (hne _)
    · exact .failed hid hs hok rfl
  | @unknown id front action hid hd ans =>
    rcases hd.ending.2.2 _ rfl with ⟨-, hunknown⟩
    refine .completed (Talk.completes_withCompletion front claim ans) (fun hget => hunknown ?_) ?_
    · simp [hget.2.1, actions]
    · rcases hd.serves hid with ⟨rfl, -⟩ | ⟨_, _, -, -, -, hne⟩
      · exact not_repositoryFailed_kernel (.completeClaim claim.claimId claim.fencingToken) ans
      · exact absurd rfl (hne action)
  | @performed id front outcome hid hd ans =>
    have hcompletes := Talk.completes_withCompletion front claim ans
    rcases hd.serves hid with ⟨-, e, he⟩ | ⟨call, answered, rfl, hs, hok, -⟩
    · cases he
    · refine .completed hcompletes (fun hget => serves_not_rejected hs hget.rejected) ?_
      rw [repositoryFailed_append]
      rintro (⟨other, ans', hmem, hfailed⟩ | hfailed)
      · cases List.mem_singleton.mp hmem
        cases hok.symm.trans hfailed
      · exact not_repositoryFailed_kernel (.completeClaim claim.claimId claim.fencingToken) ans hfailed

/-- The talk of a pass that was granted a claim and delivered its request. -/
def delivery (leaseSeconds : ℤ) (route : EligibleRoute) (routes : List EligibleRoute)
    (claim : WorkClaim) (request : RoutedRequest) : Talk :=
  [⟨.kernel .eligibleRoutes, .ok (route :: routes)⟩,
    ⟨.kernel (.proposeClaim route.routeId leaseSeconds), .ok (.claimed claim)⟩,
    ⟨.kernel (.routedRequest route.routeId), .ok (.found request)⟩]

omit [UuidText] in
theorem not_found_of_stage (h : ∀ x ∈ talk, x.1.stage < 2) (routeId : String)
    (request : RoutedRequest) : ¬ talk.Found routeId request := by
  intro hfound
  exact absurd (h _ hfound) (Nat.lt_irrefl 2)

/-- A pass either gets no request delivered, and holds a claim then only because the kernel
failed, or performs the one request it got. -/
theorem passRuns_delivery (h : PassRuns leaseSeconds talk res) :
    ((∀ routeId request, ¬ talk.Found routeId request) ∧
      ∀ routeId claim, talk.Claimed routeId claim → KernelFailed talk) ∨
    ∃ route routes claim request rest,
      talk = delivery leaseSeconds route routes claim request ++ rest ∧
        PerformRuns route.routeId claim request rest res := by
  cases h with
  | @claimed route _ _ _ _ hrequest =>
    cases hrequest with
    | @noAnswer e =>
      refine .inl ⟨fun r q hfound => ?_, fun _ _ _ => .inl ⟨.routedRequest route.routeId, e, by simp⟩⟩
      simp only [Talk.Found, List.mem_cons, List.not_mem_nil, or_false] at hfound
      rcases hfound with hmem | hmem | hmem <;> cases hmem
    | unavailable =>
      refine .inl ⟨fun r q hfound => ?_, fun _ _ _ => .inr (.inl ⟨route.routeId, by simp⟩)⟩
      simp only [Talk.Found, List.mem_cons, List.not_mem_nil, or_false] at hfound
      rcases hfound with hmem | hmem | hmem <;> cases hmem
    | found hperform => exact .inr ⟨_, _, _, _, _, rfl, hperform⟩
  | @noClaim route routes e =>
    refine .inl ⟨not_found_of_stage (by simp [PortOp.stage]), fun _ _ _ => ?_⟩
    exact .inl ⟨.proposeClaim route.routeId leaseSeconds, e, by simp⟩
  | claimLost hlost =>
    refine .inl ⟨not_found_of_stage (by simp [PortOp.stage]), fun r c hclaim => ?_⟩
    rcases hclaim with ⟨_, hmem⟩
    simp only [List.mem_cons, List.not_mem_nil, or_false] at hmem
    rcases hmem with hmem | hmem <;> cases hmem
    rcases hlost with hlost | hlost <;> cases hlost
  | noAnswer | nothingEligible =>
    refine .inl ⟨not_found_of_stage (by simp [PortOp.stage]), fun r c hclaim => ?_⟩
    rcases hclaim with ⟨_, hmem⟩
    cases List.mem_singleton.mp hmem

/-- The pass was granted `claim`, got `request` delivered, and went on with `rest`. -/
structure Delivers (leaseSeconds : ℤ) (route : EligibleRoute) (claim : WorkClaim)
    (request : RoutedRequest) (rest talk : Talk) : Prop where
  split : ∃ routes, talk = delivery leaseSeconds route routes claim request ++ rest
  ordered : talk.Pairwise fun x y => x.1.stage < y.1.stage

section Delivered
variable {route : EligibleRoute} {rest : Talk}
  (hd : Delivers leaseSeconds route claim request rest talk)
include hd

omit [UuidText] in
theorem Delivers.mem_iff {x : (op : PortOp) × op.Ans} (hstage : 3 ≤ x.1.stage) :
    x ∈ talk ↔ x ∈ rest := by
  rcases hd.split with ⟨routes, rfl⟩
  have hearly : ∀ x ∈ delivery leaseSeconds route routes claim request, x.1.stage < 3 := by
    simp [delivery, PortOp.stage]
  rw [List.mem_append]
  exact or_iff_right fun hmem => absurd (hearly x hmem) (Nat.not_lt.mpr hstage)

omit [UuidText] in
theorem Delivers.repositoryFailed_iff : RepositoryFailed talk ↔ RepositoryFailed rest := by
  refine exists_congr fun call => exists_congr fun ans => and_congr_left' ?_
  exact hd.mem_iff (Nat.le_refl 3)

omit [UuidText] in
theorem Delivers.completes_iff {ans : Except LibrarianError CompleteOutcome} :
    talk.Completes claim ans ↔ rest.Completes claim ans := hd.mem_iff (by decide : 3 ≤ 4)

omit [UuidText] in
theorem Delivers.found_iff {q : RoutedRequest} :
    talk.Found routeId q ↔ routeId = route.routeId ∧ q = request := by
  have hown : talk.Found route.routeId request := by
    rcases hd.split with ⟨routes, rfl⟩
    simp [Talk.Found, delivery]
  constructor
  · intro hfound
    cases eq_of_stage hd.ordered hfound hown rfl
    exact ⟨rfl, rfl⟩
  · rintro ⟨rfl, rfl⟩
    exact hown

omit [UuidText] in
theorem Delivers.claimed_iff {c : WorkClaim} :
    talk.Claimed routeId c ↔ routeId = route.routeId ∧ c = claim := by
  have hown : ⟨.kernel (.proposeClaim route.routeId leaseSeconds), .ok (.claimed claim)⟩ ∈ talk := by
    rcases hd.split with ⟨routes, rfl⟩
    simp [delivery]
  constructor
  · rintro ⟨_, hclaim⟩
    cases eq_of_stage hd.ordered hclaim hown rfl
    exact ⟨rfl, rfl⟩
  · rintro ⟨rfl, rfl⟩
    exact ⟨leaseSeconds, hown⟩

/-- What a pass has to do for the one request and the one claim it has. -/
theorem Delivers.leaves_iff [Sha256] [TextSearch] : Unpoisoned talk ↔
    (Rejected request → ∃ ans, rest.Completes claim ans) ∧
      ((∀ outcome, ¬ rest.Completes claim (.ok outcome)) →
        KernelFailed talk ∨ RepositoryFailed rest ∧ Retryable request) := by
  constructor
  · intro hun
    constructor
    · intro hrejected
      rcases hun.completes _ request (hd.found_iff.mpr ⟨rfl, rfl⟩) hrejected with
        ⟨c, ans, hclaim, hcompletes, -⟩
      rw [(hd.claimed_iff.mp hclaim).2] at hcompletes
      exact ⟨ans, hd.completes_iff.mp hcompletes⟩
    · intro hopen
      have hleft := hun.leftOpen _ claim (hd.claimed_iff.mpr ⟨rfl, rfl⟩)
        fun outcome hcompletes => hopen outcome (hd.completes_iff.mp hcompletes)
      refine hleft.imp_right ?_
      rintro ⟨hfailed, found, hfound, hretry⟩
      exact ⟨hd.repositoryFailed_iff.mp hfailed, (hd.found_iff.mp hfound).2 ▸ hretry⟩
  · rintro ⟨hcompletes, hleft⟩
    constructor
    · intro r q hfound hrejected
      rcases hd.found_iff.mp hfound with ⟨rfl, rfl⟩
      rcases hcompletes hrejected with ⟨ans, hans⟩
      exact ⟨claim, ans, hd.claimed_iff.mpr ⟨rfl, rfl⟩, hd.completes_iff.mpr hans, closes claim⟩
    · intro r c hclaim hopen
      rcases hd.claimed_iff.mp hclaim with ⟨rfl, rfl⟩
      have hrest := hleft fun outcome hans => hopen outcome (hd.completes_iff.mpr hans)
      refine hrest.imp_right ?_
      rintro ⟨hfailed, hretry⟩
      exact ⟨hd.repositoryFailed_iff.mpr hfailed, request, hd.found_iff.mpr ⟨rfl, rfl⟩, hretry⟩

theorem Delivers.asks_iff [TextSearch] : (∀ routeId request, talk.Found routeId request →
      ¬ MalformedGet request ∧ (RepositoryFailed talk → Attainable request)) ↔
    ¬ MalformedGet request ∧ (RepositoryFailed rest → Attainable request) := by
  rw [← hd.repositoryFailed_iff]
  constructor
  · intro h
    exact h _ request (hd.found_iff.mpr ⟨rfl, rfl⟩)
  · intro h r q hfound
    rcases hd.found_iff.mp hfound with ⟨rfl, rfl⟩
    exact h

/-- A kernel that delivered a request with a well-formed id did not fail, if all that came after
was a repository call. -/
theorem Delivers.not_kernelFailed {id : Uuid} (hid : requestUuid request = .ok id)
    (hrest : ∀ x ∈ rest, x.1.stage = 3) : ¬ KernelFailed talk := by
  rcases hd.split with ⟨routes, rfl⟩
  have hkernel (call : KernelCall) (ans : (PortOp.kernel call).Ans)
      (h : ⟨.kernel call, ans⟩ ∈ delivery leaseSeconds route routes claim request ++ rest) :
      (⟨.kernel call, ans⟩ : (op : PortOp) × op.Ans) ∈
        delivery leaseSeconds route routes claim request := by
    rcases List.mem_append.mp h with hfront | hlast
    · exact hfront
    · cases call <;> cases hrest _ hlast
  rintro (⟨call, e, hmem⟩ | ⟨r, hmem⟩ | ⟨r, q, e, hmem, he⟩)
  · have hfront := hkernel call _ hmem
    simp only [delivery, List.mem_cons, List.not_mem_nil, or_false] at hfront
    rcases hfront with heq | heq | heq <;> cases heq
  · have hfront := hkernel _ _ hmem
    simp only [delivery, List.mem_cons, List.not_mem_nil, or_false] at hfront
    rcases hfront with heq | heq | heq <;> cases heq
  · have hfront := hkernel _ _ hmem
    simp only [delivery, List.mem_cons, List.not_mem_nil, or_false] at hfront
    rcases hfront with heq | heq | heq <;> cases heq
    cases hid.symm.trans he

end Delivered

omit [UuidText] in
theorem not_repositoryFailed_nil : ¬ RepositoryFailed [] := by
  rintro ⟨_, _, hmem, -⟩
  cases hmem

/-- A pass leaves no poison route behind exactly when the request it gets is not a get with a
malformed scope, and is attainable if its repository call fails. -/
theorem unpoisoned_iff [Sha256] [TextSearch] (h : Runs (workOnce leaseSeconds).run talk res) :
    Unpoisoned talk ↔ ∀ routeId request, talk.Found routeId request →
      ¬ MalformedGet request ∧ (RepositoryFailed talk → Attainable request) := by
  rcases passRuns_delivery (runs_workOnce h) with ⟨hnone, hfailed⟩ |
    ⟨route, routes, claim, request, rest, hsplit, hperform⟩
  · refine iff_of_true ⟨fun r q hq => ?_, fun r c hc _ => .inl (hfailed r c hc)⟩ fun r q hq => ?_
    · exact absurd hq (hnone r q)
    · exact absurd hq (hnone r q)
  · have hd : Delivers leaseSeconds route claim request rest talk :=
      ⟨⟨routes, hsplit⟩, (workOnce_disciplined h).ordered⟩
    rw [hd.leaves_iff, hd.asks_iff]
    cases performRuns_resolution hperform with
    | @completed ans hcompletes hget hok =>
      refine iff_of_true ⟨fun _ => ⟨ans, hcompletes⟩, fun hopen => ?_⟩ ⟨hget, fun hbad => absurd hbad hok⟩
      cases ans with
      | error e => exact .inl (.inl ⟨_, e, hd.completes_iff.mpr hcompletes⟩)
      | ok outcome => exact absurd hcompletes (hopen outcome)
    | @malformedId e he htalk =>
      subst htalk
      have hbad : ¬ ∃ id, requestUuid request = .ok id := by
        rintro ⟨id, hid⟩
        cases hid.symm.trans he
      refine iff_of_true ⟨fun hrejected => ?_, fun _ => ?_⟩ ⟨fun hget => hbad hget.1, fun hfailed => ?_⟩
      · exact absurd (rejected_iff.mp hrejected).1 hbad
      · exact .inl (.inr (.inr ⟨_, request, e, hd.found_iff.mpr ⟨rfl, rfl⟩, he⟩))
      · exact absurd hfailed not_repositoryFailed_nil
    | @failed id call ans hid hs hans htalk =>
      subst htalk
      have hrejected := serves_not_rejected hs
      have hfailed : RepositoryFailed [⟨.repository call, ans⟩] :=
        ⟨call, ans, List.mem_singleton.mpr rfl, hans⟩
      have hkernel : ¬ KernelFailed talk := by
        apply hd.not_kernelFailed hid
        intro x hx
        rw [List.mem_singleton.mp hx]
        rfl
      rw [← retryable_iff hid hs]
      constructor
      · rintro ⟨-, hleft⟩
        refine ⟨fun hget => hrejected hget.rejected, fun _ => ?_⟩
        have hopen := hleft fun outcome hmem => by cases List.mem_singleton.mp hmem
        exact (hopen.resolve_left hkernel).2
      · rintro ⟨-, hretry⟩
        exact ⟨fun hbad => absurd hbad hrejected, fun _ => .inr ⟨hfailed, hretry hfailed⟩⟩
    | poisoned hget htalk =>
      subst htalk
      refine iff_of_false (fun hun => ?_) fun hall => hall.1 hget
      rcases hun.1 hget.rejected with ⟨ans, hcompletes⟩
      cases hcompletes

end Passes
end Peers

section Sample

/-- The repository fails to store a document that it could store at the next try. -/
def failedPutTalk : Talk :=
  [⟨.kernel .eligibleRoutes, .ok [sampleRoute]⟩,
    ⟨.kernel (.proposeClaim "route" 300), .ok (.claimed (sampleClaim 0))⟩,
    ⟨.kernel (.routedRequest "route"), .ok (.found sampleRequest)⟩,
    ⟨.repository (.put 1 (requestedDocument "alpha")),
      (.error .repository : Except DocumentError PutOutcome)⟩]

theorem unpoisoned_failedPutTalk :
    @Unpoisoned sampleUuidText Store.sampleSha256 Store.sampleSearch failedPutTalk := by
  have hruns : Runs (@workOnce sampleUuidText 300).run failedPutTalk
      (.error (.document .repository)) := .call _ (.call _ (.call _ (.call _ (.ret _))))
  apply (@unpoisoned_iff sampleUuidText _ _ _ Store.sampleSha256 Store.sampleSearch hruns).mpr
  intro routeId request hfound
  obtain rfl : request = sampleRequest := by
    simp only [Talk.Found, failedPutTalk, List.mem_cons, List.not_mem_nil, or_false] at hfound
    rcases hfound with hmem | hmem | hmem | hmem <;> cases hmem
    rfl
  constructor
  · rintro ⟨-, haction, -⟩
    exact absurd haction (by decide)
  · intro _
    exact @Attainable.mk sampleUuidText Store.sampleSearch _ (fun _ => by decide)
      (fun h => absurd h (by decide)) (fun h => absurd h (by decide))

/-- A get of the document "latest". -/
def malformedGetRequest : RoutedRequest :=
  { sampleRequest with action := getAction, scope := "latest" }

/-- A pass ends with the malformed scope and leaves its claim open. -/
def malformedGetTalk : Talk :=
  [⟨.kernel .eligibleRoutes, .ok [sampleRoute]⟩,
    ⟨.kernel (.proposeClaim "route" 300), .ok (.claimed (sampleClaim 0))⟩,
    ⟨.kernel (.routedRequest "route"), .ok (.found malformedGetRequest)⟩]

theorem not_unpoisoned_malformedGet :
    Runs (@workOnce sampleUuidText 300).run malformedGetTalk
        (.error (.malformedScope "document ID must be a UUID")) ∧
      ¬ @Unpoisoned sampleUuidText Store.sampleSha256 Store.sampleSearch malformedGetTalk := by
  refine ⟨.call _ (.call _ (.call _ (.ret _))), fun h => ?_⟩
  have hrejected : @Rejected sampleUuidText malformedGetRequest :=
    (@rejected_iff sampleUuidText _).mpr ⟨⟨1, rfl⟩, .inr ⟨rfl, _, rfl⟩⟩
  rcases @Unpoisoned.completes sampleUuidText Store.sampleSha256 Store.sampleSearch _ h "route"
    malformedGetRequest (by simp [Talk.Found, malformedGetTalk]) hrejected with
    ⟨claim, ans, -, hcompletes, -⟩
  simp only [Talk.Completes, malformedGetTalk, List.mem_cons, List.not_mem_nil, or_false] at hcompletes
  rcases hcompletes with hmem | hmem | hmem <;> cases hmem

end Sample
end Librarian.Service
