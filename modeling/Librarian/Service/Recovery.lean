import Librarian.Pass.Discipline
import Librarian.Service.ExactlyOnce
import Librarian.Store.Completion

/-! # Whatever has happened, a route can still be completed

Crashes, lapsed claims and lost answers leave no route behind for good: from every reachable
state, steps that nothing goes wrong with let a new instance claim the route, perform its
request and complete it.
-/
namespace Librarian.Service
open Foundation Postgres System

/-- The actions of a kernel, a store and instances with which nothing goes wrong. -/
def Action.regular : Action → Bool
  | .expire _ | .start _ _ | .ask _ _ _ | .invoke _ _ | .answer _ | .finish _ => true
  | .store a => a.regular
  | _ => false

/-- A request whose work can be done with the documents of `L`. -/
inductive Performable [TextSearch] [UuidText] (L : Library) (request : RoutedRequest) : Prop
  | unknown {id : Uuid} (hid : UuidText.parse request.requestId = some id)
      (h : request.action ∉ actions)
  | put {id : Uuid} (hid : UuidText.parse request.requestId = some id)
      (h : request.action = putAction) (hcontent : isBlank request.scope = false)
      (hstorable : (requestedDocument request.scope).isStorable = true)
  | get {id d : Uuid} {v : Option ℤ} (hid : UuidText.parse request.requestId = some id)
      (h : request.action = getAction) (hs : parseGetScope request.scope = .ok (d, v))
      (hd : ∃ e, L.get d v = .ok e)
  | search {id : Uuid} (hid : UuidText.parse request.requestId = some id)
      (h : request.action = searchAction) (hquery : isQuery request.scope = true)

/-- Steps of the kind above. -/
abbrev Recovers [Sha256] [TextSearch] [UuidText] (s s' : State) : Prop :=
  Leads step (·.regular = true) s s'

section Untouched

/-- The instances from `n` on have done nothing yet, and no claim has an id that long. -/
structure Untouched (s : State) (n : ℕ) : Prop where
  inst : ∀ i, n ≤ i → s.inst i = .idle
  client : ∀ i serial, n ≤ i → s.store.client ⟨i, serial⟩ = .idle
  claims : ∀ claimId : String, n ≤ claimId.length → s.kernel.claims claimId = none

variable {s : State} {m n i : ℕ}

theorem Untouched.mono (h : Untouched s m) (hmn : m ≤ n) : Untouched s n where
  inst i hi := h.inst i (Nat.le_trans hmn hi)
  client i serial hi := h.client i serial (Nat.le_trans hmn hi)
  claims claimId hl := h.claims claimId (Nat.le_trans hmn hl)

theorem Untouched.setInst (h : Untouched s n) {x : Instance} (hi : i < n) :
    Untouched (s.setInst i x) n where
  inst j hj := by
    rw [State.setInst_other s x (by omega)]
    exact h.inst j hj
  client := h.client
  claims := h.claims

theorem Untouched.exists_setInst (h : Untouched s n) (i : ℕ) (x : Instance) :
    ∃ m, Untouched (s.setInst i x) m :=
  ⟨max n (i + 1), (h.mono (Nat.le_max_left _ _)).setInst (by omega)⟩

/-- A kernel that grants nothing new takes no id. -/
theorem Untouched.sameClaims (h : Untouched s n) {k : Kernel} (hk : k.claims = s.kernel.claims) :
    Untouched { s with kernel := k } n where
  inst := h.inst
  client := h.client
  claims claimId hl := by
    rw [hk]
    exact h.claims claimId hl

theorem exists_untouched_respond {call : KernelCall} {response : Response call.Body} {k : Kernel}
    (h : Untouched s n) (hr : s.kernel.respond call response = some k) :
    ∃ m, Untouched { s with kernel := k } m := by
  cases Kernel.respond_cases hr with
  | refused => exact ⟨n, h⟩
  | @granted _ _ _ claim _ _ hg =>
    rcases Kernel.grant_cases hg with ⟨route, -, -, -, -, rfl⟩
    refine ⟨max n (claim.claimId.length + 1), ?_, ?_, ?_⟩
    · exact fun i hi => h.inst i (by omega)
    · exact fun i serial hi => h.client i serial (by omega)
    · intro claimId hl
      have hne : claimId ≠ claim.claimId := by
        rintro rfl
        omega
      exact (Function.update_of_ne hne _ _).trans (h.claims claimId (by omega))
  | found => exact ⟨n, h⟩
  | completed hc =>
    rcases Kernel.complete_cases hc with ⟨_, _, -, -, -, rfl⟩
    exact ⟨n, h.sameClaims rfl⟩

variable [Sha256] [TextSearch]

/-- Only an invocation wakes a client that is idle. -/
theorem idle_of_inner {x y : Store.State} {a : Store.Action} {c : Call} (ha : isInner a = true)
    (hs : Store.step x a = some y) (hc : x.client c = .idle) : y.client c = .idle := by
  have hm := Store.step_moves hs
  by_cases hactor : a.actor = some c
  · cases hm with
    | invoke => cases ha
    | perform hx hrun =>
      obtain rfl := Option.some.inj (hactor.symm.trans hx)
      cases hc.symm.trans hrun
    | finish _ hrun =>
      cases hactor
      cases hc.symm.trans hrun
    | crash => cases ha
    | settleCommit => cases hactor
    | settleAbort => cases hactor
    | tick => cases hactor
  · rw [hm.client_other hactor, hc]

theorem Untouched.invoked (h : Untouched s n) {serial : ℕ} {call : RepositoryCall}
    {store : Store.State} (hs : Store.step s.store (.invoke ⟨i, serial⟩ call) = some store) :
    Untouched { s with store := store } (max n (i + 1)) where
  inst j hj := h.inst j (by omega)
  client j serial' hj := by
    have hne : (⟨j, serial'⟩ : Call) ≠ ⟨i, serial⟩ := by
      rintro he
      cases he
      omega
    exact ((Store.step_moves hs).client_other (Store.actor_other rfl hne)).trans
      (h.client j serial' (by omega))
  claims claimId hl := h.claims claimId (by omega)

theorem Untouched.crashed (h : Untouched s n) {c : Call} {store : Store.State}
    (hs : Store.step s.store (.crash c) = some store) : Untouched { s with store := store } n where
  inst := h.inst
  client j serial hj := by
    have hne : (Store.Action.crash c).actor ≠ some ⟨j, serial⟩ := by
      intro he
      cases he
      simp [Store.step, h.client j serial hj] at hs
    exact ((Store.step_moves hs).client_other hne).trans (h.client j serial hj)
  claims := h.claims

variable [UuidText]

theorem exists_untouched {t : List (State × Action)} (h : system.Trace t s) :
    ∃ n, Untouched s n := by
  induction h with
  | start hinit =>
    rcases hinit with ⟨clock, rfl⟩
    exact ⟨0, fun _ _ => rfl, fun _ _ _ => rfl, fun _ _ => rfl⟩
  | @step t y y' a ht hs ih =>
    rcases ih with ⟨n, hn⟩
    cases step_moves hs with
    | accept hk =>
      rcases Kernel.accept_cases hk with ⟨-, rfl⟩
      exact ⟨n, hn.sameClaims rfl⟩
    | addRoute hk =>
      rcases Kernel.addRoute_cases hk with ⟨-, rfl⟩
      exact ⟨n, hn.sameClaims rfl⟩
    | expire hk =>
      rcases Kernel.expire_cases hk with ⟨_, -, rfl⟩
      exact ⟨n, hn.sameClaims rfl⟩
    | arrive _ hr => exact exists_untouched_respond hn hr
    | start leaseSeconds hi => exact hn.exists_setInst _ _
    | @ask i call response next k hi hr =>
      rcases exists_untouched_respond hn hr with ⟨m, hm⟩
      exact hm.exists_setInst i (.running (next (call.parse response)))
    | @giveUp i call next error hi =>
      have hsent : Untouched { y with sent := call :: y.sent } n := ⟨hn.inst, hn.client, hn.claims⟩
      exact hsent.exists_setInst i (.running (next (.error error)))
    | @invoke i serial call next store hi hstore =>
      exact (hn.invoked hstore).exists_setInst i (.storing serial call next)
    | store ha hstore =>
      exact ⟨n, hn.inst, fun i serial hi => idle_of_inner ha hstore (hn.client i serial hi), hn.claims⟩
    | answer => exact hn.exists_setInst _ _
    | finish => exact hn.exists_setInst _ _
    | @crash i store sent hstore hsent =>
      have hclosed : Untouched { y with store := store } n := by
        rcases hstore with rfl | ⟨c, hc⟩
        · exact hn
        · exact hn.crashed hc
      have hkept : Untouched { y with store := store, sent := sent } n :=
        ⟨hclosed.inst, hclosed.client, hclosed.claims⟩
      exact hkept.exists_setInst i .idle

end Untouched

section Pass
variable [UuidText] {routeId : String} {claim : WorkClaim}
  {request : RoutedRequest} {call : RepositoryCall} {id : Uuid}

/-- A pass that is about to complete its claim, and ends with that. -/
def Completing (claim : WorkClaim) (pass : Pass) : Prop :=
  ∃ next, pass = .call (.kernel (.completeClaim claim.claimId claim.fencingToken)) next ∧
    ∀ outcome, ∃ res, next (.ok outcome) = .ret res

theorem workOnce_eq (leaseSeconds : ℤ) : ∃ next,
    (workOnce leaseSeconds).run = .call (.kernel .eligibleRoutes) next ∧
    ∀ route routes, ∃ next',
      next (.ok (route :: routes)) = .call (.kernel (.proposeClaim route.routeId leaseSeconds)) next' ∧
      ∀ claim, next' (.ok (.claimed claim)) = (performClaim route.routeId claim).run :=
  ⟨_, rfl, fun _ _ => ⟨_, rfl, fun _ => rfl⟩⟩

theorem performClaim_eq (routeId : String) (claim : WorkClaim) : ∃ next,
    (performClaim routeId claim).run = .call (.kernel (.routedRequest routeId)) next ∧
    ∀ request, next (.ok (.found request)) = (performRequest routeId claim request).run :=
  ⟨_, rfl, fun _ => rfl⟩

omit [UuidText] in
theorem completing_completePerformed (outcome : DispatchOutcome) :
    Completing claim (completePerformed routeId claim outcome).run := by
  refine ⟨_, rfl, ?_⟩
  intro completed
  cases completed <;> exact ⟨_, rfl⟩

theorem requestUuid_of_parse (h : UuidText.parse request.requestId = some id) :
    requestUuid request = .ok id := by
  rw [requestUuid, h]
  rfl

/-- A dispatch that is served makes its one call and reports its success. -/
theorem dispatch_serves (hid : requestUuid request = .ok id) (hs : Serves request call) :
    ∃ next, (dispatch request.action id request.scope).run = .call (.repository call) next ∧
      ∀ ans, call.succeeded ans = true → ∃ outcome, next ans = .ret (.ok outcome) := by
  cases hs with
  | put h hid' =>
    cases hid.symm.trans hid'
    rw [dispatch, if_pos h]
    refine ⟨_, rfl, ?_⟩
    intro ans hans
    cases ans with
    | error e => cases hans
    | ok outcome => exact ⟨_, rfl⟩
  | get h hs =>
    have hne : request.action ≠ putAction := by
      rw [h]
      decide
    rw [dispatch, if_neg hne, if_pos h, hs]
    refine ⟨_, rfl, ?_⟩
    intro ans hans
    cases ans with
    | error e => cases hans
    | ok document => exact ⟨_, rfl⟩
  | search h =>
    have hne : request.action ≠ putAction ∧ request.action ≠ getAction := by
      rw [h]
      decide
    rw [dispatch, if_neg hne.1, if_neg hne.2, if_pos h]
    refine ⟨_, rfl, ?_⟩
    intro ans hans
    cases ans with
    | error e => cases hans
    | ok hits => exact ⟨_, rfl⟩

/-- After its dispatch a request is completed, unless the dispatch failed. -/
theorem performRequest_eq (routeId : String) (claim : WorkClaim)
    (hid : requestUuid request = .ok id) : ∃ f,
    (performRequest routeId claim request).run =
      (dispatch request.action id request.scope).run.bind f ∧
    (∀ outcome, Completing claim (f (.ok outcome))) ∧
    ∀ action, Completing claim (f (.error (.unknownAction action))) := by
  rw [performRequest, hid]
  refine ⟨_, Program.bind_assoc _ _ _, ?_, ?_⟩
  · exact fun outcome => completing_completePerformed outcome
  · exact fun action => ⟨_, rfl, fun outcome => ⟨_, rfl⟩⟩

theorem performRequest_serves (hid : requestUuid request = .ok id) (hs : Serves request call) :
    ∃ next, (performRequest routeId claim request).run = .call (.repository call) next ∧
      ∀ ans, call.succeeded ans = true → Completing claim (next ans) := by
  rcases dispatch_serves hid hs with ⟨next, hrun, hnext⟩
  rcases performRequest_eq routeId claim hid with ⟨f, hf, hok, -⟩
  rw [hf, hrun]
  refine ⟨_, rfl, ?_⟩
  intro ans hans
  rcases hnext ans hans with ⟨outcome, hret⟩
  rw [hret]
  exact hok outcome

theorem performRequest_unknown (hid : requestUuid request = .ok id) (h : request.action ∉ actions) :
    Completing claim (performRequest routeId claim request).run := by
  simp only [actions, List.mem_cons, List.not_mem_nil, or_false, not_or] at h
  rcases performRequest_eq routeId claim hid with ⟨f, hf, -, hunknown⟩
  rw [hf, dispatch, if_neg h.1, if_neg h.2.1, if_neg h.2.2]
  exact hunknown request.action

end Pass

section Run
variable [Sha256] [TextSearch] [UuidText] {s s' : State} {i : ℕ} {routeId : String}
  {route : Route} {claim : WorkClaim} {request : RoutedRequest} {call : RepositoryCall}

omit [Sha256] [TextSearch] [UuidText] in
theorem inner_of_regular {a : Store.Action} (h : a.regular = true) : isInner a = true := by
  cases a <;> first | rfl | cases h

/-- Steps of the store are steps of the service. -/
theorem recovers_store {store : Store.State}
    (h : Leads Store.step (·.regular = true) s.store store) :
    Recovers s { s with store := store } := by
  rcases h with ⟨actions, hregular, hr⟩
  induction actions generalizing s with
  | nil =>
    cases hr
    exact .refl s
  | cons a actions ih =>
    rcases Option.bind_eq_some_iff.mp hr with ⟨x, hx, hrest⟩
    have ha : (Action.store a).regular = true := hregular a List.mem_cons_self
    have hstep : step s (.store a) = some { s with store := x } := by
      simp [step, inner_of_regular ha, hx]
    have hleads : Recovers { s with store := x } { s with store := store } :=
      ih (s := { s with store := x }) (fun b hb => hregular b (List.mem_cons_of_mem a hb)) hrest
    exact .head ha hstep hleads

/-- An instance asks the kernel and goes on with the answer. -/
theorem exists_ask {call : KernelCall} {next : Except LibrarianError call.Outcome → Pass}
    {response : Response call.Body} {k : Kernel}
    (hi : s.inst i = .running (.call (.kernel call) next))
    (hr : s.kernel.respond call response = some k) :
    ∃ s', Recovers s s' ∧ s'.inst i = .running (next (call.parse response)) ∧ s'.kernel = k ∧
      s'.store = s.store := by
  have hstep : step s (.ask i call response) =
      some { s.setInst i (.running (next (call.parse response))) with kernel := k } := by
    simp [step, hi, hr]
  exact ⟨_, .one rfl hstep, State.setInst_self s i _, rfl, rfl⟩

/-- An instance holds the current claim of a route and goes on with a pass. -/
structure Holding (s : State) (i : ℕ) (routeId : String) (claim : WorkClaim) (pass : Pass) :
    Prop where
  inst : s.inst i = .running pass
  granted : s.kernel.claims claim.claimId = some claim
  route : claim.routeId = routeId
  current : ∃ route, s.kernel.routes routeId = some route ∧ route.claim = some claim

/-- A new instance claims an eligible route and reads its request. -/
theorem exists_claim (hi : s.inst i = .idle) (hroute : s.kernel.routes routeId = some route)
    (hfree : route.claim = none) (hopen : route.completed = false)
    (hrouted : s.kernel.routed routeId = some request)
    (hnew : ∃ claimId, s.kernel.claims claimId = none) :
    ∃ s' claim, Recovers s s' ∧
      Holding s' i routeId claim (performRequest routeId claim request).run ∧
      s'.store = s.store := by
  rcases hnew with ⟨claimId, hnew⟩
  let claim : WorkClaim := ⟨claimId, routeId, "", "", route.fencingToken + 1, "active", 0, 300⟩
  have heligible : route.eligible = true := by simp [Route.eligible, hfree, hopen]
  rcases workOnce_eq 300 with ⟨next, hwork, hnext⟩
  rcases hnext ⟨routeId, route.requestId, "", "", 0⟩ [] with ⟨next', hnext, hclaimed⟩
  rcases performClaim_eq routeId claim with ⟨last, hperform, hfound⟩
  -- the pass starts and is offered the route
  have hstart : step s (.start i 300) = some (s.setInst i (.running (workOnce 300).run)) := by
    simp only [step, hi]
  have h₁ : (s.setInst i (.running (workOnce 300).run)).inst i =
      .running (.call (.kernel .eligibleRoutes) next) := by
    rw [State.setInst_self, hwork]
  have hoffer : s.kernel.respond .eligibleRoutes
      ⟨200, .ok [⟨routeId, route.requestId, "", "", 0⟩]⟩ = some s.kernel := by
    have hlisted : s.kernel.isEligible routeId = true := by
      simpa [Kernel.isEligible, hroute] using heligible
    simp [Kernel.respond, Response.expect, Response.decode, Except.mapError, hlisted]
  rcases exists_ask h₁ hoffer with ⟨s₂, hs₂, hi₂, hk₂, hstore₂⟩
  -- it claims the route
  rcases Option.isSome_iff_exists.mp
    (show (s.kernel.grant routeId claim).isSome by simp [Kernel.grant, hroute, heligible, claim, hnew])
    with ⟨k, hgrant⟩
  have hclaims : s₂.kernel.respond (.proposeClaim routeId 300) ⟨201, .ok claim⟩ = some k := by
    rw [hk₂]
    exact hgrant
  change s₂.inst i = .running (next (.ok [_])) at hi₂
  rw [hnext] at hi₂
  rcases exists_ask hi₂ hclaims with ⟨s₃, hs₃, hi₃, hk₃, hstore₃⟩
  -- and reads its request
  have hdeliver : s₃.kernel.respond (.routedRequest routeId) ⟨200, .ok request⟩ = some k := by
    rw [hk₃]
    have hstill := (Kernel.grows_grant hgrant).routed _ _ hrouted
    simp [Kernel.respond, Response.expect, Response.decode, Except.mapError, hstill]
  change s₃.inst i = .running (next' (.ok (.claimed claim))) at hi₃
  rw [hclaimed, hperform] at hi₃
  rcases exists_ask hi₃ hdeliver with ⟨s₄, hs₄, hi₄, hk₄, hstore₄⟩
  change s₄.inst i = .running (last (.ok (.found request))) at hi₄
  rw [hfound] at hi₄
  have hleads : Recovers s s₄ := .head rfl hstart (hs₂.trans (hs₃.trans hs₄))
  refine ⟨s₄, claim, hleads, ?_, ?_⟩
  · rcases Kernel.grant_cases hgrant with ⟨_, -, -, -, -, rfl⟩
    exact ⟨hi₄, by rw [hk₄]; exact Function.update_self _ _ _, rfl,
      _, by rw [hk₄]; exact Kernel.setRoute_self, rfl⟩
  · rw [hstore₄, hstore₃, hstore₂]
    rfl

/-- The holder of the current claim completes the route. -/
theorem exists_completion {pass : Pass} (h : Holding s i routeId claim pass)
    (hp : Completing claim pass) : ∃ s', Recovers s s' ∧ s'.kernel.Completed routeId := by
  rcases hp with ⟨next, rfl, hret⟩
  rcases h.current with ⟨route, hroute, hcurrent⟩
  have hcomplete : s.kernel.respond (.completeClaim claim.claimId claim.fencingToken)
      ⟨200, .ok claim⟩ = some (s.kernel.setRoute claim.routeId
        { route with claim := none, completed := true }) := by
    have hheld : s.kernel.routes claim.routeId = some route := by rw [h.route, hroute]
    simp [Kernel.respond, Response.expect, Response.decode, Except.mapError, Kernel.complete,
      h.granted, hheld, hcurrent]
  rcases exists_ask h.inst hcomplete with ⟨s', hs', hi', hk', -⟩
  refine ⟨s', hs', ?_⟩
  rw [hk', ← h.route]
  exact ⟨_, Kernel.setRoute_self, rfl⟩

omit [Sha256] [TextSearch] [UuidText] in
theorem exists_answer {res : RepositoryResult} (h : Store.Succeeds call res) :
    ∃ ans, answerOf call res = some ans ∧ call.succeeded ans = true := by
  match call, res, h with
  | .put _ _, .put _, ⟨outcome, rfl⟩ => exact ⟨.ok outcome, rfl, rfl⟩
  | .get _ _, .get _, ⟨e, rfl⟩ => exact ⟨.ok e, rfl, rfl⟩
  | .search _ _, .search _, ⟨hits, rfl⟩ => exact ⟨.ok hits, rfl, rfl⟩

/-- With nobody in flight, the holder of a claim performs the call of its request. -/
theorem exists_performance {t : List (Store.State × Store.Action)} {pass : Pass}
    {next : call.Ans → Pass} (h : Holding s i routeId claim pass)
    (hpass : pass = .call (.repository call) next) (ht : Store.system.Trace t s.store)
    (hquiet : ∀ c, ¬ Store.InFlight s.store c) (hidle : s.store.client ⟨i, 0⟩ = .idle)
    (hfew : (Store.invoked t).length < 2 ^ 128)
    (hp : Store.Performable s.store.database.library call) :
    ∃ s' ans, Recovers s s' ∧ call.succeeded ans = true ∧ Holding s' i routeId claim (next ans) := by
  subst hpass
  rcases Store.exists_performed ht hquiet hidle hp hfew with
    ⟨x, store, res, hinvoke, hleads, hres, hsucceeds⟩
  rcases exists_answer hsucceeds with ⟨ans, hans, hok⟩
  let s₁ : State := { s.setInst i (.storing 0 call next) with store := x }
  let s₂ : State := { s₁ with store := store }
  have hcall : step s (.invoke i 0) = some s₁ := by
    simp [step, h.inst, hinvoke, s₁]
  have hreturn : step s₂ (.answer i) = some (s₂.setInst i (.running (next ans))) := by
    simp [step, s₂, s₁, hres, hans]
  have hstore : Recovers s₁ s₂ := recovers_store hleads
  have hlast : Recovers s₂ (s₂.setInst i (.running (next ans))) := .one rfl hreturn
  exact ⟨_, ans, .head rfl hcall (hstore.trans hlast), hok,
    State.setInst_self s₂ i _, h.granted, h.route, h.current⟩

theorem exists_store_trace {t : List (State × Action)} (h : system.Trace t s) :
    ∃ u, Store.system.Trace u s.store ∧ (Store.invoked u).length ≤ t.length := by
  have hextend : ∀ {x y : Store.State} {u : List (Store.State × Store.Action)} {a : Store.Action},
      Store.system.Trace u x → Store.step x a = some y →
      ∃ u', Store.system.Trace u' y ∧ (Store.invoked u').length ≤ (Store.invoked u).length + 1 := by
    intro x y u a hu hs
    refine ⟨_, hu.step hs, ?_⟩
    rw [Store.invoked, List.filterMap_append, List.length_append]
    exact Nat.add_le_add_left (List.length_filterMap_le _ _) _
  induction h with
  | start hinit =>
    rcases hinit with ⟨clock, rfl⟩
    exact ⟨[], .start ⟨clock, rfl⟩, Nat.le_refl 0⟩
  | @step t y y' a ht hs ih =>
    rcases ih with ⟨u, hu, hlen⟩
    rw [List.length_append, List.length_singleton]
    have hone : ∀ {x : Store.State} {b : Store.Action}, Store.step y.store b = some x →
        ∃ u', Store.system.Trace u' x ∧ (Store.invoked u').length ≤ t.length + 1 := by
      intro x b hb
      rcases hextend hu hb with ⟨u', hu', hlen'⟩
      exact ⟨u', hu', by omega⟩
    cases step_moves hs with
    | invoke _ hstore => exact hone hstore
    | store _ hstore => exact hone hstore
    | crash hstore =>
      rcases hstore with rfl | ⟨c, hc⟩
      · exact ⟨u, hu, by omega⟩
      · exact hone hc
    | _ => exact ⟨u, hu, by omega⟩

/-- The store comes to rest and the lease of a claim on the route ends. -/
theorem exists_rest {t : List (State × Action)} (h : system.Trace t s)
    (hroute : s.kernel.routes routeId = some route) :
    ∃ s' u, Recovers s s' ∧ Store.system.Trace u s'.store ∧ (Store.invoked u).length ≤ t.length ∧
      (∀ c, ¬ Store.InFlight s'.store c) ∧
      s.store.database.library.Extends s'.store.database.library ∧
      s'.kernel = s.kernel.setRoute routeId { route with claim := none } := by
  rcases exists_store_trace h with ⟨u, hu, hlen⟩
  rcases Store.exists_quiet hu with ⟨store, u', hleads, hu', hlen', hquiet, hl⟩
  let s₁ : State := { s with store := store }
  let k := s.kernel.setRoute routeId { route with claim := none }
  have hexpire : step s₁ (.expire routeId) = some { s₁ with kernel := k } := by
    simp [step, Kernel.expire, hroute, s₁, k]
  have hlast : Recovers s₁ { s₁ with kernel := k } := .one rfl hexpire
  exact ⟨_, u', (recovers_store hleads).trans hlast, hu', by omega, hquiet, hl, rfl⟩

omit [Sha256] in
theorem Performable.mono {L L' : Library} (h : Performable L request) (hl : L.Extends L') :
    Performable L' request := by
  cases h with
  | unknown hid h => exact .unknown hid h
  | put hid h hcontent hstorable => exact .put hid h hcontent hstorable
  | get hid h hs hd => exact .get hid h hs (hl.get hd)
  | search hid h hquery => exact .search hid h hquery

omit [Sha256] in
/-- The call of a request that can be performed can be performed, if the request asks for one. -/
theorem Performable.serves {L : Library} (h : Performable L request) :
    ∃ id, requestUuid request = .ok id ∧ (request.action ∉ actions ∨
      ∃ call, Serves request call ∧ Store.Performable L call) := by
  cases h with
  | @unknown id hid h => exact ⟨id, requestUuid_of_parse hid, .inl h⟩
  | @put id hid h hcontent hstorable =>
    have hblank : isBlank "text/plain" = false := by decide
    exact ⟨id, requestUuid_of_parse hid, .inr ⟨_, .put h (requestUuid_of_parse hid), rfl, hcontent,
      hblank, hstorable⟩⟩
  | @get id d v hid h hs hd => exact ⟨id, requestUuid_of_parse hid, .inr ⟨_, .get h hs, hd⟩⟩
  | @search id hid h hquery =>
    have hlimit : 0 ≤ searchResultLimit := by decide
    exact ⟨id, requestUuid_of_parse hid, .inr ⟨_, .search h, hlimit, hquery⟩⟩

/-- A route goes on delivering its request. -/
theorem Moves.routed {a : Action} (hm : Moves s a s')
    (h : s.kernel.routed routeId = some request) : s'.kernel.routed routeId = some request := by
  cases hm with
  | accept hk => exact (Kernel.grows_accept hk).routed _ _ h
  | addRoute hk => exact (Kernel.grows_addRoute hk).routed _ _ h
  | expire hk => exact (Kernel.grows_expire hk).routed _ _ h
  | arrive _ hr => exact (Kernel.grows_respond hr).routed _ _ h
  | ask _ hr => exact (Kernel.grows_respond hr).routed _ _ h
  | _ => exact h

/-- A request that can be performed is performed and completed by a new instance. -/
theorem exists_completed {u : List (Store.State × Store.Action)} (h : system.Reachable s)
    (hu : Store.system.Trace u s.store) (hfew : (Store.invoked u).length < 2 ^ 128)
    (hquiet : ∀ c, ¬ Store.InFlight s.store c) (hroute : s.kernel.routes routeId = some route)
    (hfree : route.claim = none) (hopen : route.completed = false)
    (hrouted : s.kernel.routed routeId = some request)
    (hp : Performable s.store.database.library request) :
    ∃ s', Recovers s s' ∧ s'.kernel.Completed routeId := by
  rcases h with ⟨t, ht⟩
  rcases exists_untouched ht with ⟨n, hn⟩
  have hnew : ∃ claimId, s.kernel.claims claimId = none :=
    ⟨.ofList (List.replicate n 'x'), hn.claims _ (by simp)⟩
  rcases exists_claim (hn.inst n (Nat.le_refl n)) hroute hfree hopen hrouted hnew with
    ⟨s₁, claim, hs₁, hholding, hstore⟩
  rcases hp.serves with ⟨id, hid, hunknown | ⟨call, hserves, hcall⟩⟩
  · rcases exists_completion hholding (performRequest_unknown hid hunknown) with ⟨s₂, hs₂, hdone⟩
    exact ⟨s₂, hs₁.trans hs₂, hdone⟩
  · rcases performRequest_serves hid hserves with ⟨next, hpass, hnext⟩
    rw [← hstore] at hu hquiet hcall
    have hidle : s₁.store.client ⟨n, 0⟩ = .idle := by
      rw [hstore]
      exact hn.client n 0 (Nat.le_refl n)
    rcases exists_performance hholding hpass hu hquiet hidle hfew hcall with
      ⟨s₂, ans, hs₂, hok, hholding'⟩
    rcases exists_completion hholding' (hnext ans hok) with ⟨s₃, hs₃, hdone⟩
    exact ⟨s₃, hs₁.trans (hs₂.trans hs₃), hdone⟩

/-- After any run of fewer than 2^128 steps, a route whose request can be performed is completed
by some further steps that nothing goes wrong with, a put with its operation committed. -/
theorem recovers_of_trace {t : List (State × Action)} (h : system.Trace t s)
    (hfew : t.length < 2 ^ 128) (hrouted : s.kernel.routed routeId = some request)
    (hp : Performable s.store.database.library request) :
    ∃ s', Recovers s s' ∧ s'.kernel.Completed routeId ∧ Settled s' request := by
  have hkeeps : ∀ {x : State}, Recovers s x →
      system.Reachable x ∧ x.kernel.routed routeId = some request := by
    intro x hx
    apply hx.keeps (P := fun x => system.Reachable x ∧ x.kernel.routed routeId = some request)
    · exact fun y a z hy _ hs => ⟨hy.1.step hs, (step_moves hs).routed hy.2⟩
    · exact ⟨h.reachable, hrouted⟩
  have hdone : ∃ s', Recovers s s' ∧ s'.kernel.Completed routeId := by
    rcases Option.bind_eq_some_iff.mp hrouted with ⟨route, hroute, -⟩
    by_cases hopen : route.completed = true
    · exact ⟨s, .refl s, route, hroute, hopen⟩
    · rcases exists_rest h hroute with ⟨x, u, hx, hu, hlen, hquiet, hl, hk⟩
      have hreleased : x.kernel.routes routeId = some { route with claim := none } := by
        rw [hk]
        exact Kernel.setRoute_self
      rcases exists_completed (hkeeps hx).1 hu (by omega) hquiet hreleased rfl (by simpa using hopen)
        (hkeeps hx).2 (hp.mono hl) with ⟨s', hs', hdone⟩
      exact ⟨s', hx.trans hs', hdone⟩
  rcases hdone with ⟨s', hs', hdone⟩
  rcases (invariant_of_reachable (hkeeps hs').1).completed routeId hdone with ⟨found, hfound, hsettled⟩
  rw [(hkeeps hs').2] at hfound
  cases hfound
  exact ⟨s', hs', hdone, hsettled⟩

end Run

/-- An instance crashes in the middle of a put; its claim and its transaction stay behind. -/
def strandedRun : List Action :=
  .accept sampleRequest :: .addRoute "route" sampleRequestId :: claimRun 0 ++
    ((Store.execs ⟨0, 0⟩ 3 ++ .newUuid ⟨0, 0⟩ 7 :: Store.execs ⟨0, 0⟩ 4).map Action.store) ++ [.crash 0]

def stranded : Option State :=
  System.run (@step Store.sampleSha256 Store.sampleSearch sampleUuidText) (.initial 0) strandedRun

theorem recovers_strandedRun : ∃ s s', stranded = some s ∧
    @Recovers Store.sampleSha256 Store.sampleSearch sampleUuidText s s' ∧
    s'.kernel.Completed "route" ∧ @Settled sampleUuidText s' sampleRequest := by
  have h : stranded.isSome = true := by decide +kernel
  have hstart : (@system Store.sampleSha256 Store.sampleSearch sampleUuidText).Trace []
    (.initial 0) := .start ⟨0, rfl⟩
  have htrace := System.trace_record (fun _ _ _ hs => hs) hstart (Option.eq_some_of_isSome h)
  have hrouted : (stranded.get (by decide +kernel)).kernel.routed "route" = some sampleRequest := by
    decide +kernel
  have hperformable : @Performable Store.sampleSearch sampleUuidText
      (stranded.get h).store.database.library sampleRequest :=
    @Performable.put Store.sampleSearch sampleUuidText _ _ 1 rfl rfl (by decide) (by decide)
  rcases @recovers_of_trace Store.sampleSha256 Store.sampleSearch sampleUuidText _ "route"
    sampleRequest _ htrace (by decide +kernel) hrouted hperformable with ⟨s', hs'⟩
  exact ⟨stranded.get h, s', Option.eq_some_of_isSome h, hs'⟩

end Librarian.Service
