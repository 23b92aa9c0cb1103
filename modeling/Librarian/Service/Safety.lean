import Librarian.Foundation.Protocol
import Librarian.Service.System
import Librarian.Store.Idempotency

/-! # The contract of one pass

A pass asks the kernel to complete a claim only when the request of the claim's route, if
it is a put, has its operation committed. All it needs to know stays true once it is true.
-/
namespace Librarian.Service
open Foundation Postgres
open Store (Processed)
open Program (Safe)

/-- Claims, routed requests and committed puts stay. -/
structure State.Grows (s s' : State) : Prop where
  kernel : s.kernel.Grows s'.kernel
  store : ∀ requestId, Processed s.store.database requestId → Processed s'.store.database requestId

theorem State.Grows.refl (s : State) : s.Grows s := ⟨.refl _, fun _ h => h⟩

theorem State.Grows.trans {s₁ s₂ s₃ : State} (h : s₁.Grows s₂) (h' : s₂.Grows s₃) : s₁.Grows s₃ where
  kernel := h.kernel.trans h'.kernel
  store r hr := h'.store r (h.store r hr)

/-- What a caller may conclude from the result of a repository call. -/
def Stores (db : Database) : (call : RepositoryCall) → call.Ans → Prop
  | .put requestId _ => fun ans => ∀ outcome, ans = .ok outcome → Processed db requestId
  | _ => fun _ => True

variable [UuidText]

/-- A put request whose own id is recorded by a committed put; requests of other actions owe
nothing. -/
def Settled (s : State) (request : RoutedRequest) : Prop :=
  request.action = putAction → ∃ requestId, UuidText.parse request.requestId = some requestId ∧
    Processed s.store.database requestId

/-- The claim may be completed. -/
def Earned (s : State) (claimId : String) : Prop :=
  ∃ claim request, s.kernel.claims claimId = some claim ∧
    s.kernel.routed claim.routeId = some request ∧ Settled s request

/-- What has to hold when a call is made. -/
def Asks (s : State) : PortOp → Prop
  | .kernel (.completeClaim claimId _) => Earned s claimId
  | _ => True

/-- What holds when a call is answered. -/
def Learns (s : State) : (op : PortOp) → op.Ans → Prop
  | .kernel call => s.kernel.Tells call
  | .repository call => Stores s.store.database call

/-- The contract of a pass. The others may do anything that keeps what is known. -/
def protocol : Protocol PortOp PortOp.Ans State where
  rely := State.Grows
  rely_refl := .refl
  rely_trans := .trans
  pre := Asks
  post s op ans s' := s.Grows s' ∧ Learns s' op ans

theorem Settled.mono {s s' : State} {request : RoutedRequest} (h : Settled s request)
    (hg : s.Grows s') : Settled s' request := by
  intro hput
  rcases h hput with ⟨requestId, hid, hp⟩
  exact ⟨requestId, hid, hg.store _ hp⟩

theorem Earned.mono {s s' : State} {claimId : String} (h : Earned s claimId) (hg : s.Grows s') :
    Earned s' claimId := by
  rcases h with ⟨claim, request, hclaim, hrouted, hs⟩
  exact ⟨claim, request, hg.kernel.claims _ _ hclaim, hg.kernel.routed _ _ hrouted, hs.mono hg⟩

theorem Asks.mono {s s' : State} {op : PortOp} (h : Asks s op) (hg : s.Grows s') : Asks s' op := by
  unfold Asks at h ⊢
  split
  · exact Earned.mono h hg
  · trivial

omit [UuidText] in
theorem Learns.mono {s s' : State} {op : PortOp} {ans : op.Ans} (h : Learns s op ans)
    (hg : s.Grows s') : Learns s' op ans := by
  cases op with
  | kernel call => exact Kernel.Tells.mono h hg.kernel
  | repository call =>
    cases call with
    | put requestId document =>
      intro outcome hok
      exact hg.store _ (h outcome hok)
    | get documentId version => trivial
    | search query limit => trivial

section Pass
variable {s : State} {action scope routeId : String} {requestId : Uuid} {claim : WorkClaim}
  {request : RoutedRequest}

/-- One call of a pass. -/
theorem safe_call (op : PortOp) (h : Asks s op) :
    Safe protocol (fun s' ans => s.Grows s' ∧ Learns s' op ans) (.call op .ret) s := by
  apply Safe.call
  intro v hv
  refine ⟨h.mono hv, ?_⟩
  rintro ans w ⟨hw, hlearns⟩
  apply Safe.ret
  intro x hx
  exact ⟨(hv.trans hw).trans hx, hlearns.mono hx⟩

/-- One repository call, with its error converted. -/
theorem safe_repository {α : Type} {call : RepositoryCall} {f : call.Ans → Except LibrarianError α} :
    Safe protocol (fun s' res => s.Grows s' ∧ ∃ ans, res = f ans ∧ Stores s'.store.database call ans)
      (.call (.repository call) fun ans => .ret (f ans)) s := by
  apply Safe.call
  intro v hv
  refine ⟨trivial, ?_⟩
  rintro ans w ⟨hw, hlearns⟩
  apply Safe.ret
  intro x hx
  exact ⟨(hv.trans hw).trans hx, ans, rfl, Learns.mono hlearns hx⟩

/-- What is known once a dispatch returned: a put that succeeded is committed, and a put is never
an unknown action. -/
structure Dispatched (s : State) (action : String) (requestId : Uuid)
    (res : Except LibrarianError DispatchOutcome) (s' : State) : Prop where
  grows : s.Grows s'
  put : ∀ outcome, res = .ok outcome → action = putAction →
    Processed s'.store.database requestId
  unknown : ∀ a, res = .error (.unknownAction a) → action ≠ putAction

omit [UuidText] in
theorem Dispatched.mono {res : Except LibrarianError DispatchOutcome} {v w : State}
    (h : Dispatched s action requestId res v) (hg : v.Grows w) :
    Dispatched s action requestId res w where
  grows := h.grows.trans hg
  put outcome hok hput := hg.store _ (h.put outcome hok hput)
  unknown := h.unknown

omit [UuidText] in
theorem Dispatched.of_other {res : Except LibrarianError DispatchOutcome} {v : State}
    (hg : s.Grows v) (h : action ≠ putAction) : Dispatched s action requestId res v :=
  ⟨hg, fun _ _ hput => absurd hput h, fun _ _ => h⟩

theorem safe_dispatch : (dispatch action requestId scope).run.Safe protocol
    (fun s' res => Dispatched s action requestId res s') s := by
  rw [dispatch]
  split
  · apply Safe.bindExcept safe_repository
    · rintro v outcome ⟨hv, ans, hans, hstores⟩
      apply Safe.ret
      intro w hw
      refine ⟨hv.trans hw, ?_, by simp⟩
      intro _ _ _
      cases ans with
      | error e => cases hans
      | ok o => exact hw.store _ (hstores o rfl)
    · rintro v e ⟨hv, ans, hans, -⟩
      apply Safe.ret
      intro w hw
      refine ⟨hv.trans hw, by simp, ?_⟩
      intro a ha
      cases ans with
      | error e' =>
        cases hans
        cases ha
      | ok o => cases hans
  · rename_i hput
    have hret : ∀ {v : State} (res : Except LibrarianError DispatchOutcome), s.Grows v →
        Safe protocol (fun s' res => Dispatched s action requestId res s') (.ret res) v :=
      fun res hv => Safe.ret fun w hw => .of_other (hv.trans hw) hput
    split
    · cases hs : parseGetScope scope with
      | error e => exact hret _ (.refl s)
      | ok target =>
        apply Safe.bindExcept safe_repository
        · exact fun v document hv => hret _ hv.1
        · exact fun v e hv => hret _ hv.1
    · split
      · apply Safe.bindExcept safe_repository
        · exact fun v hits hv => hret _ hv.1
        · exact fun v e hv => hret _ hv.1
      · exact hret _ (.refl s)

/-- A claimed route with its request, as a pass knows it. -/
structure Holds (s : State) (routeId : String) (claim : WorkClaim) (request : RoutedRequest) :
    Prop where
  granted : s.kernel.claims claim.claimId = some claim
  route : claim.routeId = routeId
  routed : s.kernel.routed routeId = some request

omit [UuidText] in
theorem Holds.mono {s' : State} (h : Holds s routeId claim request) (hg : s.Grows s') :
    Holds s' routeId claim request :=
  ⟨hg.kernel.claims _ _ h.granted, h.route, hg.kernel.routed _ _ h.routed⟩

/-- The claim of a settled request may be completed. -/
theorem Holds.earned (h : Holds s routeId claim request) (hs : Settled s request) :
    Earned s claim.claimId := by
  refine ⟨claim, request, h.granted, ?_, hs⟩
  rw [h.route]
  exact h.routed

/-- Programs that keep the contract, whatever they return. -/
abbrev Keeps {α : Type} (p : Work α) (s : State) : Prop := p.run.Safe protocol (fun _ _ => True) s

theorem keeps_ret {α : Type} (res : Except LibrarianError α) : Keeps (ExceptT.mk (.ret res)) s :=
  Safe.ret fun _ _ => trivial

theorem keeps_completePerformed {outcome : DispatchOutcome} (h : Earned s claim.claimId) :
    Keeps (completePerformed routeId claim outcome) s := by
  rw [completePerformed]
  apply Safe.bindExcept (safe_call (.kernel (.completeClaim claim.claimId claim.fencingToken)) h)
  · intro v completed _
    cases completed <;> exact keeps_ret _
  · intro v e _
    exact keeps_ret _

theorem keeps_performRequest (h : Holds s routeId claim request) :
    Keeps (performRequest routeId claim request) s := by
  rw [performRequest]
  cases hid : requestUuid request with
  | error e => exact keeps_ret _
  | ok requestId =>
    have hparse : UuidText.parse request.requestId = some requestId := by
      rw [requestUuid] at hid
      cases hp : UuidText.parse request.requestId with
      | none => simp [hp] at hid
      | some u => simpa [hp] using hid
    have hattempt : (Work.attempt (dispatch request.action requestId request.scope)).run.Safe protocol
        (fun v res => ∃ r, res = .ok r ∧ Dispatched s request.action requestId r v) s :=
      Safe.bind safe_dispatch fun v r hr => Safe.ret fun w hw => ⟨r, rfl, hr.mono hw⟩
    apply Safe.bindExcept hattempt
    · rintro v dispatched ⟨r, hr, hd⟩
      cases hr
      have hholds := h.mono hd.grows
      cases dispatched with
      | ok outcome =>
        have hsettled : Settled v request := fun hput => ⟨requestId, hparse, hd.put _ rfl hput⟩
        exact keeps_completePerformed (hholds.earned hsettled)
      | error e =>
        cases e with
        | unknownAction action =>
          have hsettled : Settled v request := fun hput => absurd hput (hd.unknown _ rfl)
          apply Safe.bindExcept (safe_call
            (.kernel (.completeClaim claim.claimId claim.fencingToken)) (hholds.earned hsettled))
          · intro w completed _
            exact keeps_ret _
          · intro w e _
            exact keeps_ret _
        | _ => exact keeps_ret _
    · intro v e _
      exact keeps_ret _

theorem keeps_performClaim (hc : s.kernel.claims claim.claimId = some claim)
    (hroute : claim.routeId = routeId) : Keeps (performClaim routeId claim) s := by
  rw [performClaim]
  apply Safe.bindExcept (safe_call (.kernel (.routedRequest routeId)) trivial)
  · rintro v outcome ⟨hv, htells⟩
    cases outcome with
    | found request =>
      exact keeps_performRequest ⟨hv.kernel.claims _ _ hc, hroute, htells request rfl⟩
    | notFound => exact keeps_ret _
  · intro v e _
    exact keeps_ret _

/-- Every pass keeps the contract. -/
theorem keeps_workOnce (leaseSeconds : ℤ) : Keeps (workOnce leaseSeconds) s := by
  rw [workOnce]
  apply Safe.bindExcept (safe_call (.kernel .eligibleRoutes) trivial)
  · intro v routes _
    cases routes with
    | nil => exact keeps_ret _
    | cons route routes =>
      apply Safe.bindExcept (safe_call (.kernel (.proposeClaim route.routeId leaseSeconds)) trivial)
      · rintro w outcome ⟨hw, htells⟩
        cases outcome with
        | claimed claim =>
          rcases htells claim rfl with ⟨hclaim, hroute⟩
          exact keeps_performClaim hclaim hroute
        | alreadyClaimed => exact keeps_ret _
        | routeNotFound => exact keeps_ret _
      · intro w e _
        exact keeps_ret _
  · intro v e _
    exact keeps_ret _

end Pass
end Librarian.Service
