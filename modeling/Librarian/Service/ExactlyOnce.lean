import Librarian.Service.Safety
import Librarian.Store.Changes

/-! # Exactly-once effect across kernel and store

In every reachable state a request has written at most one version, and a completed route of
a put has its put committed.
-/
namespace Librarian.Service
open Foundation Postgres
open Program (Safe)
open Store (Processed)

section Safety
variable [UuidText]

/-- What holds of an instance between two of its actions. -/
def Fits (s : State) (i : ℕ) : Instance → Prop
  | .idle => True
  | .running pass => pass.Safe protocol (fun _ _ => True) s
  | .storing serial call next => (s.store.client ⟨i, serial⟩).op = some call ∧
      Safe protocol (fun _ _ => True) (.call (.repository call) next) s

/-- The request of a completed route is settled. -/
def Accounted (s : State) (routeId : String) : Prop :=
  ∃ request, s.kernel.routed routeId = some request ∧ Settled s request

section Frame
variable {s s' : State} {i : ℕ}

theorem Fits.mono {x : Instance} (h : Fits s i x) (hg : s.Grows s')
    (hop : ∀ c op, (s.store.client c).op = some op → (s'.store.client c).op = some op) :
    Fits s' i x := by
  cases x with
  | idle => trivial
  | running pass => exact Safe.stable h hg
  | storing serial call next => exact ⟨hop _ _ h.1, h.2.stable hg⟩

theorem Accounted.mono {routeId : String} (h : Accounted s routeId) (hg : s.Grows s') :
    Accounted s' routeId := by
  rcases h with ⟨request, hrouted, hs⟩
  exact ⟨request, hg.kernel.routed _ _ hrouted, hs.mono hg⟩

end Frame

variable [Sha256] [TextSearch]

structure Invariant (s : State) : Prop where
  store : Store.system.Reachable s.store
  fits : ∀ i, Fits s i (s.inst i)
  sent : ∀ call ∈ s.sent, Asks s (.kernel call)
  completed : ∀ routeId, s.kernel.Completed routeId → Accounted s routeId

namespace Invariant
variable {s : State} {i : ℕ}

theorem init (clock : ℤ) : Invariant (.initial clock) where
  store := .init ⟨clock, rfl⟩
  fits _ := trivial
  sent := by simp [State.initial]
  completed := by
    rintro routeId ⟨route, hroute, -⟩
    cases hroute

theorem setInst (h : Invariant s) {x : Instance} (hx : Fits s i x) : Invariant (s.setInst i x) where
  store := h.store
  fits := by
    intro j
    by_cases hj : j = i
    · subst hj
      rw [State.setInst_self]
      exact hx.mono ⟨.refl _, fun _ hp => hp⟩ fun _ _ hop => hop
    · rw [State.setInst_other s x hj]
      exact (h.fits j).mono ⟨.refl _, fun _ hp => hp⟩ fun _ _ hop => hop
  sent call hc := (h.sent call hc).mono ⟨.refl _, fun _ hp => hp⟩
  completed routeId hc := (h.completed routeId hc).mono ⟨.refl _, fun _ hp => hp⟩

/-- A change of the kernel that completes only accounted routes. -/
theorem setKernel (h : Invariant s) {k : Kernel} (hg : s.kernel.Grows k)
    (hc : ∀ routeId, k.Completed routeId → s.kernel.Completed routeId ∨ Accounted s routeId) :
    Invariant { s with kernel := k } where
  store := h.store
  fits j := (h.fits j).mono ⟨hg, fun _ hp => hp⟩ fun _ _ hop => hop
  sent call hcall := (h.sent call hcall).mono ⟨hg, fun _ hp => hp⟩
  completed := by
    intro routeId hx
    rcases hc routeId hx with hdone | ha
    · exact (h.completed routeId hdone).mono ⟨hg, fun _ hp => hp⟩
    · exact ha.mono ⟨hg, fun _ hp => hp⟩

/-- A call that was rightly made may be answered. -/
theorem respond (h : Invariant s) {call : KernelCall} {response : Response call.Body} {k : Kernel}
    (ha : Asks s (.kernel call)) (hr : s.kernel.respond call response = some k) :
    Invariant { s with kernel := k } := by
  apply h.setKernel (Kernel.grows_respond hr)
  intro routeId hx
  rcases Kernel.completed_respond hr hx with hdone | ⟨claimId, token, claim, rfl, hclaim, rfl⟩
  · exact .inl hdone
  · rcases ha with ⟨held, request, hheld, hrouted, hs⟩
    rw [hclaim] at hheld
    cases hheld
    exact .inr ⟨request, hrouted, hs⟩

/-- A step of the store keeps what is known and what its calls were asked. -/
theorem grows_store (h : Invariant s) {a : Store.Action} {store : Store.State}
    (hs : Store.step s.store a = some store) : s.Grows { s with store := store } ∧
      ∀ c op, (s.store.client c).op = some op → (store.client c).op = some op := by
  rcases h.store with ⟨t, ht⟩
  have hgrows : s.store.database.Grows store.database :=
    ((Store.invariant_of_trace (ht.step hs)).past (s.store, a) (by simp)).2
  exact ⟨⟨.refl _, fun r hp => hp.mono hgrows⟩,
    ((Store.invariant_of_trace ht).later (Store.step_moves hs)).op⟩

theorem setStore (h : Invariant s) {a : Store.Action} {store : Store.State}
    (hs : Store.step s.store a = some store) : Invariant { s with store := store } := by
  rcases h.grows_store hs with ⟨hg, hop⟩
  constructor
  · exact h.store.step hs
  · exact fun j => (h.fits j).mono hg hop
  · exact fun call hcall => (h.sent call hcall).mono hg
  · exact fun routeId hc => (h.completed routeId hc).mono hg

theorem setSent (h : Invariant s) {call : KernelCall} (ha : Asks s (.kernel call)) :
    Invariant { s with sent := call :: s.sent } where
  store := h.store
  fits j := (h.fits j).mono ⟨.refl _, fun _ hp => hp⟩ fun _ _ hop => hop
  sent := by
    intro x hx
    rcases List.mem_cons.mp hx with rfl | hx
    · exact ha.mono ⟨.refl _, fun _ hp => hp⟩
    · exact (h.sent x hx).mono ⟨.refl _, fun _ hp => hp⟩
  completed routeId hc := (h.completed routeId hc).mono ⟨.refl _, fun _ hp => hp⟩

/-- What a call of the store returned tells what it promises. -/
theorem stores_of_finished (h : Invariant s) {c : Call} {call : RepositoryCall}
    {res : RepositoryResult} {ans : call.Ans} (hc : s.store.client c = .finished call res)
    (ha : answerOf call res = some ans) : Stores s.store.database call ans := by
  rcases h.store with ⟨t, ht⟩
  cases call with
  | put requestId document =>
    rintro outcome rfl
    cases res with
    | put o =>
      cases ha
      exact Store.processed_of_finished (Store.invariant_of_trace ht) hc
    | get o => cases ha
    | search o => cases ha
  | get documentId version => trivial
  | search query limit => trivial

/-- After any answer a pass keeps its contract. -/
theorem fits_next (h : Invariant s) {op : PortOp} {next : op.Ans → Pass} {s' : State}
    {ans : op.Ans} (hi : s.inst i = .running (.call op next)) (hg : s.Grows s')
    (hl : Learns s' op ans) : Fits s' i (.running (next ans)) := by
  have hfit := h.fits i
  rw [hi] at hfit
  exact (Safe.of_call hfit).2 ans s' ⟨hg, hl⟩

theorem asks_of_running (h : Invariant s) {op : PortOp} {next : op.Ans → Pass}
    (hi : s.inst i = .running (.call op next)) : Asks s op := by
  have hfit := h.fits i
  rw [hi] at hfit
  exact (Safe.of_call hfit).1

theorem step {s' : State} {a : Action} (h : Invariant s) (hm : Moves s a s') : Invariant s' := by
  cases hm with
  | accept hk =>
    exact h.setKernel (Kernel.grows_accept hk) fun _ hx => .inl (Kernel.completed_accept hk hx)
  | addRoute hk =>
    exact h.setKernel (Kernel.grows_addRoute hk) fun _ hx => .inl (Kernel.completed_addRoute hk hx)
  | expire hk =>
    exact h.setKernel (Kernel.grows_expire hk) fun _ hx => .inl (Kernel.completed_expire hk hx)
  | arrive hsent hr => exact h.respond (h.sent _ hsent) hr
  | start leaseSeconds hi => exact h.setInst (keeps_workOnce leaseSeconds)
  | ask hi hr =>
    apply (h.respond (h.asks_of_running hi) hr).setInst
    exact h.fits_next hi ⟨Kernel.grows_respond hr, fun _ hp => hp⟩ (Kernel.tells_respond hr)
  | giveUp error hi =>
    apply (h.setSent (h.asks_of_running hi)).setInst
    exact h.fits_next hi ⟨.refl _, fun _ hp => hp⟩ (Kernel.tells_error error)
  | @invoke i serial call next store hi hs =>
    have hfit := h.fits i
    rw [hi] at hfit
    apply (h.setStore hs).setInst
    refine ⟨?_, Safe.stable hfit (h.grows_store hs).1⟩
    rw [Store.step_invoke hs]
    exact congrArg Store.Client.op Store.set_client_self
  | store ha hs => exact h.setStore hs
  | @answer i serial call op next res ans hi hc ha =>
    have hfit := h.fits i
    rw [hi] at hfit
    rcases hfit with ⟨hop, hsafe⟩
    rw [hc] at hop
    cases hop
    exact h.setInst ((Safe.of_call hsafe).2 ans s ⟨.refl s, h.stores_of_finished hc ha⟩)
  | finish hi => exact h.setInst trivial
  | @crash i store sent hstore hsent =>
    have hs : Invariant { s with store := store } := by
      rcases hstore with rfl | ⟨c, hc⟩
      · exact h
      · exact h.setStore hc
    rcases hsent with rfl | ⟨call, next, hi, rfl⟩
    · exact hs.setInst trivial
    · exact (hs.setSent (hs.asks_of_running hi)).setInst trivial

end Invariant

theorem invariant_of_reachable {s : State} (h : system.Reachable s) : Invariant s := by
  apply h.invariant
  · rintro s ⟨clock, rfl⟩
    exact .init clock
  · exact fun s a s' _ hs hstep => hs.step (step_moves hstep)

/-- What the kernel and the store agree on. -/
structure ExactlyOnce (s : State) : Prop where
  operation : ∀ requestId, (Store.operationsOf s.store requestId).length ≤ 1
  version : ∀ requestId, (Store.versionsOf s.store requestId).length ≤ 1
  completed : ∀ routeId request, s.kernel.Completed routeId →
    s.kernel.routed routeId = some request → request.action = putAction →
    ∃ requestId, UuidText.parse request.requestId = some requestId ∧
      Processed s.store.database requestId

/-- Whatever is lost, repeated or reordered, every request takes effect once. -/
theorem exactlyOnce_of_reachable {s : State} (h : system.Reachable s) : ExactlyOnce s := by
  have hinv := invariant_of_reachable h
  rcases hinv.store with ⟨t, ht⟩
  have hstore := Store.invariant_of_trace ht
  constructor
  · exact Store.operationsOf_length_le_one hstore.consistent
  · exact Store.versionsOf_length_le_one hstore
  · intro routeId request hdone hrouted hput
    rcases hinv.completed routeId hdone with ⟨request', hrouted', hsettled⟩
    rw [hrouted] at hrouted'
    cases hrouted'
    exact hsettled hput

end Safety

/-- Instance `i` claims the route and reads its request. -/
def claimRun (i : ℕ) : List Action :=
  [.start i 300, .ask i .eligibleRoutes ⟨200, .ok [⟨"route", sampleRequestId, "sub", "librarian", 0⟩]⟩,
    .ask i (.proposeClaim "route" 300) ⟨201, .ok (sampleClaim i)⟩,
    .ask i (.routedRequest "route") ⟨200, .ok sampleRequest⟩, .invoke i 0]

/-- Instance 0 commits the put and crashes; instance 1 claims the route again and completes it. -/
def recoveryRun : List Action :=
  .accept sampleRequest :: .addRoute "route" sampleRequestId :: claimRun 0 ++
    ((Store.execs ⟨0, 0⟩ 3 ++ .newUuid ⟨0, 0⟩ 7 :: Store.execs ⟨0, 0⟩ 7).map Action.store) ++
    .crash 0 :: .expire "route" :: claimRun 1 ++
    ((Store.execs ⟨1, 0⟩ 2 ++ [Store.Action.finish ⟨1, 0⟩ true]).map Action.store) ++
    [.answer 1, .ask 1 (.completeClaim "claim-1" 2) ⟨200, .ok (sampleClaim 1)⟩, .finish 1]

def recovered : Option State :=
  System.run (@step Store.sampleSha256 Store.sampleSearch sampleUuidText) (.initial 0) recoveryRun

theorem reachable_recovered (h : recovered.isSome = true) :
    (@system Store.sampleSha256 Store.sampleSearch sampleUuidText).Reachable (recovered.get h) := by
  have hstart : (@system Store.sampleSha256 Store.sampleSearch sampleUuidText).Trace []
    (.initial 0) := .start ⟨0, rfl⟩
  exact (System.trace_record (fun _ _ _ hs => hs) hstart (Option.eq_some_of_isSome h)).reachable

/-- The put is committed once although two instances performed it. -/
theorem exactlyOnce_recoveryRun :
    @ExactlyOnce sampleUuidText (recovered.get (by decide +kernel)) ∧
      (Store.operationsOf (recovered.get (by decide +kernel)).store 1).length = 1 ∧
      ((recovered.get (by decide +kernel)).kernel.routes "route").any (·.completed) :=
  ⟨@exactlyOnce_of_reachable sampleUuidText Store.sampleSha256 Store.sampleSearch _
    (reachable_recovered _), by decide +kernel⟩

end Librarian.Service
