import Librarian.Deployment.Challenges

/-! # Every process of a deployment can enroll

A process that asks for its own challenge can always start, whatever became of the others.
-/
namespace Librarian.Deployment
open Foundation Program System Config Startup

/-- The steps of process `i` that nothing goes wrong with. -/
def Regular (i : ℕ) : Action → Prop
  | .begin j | .proceed j => j = i
  | .issue j _ delivered | .enroll j _ delivered => j = i ∧ delivered = true
  | .subscription j op ans => j = i ∧ refusedSubscription op ans = none
  | _ => False

theorem errorOf_orError {α : Type} {error : ConfigError} {value : Option α} (h : value.isSome) :
    errorOf (orError error value) = none := by
  cases value with
  | none => cases h
  | some a => rfl

variable [UrlSafeNoPad] [UuidText]

/-- Process `i` finds all it needs, and no challenge was injected. -/
structure Surroundings.Complete (d : Surroundings) (i : ℕ) : Prop where
  readable : ∀ name, refusedVar name (d.varOf i name) = none
  certificate : ∀ path, d.var kernelCaCertPathEnv = some path → (d.readFile path).isSome
  token : (d.readToString i ((d.var workloadTokenPathEnv).getD defaultWorkloadTokenPath)).isSome
  challenge : d.var enrollmentChallengeEnv = none

variable {d : Surroundings} {s s' : State} {i : ℕ}

/-- One step of process `i`, which is told `ans`. -/
structure Proceeds (d : Surroundings) (i : ℕ) (s : State) (op : ConfigOp) (ans : op.Ans)
    (start : Start) (s' : State) : Prop where
  step : ∃ a, Regular i a ∧ step d s a = some s'
  accepted : refusal op ans = none
  own : s'.start i = start
  others : ∀ j ≠ i, s'.start j = s.start j
  fresh : ((s.ledger.view i).held = [] → ∃ c, s.ledger.Fresh c) →
    (s'.ledger.view i).held = [] → ∃ c, s'.ledger.Fresh c

theorem proceeds_alone {op : ConfigOp} {next : op.Ans → Rest} {ans : op.Ans}
    (hi : s.start i = .running (.call op next)) (h : proceeds d i op = some ans)
    (hr : refusal op ans = none) :
    Proceeds d i s op ans (.resume (next ans)) (s.set i (.resume (next ans))) where
  step := ⟨.proceed i, rfl, by simp [step, hi, h]⟩
  accepted := hr
  own := State.set_self _ _ _
  others := fun j hj => State.set_other s _ hj
  fresh := fun h => h

/-- A process can always take its next step, with an answer that lets it go on. -/
theorem exists_proceeds (hc : d.Complete i) (hinv : Invariant d s) {op : ConfigOp}
    {next : op.Ans → Rest} (hi : s.start i = .running (.call op next))
    (hfresh : (s.ledger.view i).held = [] → ∃ c, s.ledger.Fresh c) :
    ∃ ans s', Proceeds d i s op ans (.resume (next ans)) s' := by
  have hfits := hinv.fits i
  rw [hi] at hfits
  have hpre := hfits.1.of_call.1
  cases op with
  | var name => exact ⟨_, _, proceeds_alone hi rfl (hc.readable name)⟩
  | readFile path => exact ⟨_, _, proceeds_alone hi rfl (errorOf_orError (hc.certificate path hpre))⟩
  | readToString path =>
    obtain rfl : path = _ := hpre
    exact ⟨_, _, proceeds_alone hi rfl (errorOf_orError hc.token)⟩
  | requestChallenge baseUrl podUid token =>
    rcases hfresh hpre.2 with ⟨c, hfresh⟩
    refine ⟨some c, { s.set i (.resume (next (some c))) with ledger := s.ledger.issue i c },
      ⟨.issue i c true, ⟨rfl, rfl⟩, ?_⟩, rfl, State.set_self s i _,
      fun j hj => State.set_other s _ hj, ?_⟩
    · simp [step, hi, hfresh]
    · intro _ hnone
      rw [view_issue_self] at hnone
      cases hnone
  | enroll baseUrl c endpoint podUid token =>
    have hout : s.ledger.Outstanding c := by
      rcases hpre.2 with ⟨text, hvar, -⟩ | ⟨hvar, hheld⟩
      · rw [hc.challenge] at hvar
        cases hvar
      · refine hinv.ledger.outstanding hvar (mem_held.mp ?_) hpre.1
        rw [hheld]
        exact List.mem_singleton_self c
    have henroll : s.ledger.enroll ⟨i, c, ⟨0, 0⟩⟩ =
        ({ s.ledger with grants := ⟨i, c, ⟨0, 0⟩⟩ :: s.ledger.grants }, some ⟨0, 0⟩) := if_pos hout
    refine ⟨some ⟨0, 0⟩, { s.set i (.resume (next (some ⟨0, 0⟩))) with
        ledger := { s.ledger with grants := ⟨i, c, ⟨0, 0⟩⟩ :: s.ledger.grants } },
      ⟨.enroll i ⟨0, 0⟩ true, ⟨rfl, rfl⟩, ?_⟩, rfl, State.set_self s i _,
      fun j hj => State.set_other s _ hj, fun h => h⟩
    simp [step, hi, henroll]
  | subscription op =>
    cases op with
    | activeSubscriptions =>
      refine ⟨.ok [], s.set i (.resume (next (.ok []))),
        ⟨.subscription i .activeSubscriptions (.ok []), ⟨rfl, rfl⟩, ?_⟩, rfl, State.set_self s i _,
        fun j hj => State.set_other s _ hj, fun h => h⟩
      simp [step, hi]
    | createSubscription eventType =>
      let new : Subscription := ⟨"", "", eventType, 0, none, true⟩
      refine ⟨.ok new, s.set i (.resume (next (.ok new))),
        ⟨.subscription i (.createSubscription eventType) (.ok new), ⟨rfl, rfl⟩, ?_⟩, rfl,
        State.set_self s i _, fun j hj => State.set_other s _ hj, fun h => h⟩
      simp [step, hi]
  | _ => exact ⟨_, _, proceeds_alone hi rfl rfl⟩

/-- Steps of process `i` that nothing goes wrong with take it to its loop. -/
def CanFinish (d : Surroundings) (i : ℕ) (s : State) : Prop :=
  ∃ s' config, Leads (step d) (Regular i) s s' ∧ s'.start i = .finished (.ok config) ∧
    ∀ j ≠ i, s'.start j = s.start j

theorem canFinish_of_resume (hc : d.Complete i) (h : (system d).Reachable s) {rest : Rest}
    (hi : s.start i = .resume rest) (hfast : FailsFast refusal rest)
    (hfresh : (s.ledger.view i).held = [] → ∃ c, s.ledger.Fresh c) : CanFinish d i s := by
  induction rest generalizing s with
  | ret res =>
    cases res with
    | ok config => exact ⟨s, config, .refl s, hi, fun _ _ => rfl⟩
    | error e => exact hfast.elim
  | call op next ih =>
    rcases exists_proceeds hc (invariant_of_reachable h) hi hfresh with ⟨ans, x, hx⟩
    rcases hx.step with ⟨a, ha, hs⟩
    rcases ih ans (h.step hs) hx.own ((hfast ans).2 hx.accepted) (hx.fresh hfresh) with
      ⟨s', config, hleads, hdone, hothers⟩
    exact ⟨s', config, hleads.head ha hs, hdone, fun j hj => (hothers j hj).trans (hx.others j hj)⟩

/-- A process that has not started can start. -/
theorem canFinish_of_idle (hc : d.Complete i) (h : (system d).Reachable s)
    (hi : s.start i = .idle) (hfresh : ∃ c, s.ledger.Fresh c) : CanFinish d i s := by
  have hbegin : Regular i (.begin i) := rfl
  have hs : step d s (.begin i) = some (s.set i (.resume fromEnv.run)) := by simp [step, hi]
  rcases canFinish_of_resume hc (h.step hs) (State.set_self s i _) failsFast_fromEnv fun _ => hfresh with
    ⟨s', config, hleads, hdone, hothers⟩
  exact ⟨s', config, hleads.head hbegin hs, hdone,
    fun j hj => (hothers j hj).trans (State.set_other s _ hj)⟩

/-- What the single use of challenges means for the processes of a deployment. -/
structure SingleUse (d : Surroundings) (s : State) : Prop where
  tracked : ∀ i config, s.start i = .finished (.ok config) →
    (config.instanceLease.isSome ↔ d.Enrolls i) ∧ ∀ lease, config.instanceLease = some lease →
      ∃ g ∈ s.ledger.grants, g.process = i ∧ lease = ⟨g.lease.leaseRevision, g.lease.leaseExpiresAt⟩
  once : (s.ledger.grants.map (·.process)).Nodup ∧ (s.ledger.grants.map (·.challenge)).Nodup
  shared : ∀ text, d.var enrollmentChallengeEnv = some text → ∀ g ∈ s.ledger.grants,
    ∀ g' ∈ s.ledger.grants, g = g'
  own : d.var enrollmentChallengeEnv = none → ∀ i baseUrl c endpoint podUid token next,
    s.start i = .running (.call (.enroll baseUrl c endpoint podUid token) next) →
      s.ledger.Outstanding c
  startable : ∀ i, d.Complete i → s.start i = .idle → (∃ c, s.ledger.Fresh c) → CanFinish d i s

omit [UrlSafeNoPad] [UuidText] in
theorem Tracks.granted {lease : Option InstanceLease} {l : Ledger} (h : Tracks d i (l.view i) lease)
    {tracked : InstanceLease} (hl : lease = some tracked) : ∃ g ∈ l.grants, g.process = i ∧
      tracked = ⟨g.lease.leaseRevision, g.lease.leaseExpiresAt⟩ := by
  have hmem : tracked ∈ (l.view i).leases.map fun x => ⟨x.leaseRevision, x.leaseExpiresAt⟩ := by
    rw [← h.1, hl]
    exact List.mem_singleton_self tracked
  rcases List.mem_map.mp hmem with ⟨lease, hlease, rfl⟩
  rcases mem_leases.mp hlease with ⟨g, hg, hi, rfl⟩
  exact ⟨g, hg, hi, rfl⟩

theorem singleUse_of_reachable (h : (system d).Reachable s) : SingleUse d s := by
  have hinv := invariant_of_reachable h
  constructor
  · intro i config hi
    have hfits := hinv.fits i
    rw [hi] at hfits
    have htracks := hfits config rfl
    exact ⟨htracks.2, fun lease hlease => htracks.granted hlease⟩
  · exact ⟨hinv.ledger.enrolled, hinv.ledger.spent⟩
  · intro text hvar g hg g' hg'
    -- all grants used the challenge that was injected, which was used once
    apply List.inj_on_of_nodup_map hinv.ledger.spent hg hg'
    have hdecoded : ∀ x ∈ s.ledger.grants, decodeChallenge text = .ok x.challenge := by
      intro x hx
      rcases hinv.ledger.holds x hx with ⟨text', hvar', hx⟩ | ⟨hvar', -⟩
      · rw [hvar] at hvar'
        cases hvar'
        exact hx
      · rw [hvar] at hvar'
        cases hvar'
    exact Except.ok.inj ((hdecoded g hg).symm.trans (hdecoded g' hg'))
  · intro hvar i baseUrl c endpoint podUid token next hi
    have hfits := hinv.fits i
    rw [hi] at hfits
    rcases hfits.1.of_call.1 with ⟨hnone, hchoice⟩
    rcases hchoice.holds with ⟨text, hvar', -⟩ | ⟨-, hissued⟩
    · rw [hvar] at hvar'
      cases hvar'
    · exact hinv.ledger.outstanding hvar hissued hnone
  · exact fun i hc hi hfresh => canFinish_of_idle hc h hi hfresh

/-- A template without a challenge, in pods that know their names. -/
def sampleSurroundings : Surroundings where
  var name :=
    if name = kernelAuthorityEnv then some "infernal-law"
    else if name = librarianServiceIdEnv then some sampleRequestId
    else if name = serviceEndpointEnv then some "https://infernal-librarian-simple"
    else if name = databaseUrlEnv then some "postgres://librarian"
    else none
  podUid _ := some "pod"
  readFile _ := none
  readToString _ _ := some "token"

def sampleState : State := ⟨⟨[], [], []⟩, fun _ => .idle, []⟩

/-- The kernel enrolls the first process, whose answer is lost, while the second one starts. -/
def lostRun : List Action :=
  .begin 0 :: List.replicate 11 (.proceed 0) ++
    [.issue 0 (Vector.replicate 32 7) true, .begin 1, .enroll 0 ⟨60, 1⟩ false]

omit [UrlSafeNoPad] [UuidText] in
theorem singleUse_lostRun : ∃ s,
    System.run (@step sampleUrlSafeNoPad sampleUuidText sampleSurroundings) sampleState lostRun = some s ∧
    @SingleUse sampleUrlSafeNoPad sampleUuidText sampleSurroundings s := by
  have hsome : (System.run (@step sampleUrlSafeNoPad sampleUuidText sampleSurroundings) sampleState lostRun).isSome = true :=
    rfl
  have hrun := Option.eq_some_of_isSome hsome
  have hstart : (@system sampleUrlSafeNoPad sampleUuidText sampleSurroundings).Trace [] sampleState :=
    .start ⟨rfl, rfl, fun _ => rfl, rfl⟩
  have htrace := System.trace_record (fun _ _ _ hs => hs) hstart hrun
  exact ⟨_, hrun, @singleUse_of_reachable sampleUrlSafeNoPad sampleUuidText _ _ htrace.reachable⟩

end Librarian.Deployment
