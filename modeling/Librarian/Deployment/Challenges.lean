import Librarian.Deployment.Enrollment
import Librarian.Foundation.Termination

/-! # Challenges and enrollments over whole runs

A challenge enrolls one process. Processes that each ask for their own never get in each
other's way; of those that share an injected one, at most one enrolls.
-/
namespace Librarian.Deployment
open Foundation Program System Config Startup

variable {d : Surroundings} {s s' : State} {l l' : Ledger} {a : Action} {i j : ℕ} {c : Challenge}

/-- The challenge is one that process `i` enrolls with. -/
def Surroundings.Holds [UrlSafeNoPad] (d : Surroundings) (l : Ledger) (i : ℕ) (c : Challenge) : Prop :=
  (∃ text, d.var enrollmentChallengeEnv = some text ∧ decodeChallenge text = .ok c) ∨
    d.var enrollmentChallengeEnv = none ∧ (i, c) ∈ l.issued

/-- A start that did not succeed. -/
def Start.isLost : Start → Bool
  | .crashed | .finished (.error _) => true
  | _ => false

/-- What the kernel's record says about challenges and enrollments. -/
structure Ledger.Sound [UrlSafeNoPad] (d : Surroundings) (l : Ledger) : Prop where
  processes : (l.issued.map (·.1)).Nodup
  challenges : (l.issued.map (·.2)).Nodup
  enrolled : (l.grants.map (·.process)).Nodup
  spent : (l.grants.map (·.challenge)).Nodup
  holds : ∀ g ∈ l.grants, d.Holds l g.process g.challenge

section Ledgers

theorem mem_held : c ∈ (l.view i).held ↔ (i, c) ∈ l.issued := by
  simp only [Ledger.view, List.mem_map, List.mem_filter, decide_eq_true_eq]
  constructor
  · rintro ⟨⟨j, c'⟩, ⟨hmem, rfl⟩, rfl⟩
    exact hmem
  · intro hmem
    exact ⟨(i, c), ⟨hmem, rfl⟩, rfl⟩

theorem mem_leases {lease : RenewedLease} :
    lease ∈ (l.view i).leases ↔ ∃ g ∈ l.grants, g.process = i ∧ g.lease = lease := by
  simp [Ledger.view, and_assoc]

theorem view_issue_self : (l.issue i c).view i = { l.view i with held := c :: (l.view i).held } := by
  simp [Ledger.view, Ledger.issue]

theorem view_issue_other (h : j ≠ i) : (l.issue i c).view j = l.view j := by
  simp [Ledger.view, Ledger.issue, h.symm]

theorem Ledger.enroll_cases (l : Ledger) (g : Grant) :
    l.Outstanding g.challenge ∧ l.enroll g = ({ l with grants := g :: l.grants }, some g.lease) ∨
      ¬ l.Outstanding g.challenge ∧ l.enroll g = (l, none) := by
  by_cases h : l.Outstanding g.challenge
  · exact .inl ⟨h, if_pos h⟩
  · exact .inr ⟨h, if_neg h⟩

theorem view_enroll_other {g : Grant} (h : j ≠ g.process) : (l.enroll g).1.view j = l.view j := by
  rcases l.enroll_cases g with ⟨-, heq⟩ | ⟨-, heq⟩
  · rw [heq]
    simp [Ledger.view, h.symm]
  · rw [heq]

theorem issued_enroll (g : Grant) : (l.enroll g).1.issued = l.issued := by
  rcases l.enroll_cases g with ⟨-, heq⟩ | ⟨-, heq⟩ <;> rw [heq]

variable [UrlSafeNoPad]

theorem Surroundings.Holds.mono {c : Challenge} (h : d.Holds l i c) (hle : l.issued ⊆ l'.issued) :
    d.Holds l' i c := h.imp_right fun ⟨hnone, hmem⟩ => ⟨hnone, hle hmem⟩

theorem Surroundings.Chooses.holds (h : d.Chooses (l.view i) c) : d.Holds l i c := by
  refine h.imp_right ?_
  rintro ⟨hnone, hheld⟩
  exact ⟨hnone, mem_held.mp (by rw [hheld]; exact List.mem_singleton_self c)⟩

theorem Ledger.Sound.issue (h : l.Sound d) (hfresh : l.Fresh c) (hheld : (l.view i).held = []) :
    (l.issue i c).Sound d := by
  have hnew : i ∉ l.issued.map (·.1) := by
    intro hmem
    rcases List.mem_map.mp hmem with ⟨⟨k, c'⟩, hp, rfl⟩
    have hc := mem_held.mpr hp
    rw [hheld] at hc
    cases hc
  exact ⟨List.nodup_cons.mpr ⟨hnew, h.processes⟩, List.nodup_cons.mpr ⟨hfresh.2, h.challenges⟩,
    h.enrolled, h.spent, fun g hg => (h.holds g hg).mono (List.subset_cons_self _ _)⟩

/-- Two challenges of one process are the same. -/
theorem Ledger.Sound.eq_of_holds (h : l.Sound d) {c' : Challenge} (hc : d.Holds l i c)
    (hc' : d.Holds l i c') : c = c' := by
  rcases hc with ⟨text, hvar, hc⟩ | ⟨hvar, hc⟩
  · rcases hc' with ⟨text', hvar', hc'⟩ | ⟨hvar', -⟩
    · rw [hvar] at hvar'
      cases hvar'
      rw [hc] at hc'
      exact Except.ok.inj hc'
    · rw [hvar] at hvar'
      cases hvar'
  · rcases hc' with ⟨text', hvar', -⟩ | ⟨-, hc'⟩
    · rw [hvar] at hvar'
      cases hvar'
    · exact congrArg Prod.snd (List.inj_on_of_nodup_map h.processes hc hc' rfl)

theorem Ledger.Sound.enroll (h : l.Sound d) {g : Grant} (hg : d.Holds l g.process g.challenge) :
    (l.enroll g).1.Sound d := by
  rcases l.enroll_cases g with ⟨hout, heq⟩ | ⟨-, heq⟩
  · rw [heq]
    have hnew : g.process ∉ l.grants.map (·.process) := by
      intro hmem
      rcases List.mem_map.mp hmem with ⟨g', hg', hp⟩
      have hg'' := h.holds g' hg'
      rw [hp] at hg''
      exact hout.2 (List.mem_map.mpr ⟨g', hg', h.eq_of_holds hg'' hg⟩)
    refine ⟨h.processes, h.challenges, List.nodup_cons.mpr ⟨hnew, h.enrolled⟩,
      List.nodup_cons.mpr ⟨hout.2, h.spent⟩, ?_⟩
    intro g' hg'
    rcases List.mem_cons.mp hg' with rfl | hg'
    · exact hg
    · exact h.holds g' hg'
  · rw [heq]
    exact h

/-- A challenge that was issued to a process which has not enrolled is outstanding. -/
theorem Ledger.Sound.outstanding (h : l.Sound d) (hvar : d.var enrollmentChallengeEnv = none)
    (hc : (i, c) ∈ l.issued) (hnone : (l.view i).leases = []) : l.Outstanding c := by
  refine ⟨.inr (List.mem_map_of_mem hc), ?_⟩
  intro hmem
  rcases List.mem_map.mp hmem with ⟨g, hg, rfl⟩
  rcases h.holds g hg with ⟨text, hvar', -⟩ | ⟨-, hown⟩
  · rw [hvar] at hvar'
    cases hvar'
  · have hi : g.process = i := congrArg Prod.fst (List.inj_on_of_nodup_map h.challenges hown hc rfl)
    have hlease := mem_leases.mpr ⟨g, hg, hi, rfl⟩
    rw [hnone] at hlease
    cases hlease

end Ledgers

section Answers
variable {op : ConfigOp} {ans : op.Ans}

theorem Answered.view_other (h : Answered d l i op ans l') (hj : j ≠ i) : l'.view j = l.view j := by
  cases h with
  | issue delivered hfresh => exact view_issue_other hj
  | enroll lease delivered => exact view_enroll_other hj
  | _ => rfl

/-- What a process is told is what its protocol expects. -/
theorem Answered.after (h : Answered d l i op ans l') : After d i (l.view i) op ans (l'.view i) := by
  cases h with
  | proceeds hans =>
    cases op with
    | var name =>
      cases hans
      exact ⟨rfl, rfl⟩
    | requestChallenge => cases hans
    | enroll => cases hans
    | subscription => cases hans
    | _ => exact rfl
  | failure hans =>
    cases op with
    | requestChallenge =>
      cases hans
      exact fun c hc => by cases hc
    | enroll =>
      cases hans
      exact fun lease hlease => by cases hlease
    | var => cases hans
    | _ => exact rfl
  | issue delivered hfresh =>
    intro c' hc'
    cases delivered with
    | false => cases hc'
    | true =>
      cases hc'
      exact view_issue_self
  | @enroll _ _ _ _ c lease delivered =>
    intro granted hgranted
    cases delivered with
    | false => cases hgranted
    | true =>
      change (l.enroll ⟨i, c, lease⟩).2 = some granted at hgranted
      rcases l.enroll_cases ⟨i, c, lease⟩ with ⟨-, heq⟩ | ⟨-, heq⟩
      · rw [heq] at hgranted ⊢
        cases hgranted
        simp [Ledger.view]
      · rw [heq] at hgranted
        cases hgranted
  | subscription ans => exact rfl

theorem Answered.sound [UrlSafeNoPad] (h : Answered d l i op ans l') (hl : l.Sound d)
    (hpre : Before d (l.view i) op) : l'.Sound d := by
  cases h with
  | issue delivered hfresh => exact hl.issue hfresh hpre.2
  | enroll lease delivered => exact hl.enroll hpre.2.holds
  | _ => exact hl

theorem Answered.issued (h : Answered d l i op ans l') : l.issued ⊆ l'.issued := by
  cases h with
  | issue delivered hfresh => exact List.subset_cons_self _ _
  | enroll lease delivered =>
    rw [issued_enroll]
    exact List.Subset.refl _
  | _ => exact List.Subset.refl _

theorem refusal_failure [UrlSafeNoPad] [UuidText] (h : failure op = some ans) : ∃ e, refusal op ans = some e := by
  cases op with
  | var | readFile | readToString | subscription => cases h
  | _ =>
    cases h
    exact ⟨_, rfl⟩

end Answers

section Runs
variable [UrlSafeNoPad] [UuidText]

/-- How a process stands to the part of the kernel's record that is about it. -/
def Fits (d : Surroundings) (i : ℕ) (v : View) : Start → Prop
  | .idle => v = ⟨[], []⟩
  | .running rest => rest.Safe (enrolling d i)
      (fun w res => ∀ config, res = .ok config → Tracks d i w config.instanceLease) v ∧
        FailsFast refusal rest
  | .finished res => ∀ config, res = .ok config → Tracks d i v config.instanceLease
  | .crashed => True

structure Invariant (d : Surroundings) (s : State) : Prop where
  ledger : s.ledger.Sound d
  fits : ∀ i, Fits d i (s.ledger.view i) (s.start i)
  waiting : ∀ p ∈ s.abandoned, d.Holds s.ledger p.1 p.2 ∧ (s.start p.1).isLost = true

theorem fits_resume {rest : Rest} {v : View} (h : rest.Safe (enrolling d i)
    (fun w res => ∀ config, res = .ok config → Tracks d i w config.instanceLease) v)
    (hfast : FailsFast refusal rest) : Fits d i v (.resume rest) := by
  cases rest with
  | ret res => exact h.of_ret
  | call op next => exact ⟨h, hfast⟩

/-- The end of a start that was refused something. -/
theorem resume_refused {op : ConfigOp} {next : op.Ans → Rest} {ans : op.Ans} {e : ConfigError}
    (h : FailsFast refusal (.call op next)) (he : refusal op ans = some e) :
    Start.resume (next ans) = .finished (.error e) := by
  rw [(h ans).1 e he]
  rfl

theorem Invariant.fits_next (h : Invariant d s) {op : ConfigOp} {next : op.Ans → Rest}
    {ans : op.Ans} (hi : s.start i = .running (.call op next)) (ha : Answered d s.ledger i op ans l) :
    Before d (s.ledger.view i) op ∧ Fits d i (l.view i) (.resume (next ans)) := by
  have hfits := h.fits i
  rw [hi] at hfits
  rcases hfits with ⟨hsafe, hfast⟩
  rcases hsafe.of_call with ⟨hpre, hnext⟩
  refine ⟨hpre, ?_⟩
  cases hr : refusal op ans with
  | some e =>
    rw [resume_refused hfast hr]
    exact fun config hok => by cases hok
  | none => exact fits_resume (hnext ans _ ha.after) ((hfast ans).2 hr)

theorem Invariant.not_waiting (h : Invariant d s) (hi : (s.start i).isLost = false) {p : ℕ × Challenge}
    (hp : p ∈ s.abandoned) : p.1 ≠ i := by
  rintro rfl
  rw [(h.waiting p hp).2] at hi
  cases hi

/-- What a start is about to submit is a challenge of its own. -/
theorem Invariant.pending (h : Invariant d s) {rest : Rest} (hi : s.start i = .running rest) :
    ∀ p ∈ (s.start i).pendingEnrollment i, p.1 = i ∧ d.Holds s.ledger p.1 p.2 := by
  intro p hp
  have hfits := h.fits i
  rw [hi] at hp hfits
  cases rest with
  | ret => cases hp
  | call op next =>
    cases op with
    | enroll baseUrl c endpoint podUid token =>
      obtain rfl := List.mem_singleton.mp hp
      exact ⟨rfl, hfits.1.of_call.1.2.holds⟩
    | _ => cases hp

/-- A start that failed with something pending is lost. -/
theorem Invariant.lost_of_failure (h : Invariant d s) {op : ConfigOp} {next : op.Ans → Rest}
    {ans : op.Ans} (hi : s.start i = .running (.call op next)) (hfail : failure op = some ans) :
    (Start.resume (next ans)).isLost = true := by
  have hfits := h.fits i
  rw [hi] at hfits
  rcases refusal_failure hfail with ⟨e, he⟩
  rw [resume_refused hfits.2 he]
  rfl

theorem fits_of_isLost {start : Start} (h : start.isLost = true) (v : View) : Fits d i v start := by
  cases start with
  | idle => cases h
  | running rest => cases h
  | finished res =>
    cases res with
    | ok config => cases h
    | error e => exact fun config hok => by cases hok
  | crashed => trivial

/-- One process moves on, and the record about the others stays. -/
theorem fits_set {start : Start} (h : ∀ j, j ≠ i → Fits d j (l.view j) (s.start j))
    (hi : Fits d i (l.view i) start) (j : ℕ) : Fits d j (l.view j) ((s.set i start).start j) := by
  by_cases hj : j = i
  · rw [hj, State.set_self]
    exact hi
  · rw [State.set_other s _ hj]
    exact h j hj

theorem Invariant.begin (h : Invariant d s) (hi : s.start i = .idle) :
    Invariant d (s.set i (.resume fromEnv.run)) := by
  have hnew := h.fits i
  rw [hi] at hnew
  refine ⟨h.ledger, fits_set (fun j _ => h.fits j)
    (fits_resume (keeps_fromEnv hnew) failsFast_fromEnv), ?_⟩
  intro p hp
  rw [State.set_other s _ (h.not_waiting (by rw [hi]; rfl) hp)]
  exact h.waiting p hp

theorem Invariant.answered (h : Invariant d s) {op : ConfigOp} {next : op.Ans → Rest} {ans : op.Ans}
    (hi : s.start i = .running (.call op next)) (ha : Answered d s.ledger i op ans l)
    {abandoned : List (ℕ × Challenge)} (hab : abandoned = s.abandoned ∨ failure op = some ans ∧
      abandoned = (s.start i).pendingEnrollment i ++ s.abandoned) :
    Invariant d { s.set i (.resume (next ans)) with ledger := l, abandoned := abandoned } := by
  rcases h.fits_next hi ha with ⟨hpre, hfits⟩
  have hold : ∀ p ∈ s.abandoned, d.Holds l p.1 p.2 ∧
      ((s.set i (.resume (next ans))).start p.1).isLost = true := by
    intro p hp
    rw [State.set_other s _ (h.not_waiting (by rw [hi]; rfl) hp)]
    exact ⟨(h.waiting p hp).1.mono ha.issued, (h.waiting p hp).2⟩
  have hothers : ∀ j, j ≠ i → Fits d j (l.view j) (s.start j) := by
    intro j hj
    rw [ha.view_other hj]
    exact h.fits j
  refine ⟨ha.sound h.ledger hpre, fits_set hothers hfits, ?_⟩
  rcases hab with rfl | ⟨hfail, rfl⟩
  · exact hold
  · intro p hp
    rcases List.mem_append.mp hp with hp | hp
    · rcases h.pending hi p hp with ⟨hpi, hholds⟩
      refine ⟨hholds.mono ha.issued, ?_⟩
      change ((s.set i (.resume (next ans))).start p.1).isLost = true
      rw [hpi, State.set_self]
      exact h.lost_of_failure hi hfail
    · exact hold p hp

theorem Invariant.crash (h : Invariant d s) {rest : Rest} (hi : s.start i = .running rest) :
    Invariant d { s.set i .crashed with
      abandoned := (s.start i).pendingEnrollment i ++ s.abandoned } := by
  refine ⟨h.ledger, fits_set (fun j _ => h.fits j) trivial, ?_⟩
  intro p hp
  change d.Holds s.ledger p.1 p.2 ∧ ((s.set i .crashed).start p.1).isLost = true
  rcases List.mem_append.mp hp with hp | hp
  · rcases h.pending hi p hp with ⟨hpi, hholds⟩
    refine ⟨hholds, ?_⟩
    rw [hpi, State.set_self]
    rfl
  · rw [State.set_other s _ (h.not_waiting (by rw [hi]; rfl) hp)]
    exact h.waiting p hp

theorem Invariant.arrive (h : Invariant d s) (hmem : (i, c) ∈ s.abandoned) (lease : RenewedLease) :
    Invariant d { s with ledger := (s.ledger.enroll ⟨i, c, lease⟩).1 } := by
  have hlost := h.waiting _ hmem
  refine ⟨h.ledger.enroll hlost.1, ?_, ?_⟩
  · intro j
    by_cases hj : j = i
    · rw [hj]
      exact fits_of_isLost hlost.2 _
    · change Fits d j ((s.ledger.enroll ⟨i, c, lease⟩).1.view j) (s.start j)
      rw [view_enroll_other hj]
      exact h.fits j
  · intro p hp
    refine ⟨(h.waiting p hp).1.mono ?_, (h.waiting p hp).2⟩
    rw [issued_enroll]
    exact List.Subset.refl _

theorem Invariant.step (h : Invariant d s) (hm : Moves d s a s') : Invariant d s' := by
  cases hm with
  | begin hi => exact h.begin hi
  | answered hi ha hab => exact h.answered hi ha hab
  | crash hi => exact h.crash hi
  | arrive lease hmem => exact h.arrive hmem lease

theorem invariant_of_reachable (h : (system d).Reachable s) : Invariant d s := by
  apply h.invariant
  · rintro s ⟨hissued, hgrants, hidle, habandoned⟩
    refine ⟨?_, ?_, ?_⟩
    · constructor <;> simp [hissued, hgrants]
    · intro i
      rw [hidle i]
      simp [Fits, Ledger.view, hissued, hgrants]
    · simp [habandoned]
  · exact fun s a s' _ hs hstep => hs.step (step_moves hstep)

end Runs
end Librarian.Deployment
