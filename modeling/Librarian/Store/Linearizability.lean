import Librarian.Foundation.Linearizability
import Librarian.Store.Changes
import Mathlib.Data.Nat.Find

/-! # The store is linearizable

A put that commits takes effect when it commits; every other call takes effect at one of
its own steps. A put whose commit was sent and never acknowledged stays pending: it has
told its client nothing and may take effect later, once.
-/
namespace Librarian.Store
open Foundation Postgres PostgresDocumentRepository Program System

instance (db : Database) (c : Call) : Decidable (Unsent db c) := inferInstanceAs (Decidable (_ ∧ _))

/-- The call is a `put` or a `get`. -/
def isStore : RepositoryCall → Bool
  | .search _ _ => false
  | _ => true

/-- What a client sees of one action. An error that hides the fate of a commit is no answer. -/
def event (p : State × Action) : Option (Event Call RepositoryCall RepositoryResult) :=
  match p.2 with
  | .invoke c op => if isStore op then some (.invoke c op) else none
  | .finish c _ =>
    match p.1.client c with
    | .running op (.ret res) =>
      if isStore op = true ∧ (res.isFailure = true → Unsent p.1.database c) then
        some (.respond c res)
      else none
    | _ => none
  | _ => none

/-- The calls of `put` and `get` in a run and their answers, in real time. -/
def history (t : List (State × Action)) : List (Event Call RepositoryCall RepositoryResult) :=
  t.filterMap event

theorem event_eq_invoke {p : State × Action} {c : Call} {op : RepositoryCall}
    (h : event p = some (.invoke c op)) : p.2 = .invoke c op := by
  rcases p with ⟨s, a⟩
  cases a with
  | invoke x op' =>
    simp only [event] at h
    split at h
    · cases h
      rfl
    · cases h
  | finish x b =>
    simp only [event] at h
    split at h
    · split at h <;> cases h
    · cases h
  | _ => cases h

theorem event_eq_respond {p : State × Action} {c : Call} {res : RepositoryResult}
    (h : event p = some (.respond c res)) : ∃ b op, p.2 = .finish c b ∧
      p.1.client c = .running op (.ret res) ∧ isStore op = true ∧
      (res.isFailure = true → Unsent p.1.database c) := by
  rcases p with ⟨s, a⟩
  cases a with
  | invoke x op' =>
    simp only [event] at h
    split at h <;> cases h
  | finish x b =>
    simp only [event] at h
    split at h
    · rename_i op res' hc
      split at h
      · rename_i hcond
        cases h
        exact ⟨b, op, rfl, hc, hcond.1, hcond.2⟩
      · cases h
    · cases h
  | _ => cases h

theorem library_initial (clock : ℤ) : (Database.empty clock).library = Library.empty := rfl

section Traces
variable [Sha256] [TextSearch] {t : List (State × Action)} {s : State} {c : Call}
  {op : RepositoryCall} {res : RepositoryResult} {i j : ℕ}

section Run

theorem later_of_le (h : system.Trace t s) (hij : i ≤ j) :
    Later (stateAt t s i) (stateAt t s j) := by
  apply h.monotone Later.refl Later.trans _ hij
  rintro x a y ⟨u, hu⟩ hs
  exact (invariant_of_trace hu).later (step_moves hs)

theorem later_last (h : system.Trace t s) (hi : i ≤ t.length) : Later (stateAt t s i) s := by
  have := later_of_le h hi
  rwa [stateAt_length] at this

theorem moves_at (h : system.Trace t s) {x : State} {a : Action} (hi : t[i]? = some (x, a)) :
    Moves x a (stateAt t s (i + 1)) := step_moves (h.step_at hi)

theorem invariant_at (h : system.Trace t s) (i : ℕ) : Invariant (t.take i) (stateAt t s i) :=
  invariant_of_trace (h.take i)

/-- What no transaction that has not begun satisfies begins to hold at some step. -/
theorem exists_switch_status (h : system.Trace t s) {P : TxStatus → Prop} {j : ℕ} (hidle : ¬ P .idle)
    (hj : P ((stateAt t s j).database.status c)) :
    ∃ i < j, ¬ P ((stateAt t s i).database.status c) ∧
      P ((stateAt t s (i + 1)).database.status c) := by
  apply exists_switch (P := fun i => P ((stateAt t s i).database.status c)) _ hj
  rcases h.init_at with ⟨clock, h0⟩
  rw [h0]
  exact hidle

/-- A call that has been asked something was invoked before. -/
theorem exists_invoke (h : system.Trace t s) (hop : (s.client c).op = some op) :
    ∃ (k : ℕ) (x : State), t[k]? = some (x, Action.invoke c op) := by
  induction h with
  | start hinit =>
    rcases hinit with ⟨clock, rfl⟩
    cases hop
  | @step t y y' a ht hs ih =>
    have hold : (y.client c).op = some op →
        ∃ (k : ℕ) (x : State), (t ++ [(y, a)])[k]? = some (x, Action.invoke c op) := by
      intro hy
      rcases ih hy with ⟨k, x, hk⟩
      refine ⟨k, x, ?_⟩
      rw [List.getElem?_append_left (List.getElem?_eq_some_iff.mp hk).1, hk]
    cases hy : (y.client c).op with
    | none =>
      rw [((step_moves hs).invoke_of_op hy hop).2.1]
      exact ⟨t.length, y, by simp⟩
    | some op' =>
      have hkept := ((invariant_of_trace ht).later (step_moves hs)).op c op' hy
      exact hold (hy.trans (hkept.symm.trans hop))

theorem idle_of_invoke (h : system.Trace t s) {x : State}
    (hi : t[i]? = some (x, Action.invoke c op)) : x.client c = .idle := by
  have hs : step x (.invoke c op) = some (stateAt t s (i + 1)) := h.step_at hi
  simp only [step] at hs
  split at hs
  · assumption
  · cases hs

end Run

section Effects

/-- `c` returned `res` and its transaction is no longer going to commit. -/
structure Settled (s : State) (c : Call) (op : RepositoryCall) (res : RepositoryResult) :
    Prop where
  finished : s.client c = .finished op res
  unsent : Unsent s.database c
  store : isStore op = true

/-- At its `i`-th step the client of `c` acts and the library would answer `res`. -/
def OwnStep (t : List (State × Action)) (c : Call) (op : RepositoryCall) (res : RepositoryResult)
    (i : ℕ) : Prop :=
  ∃ x a, t[i]? = some (x, a) ∧ a.actor = some c ∧
    x.database.library.StepOrFail op res x.database.library

/-- Which call takes effect at the `i`-th step of a run. -/
inductive Takes (t : List (State × Action)) (s : State) (i : ℕ) :
    Entry Call RepositoryCall RepositoryResult → Prop
  | commit {c : Call} {r : Uuid} {document : PutDocument} {o : PutOperationRow}
      (hop : ((stateAt t s i).client c).op = some (.put r document))
      (hbefore : (stateAt t s i).database.status c ≠ .committed)
      (hafter : (stateAt t s (i + 1)).database.status c = .committed)
      (ho : ((stateAt t s i).database.footprint c).operations = [o]) :
      Takes t s i ⟨c, .put r document, .put (.ok ⟨o.documentId, o.version, false⟩)⟩
  | own {c : Call} {op : RepositoryCall} {res : RepositoryResult} (hend : Settled s c op res)
      (hown : OwnStep t c op res i) (hfirst : ∀ k < i, ¬ OwnStep t c op res k) :
      Takes t s i ⟨c, op, res⟩

/-- A settled call never commits. -/
theorem Settled.not_committed (h : system.Trace t s) (hs : Settled s c op res)
    (hi : i ≤ t.length) : (stateAt t s i).database.status c ≠ .committed :=
  fun hc => hs.unsent.2 ((later_last h hi).committed c hc)

/-- When a status becomes committed, that step commits the call. -/
theorem commits_of_switch (h : system.Trace t s) (hi : i < t.length)
    (hbefore : (stateAt t s i).database.status c ≠ .committed)
    (hafter : (stateAt t s (i + 1)).database.status c = .committed) :
    ∃ a, t[i]? = some (stateAt t s i, a) ∧
      Commits (stateAt t s i).database c (stateAt t s (i + 1)).database ∧
      (a.actor = some c ∨ a.actor = none) := by
  rcases exists_action s hi with ⟨a, ha⟩
  refine ⟨a, ha, ?_⟩
  rcases (invariant_at h i).calm_or_commits (moves_at h ha) with ⟨x, hcalm⟩ | ⟨x, hcommits, hx⟩
  · exact absurd ((hcalm.committed c).mp hafter) hbefore
  · by_cases hcx : c = x
    · subst hcx
      exact ⟨hcommits, hx⟩
    · rw [hcommits.other hcx] at hafter
      exact absurd hafter hbefore

/-- A committing call is a put with one version and one put operation. -/
theorem exists_put_of_commits (h : system.Trace t s) {db : Database}
    (hc : Commits (stateAt t s i).database c db) :
    ∃ r document v o, ((stateAt t s i).client c).op = some (.put r document) ∧
      ((stateAt t s i).database.footprint c).WrittenBy r document ∧
      ((stateAt t s i).database.footprint c).versions = [v] ∧
      ((stateAt t s i).database.footprint c).operations = [o] ∧ v.key = o.key := by
  have hinv := invariant_at h i
  have hwf := hinv.consistent.wellFormed c
  rcases List.exists_mem_of_ne_nil _ hc.operations with ⟨o, ho⟩
  rcases hwf.recorded o ho with ⟨v, hv, hk⟩
  rcases writtenBy_of_version hinv hv with ⟨r, document, hop, hw⟩
  exact ⟨r, document, v, o, hop, hw, eq_singleton_of_mem hwf.version hv,
    eq_singleton_of_mem hwf.operation ho, hk⟩

/-- An own step of a settled call leaves the library as it is. -/
theorem library_of_own (h : system.Trace t s) (hs : Settled s c op res) {x : State} {a : Action}
    (hi : t[i]? = some (x, a)) (ha : a.actor = some c) :
    (stateAt t s (i + 1)).database.library = x.database.library := by
  have hlt := (List.getElem?_eq_some_iff.mp hi).1
  have hx := stateAt_get (s := s) hi
  have hinv := invariant_at h i
  rw [hx] at hinv
  rcases hinv.calm_or_commits (moves_at h hi) with ⟨y, hcalm⟩ | ⟨y, hcommits, hy⟩
  · exact hcalm.library
  · rcases hy with hy | hy
    · obtain rfl := Option.some.inj (ha.symm.trans hy)
      exact absurd hcommits.self (hs.not_committed h (by omega))
    · simp [ha] at hy

/-- At most one call takes effect at a step. -/
theorem Takes.unique (h : system.Trace t s) (hi : i < t.length)
    {e f : Entry Call RepositoryCall RepositoryResult} (he : Takes t s i e) (hf : Takes t s i f) :
    e = f := by
  -- the committing call acts itself or nobody does
  have hmixed : ∀ {c c' : Call} {op : RepositoryCall} {res : RepositoryResult},
      (stateAt t s i).database.status c ≠ .committed →
      (stateAt t s (i + 1)).database.status c = .committed → Settled s c' op res →
      OwnStep t c' op res i → False := by
    intro c c' op res hbefore hafter hend hown
    rcases commits_of_switch h hi hbefore hafter with ⟨a, ha, -, hactor⟩
    rcases hown with ⟨x, a', ha', hactor', -⟩
    rw [ha] at ha'
    cases ha'
    rcases hactor with hactor | hactor
    · obtain rfl := Option.some.inj (hactor'.symm.trans hactor)
      exact hend.not_committed h (by omega) hafter
    · simp [hactor'] at hactor
  cases he with
  | @commit c r document o hop hbefore hafter ho =>
    cases hf with
    | @commit c' r' document' o' hop' hbefore' hafter' ho' =>
      rcases commits_of_switch h hi hbefore hafter with ⟨-, -, hcommits, -⟩
      obtain rfl : c' = c := by
        by_contra hne
        rw [hcommits.other hne] at hafter'
        exact hbefore' hafter'
      rw [hop] at hop'
      rw [ho] at ho'
      cases hop'
      cases ho'
      rfl
    | own hend hown => exact (hmixed hbefore hafter hend hown).elim
  | @own c op res hend hown hfirst =>
    cases hf with
    | commit hop hbefore hafter ho => exact (hmixed hbefore hafter hend hown).elim
    | @own c' op' res' hend' hown' hfirst' =>
      rcases hown with ⟨x, a, ha, hactor, -⟩
      rcases hown' with ⟨x', a', ha', hactor', -⟩
      rw [ha] at ha'
      cases ha'
      obtain rfl := Option.some.inj (hactor.symm.trans hactor')
      have hfin := hend.finished.symm.trans hend'.finished
      cases hfin
      rfl

theorem Takes.once (h : system.Trace t s) (hi : i < t.length) (hj : j < t.length)
    {e f : Entry Call RepositoryCall RepositoryResult} (he : Takes t s i e) (hf : Takes t s j f)
    (hcall : e.call = f.call) : i = j := by
  -- once committed, always committed
  have hlate : ∀ {c : Call} {i j : ℕ}, (stateAt t s (i + 1)).database.status c = .committed →
      (stateAt t s j).database.status c ≠ .committed → j ≤ i := by
    intro c i j hafter hbefore
    by_contra hij
    exact hbefore ((later_of_le h (by omega : i + 1 ≤ j)).committed c hafter)
  cases he with
  | commit hop hbefore hafter ho =>
    cases hf with
    | commit hop' hbefore' hafter' ho' =>
      cases hcall
      exact Nat.le_antisymm (hlate hafter' hbefore) (hlate hafter hbefore')
    | own hend hown =>
      cases hcall
      exact absurd hafter (hend.not_committed h (by omega))
  | @own c op res hend hown hfirst =>
    cases hf with
    | commit hop hbefore hafter ho =>
      cases hcall
      exact absurd hafter (hend.not_committed h (by omega))
    | own hend' hown' hfirst' =>
      cases hcall
      cases hend.finished.symm.trans hend'.finished
      apply Nat.le_antisymm
      · exact Nat.le_of_not_lt fun hji => hfirst j hji hown'
      · exact Nat.le_of_not_lt fun hij => hfirst' i hij hown

/-- What takes effect is a step of the abstract store. -/
theorem Takes.spec (h : system.Trace t s) (hi : i < t.length)
    {e : Entry Call RepositoryCall RepositoryResult} (he : Takes t s i e) :
    (stateAt t s i).database.library.StepOrFail e.op e.res
      (stateAt t s (i + 1)).database.library := by
  cases he with
  | @commit c r document o hop hbefore hafter ho =>
    rcases commits_of_switch h hi hbefore hafter with ⟨-, -, hcommits, -⟩
    rcases exists_put_of_commits h hcommits with ⟨r', document', v, o', hop', hw, hv, ho', hk⟩
    rw [hop] at hop'
    rw [ho] at ho'
    cases hop'
    cases ho'
    have hput := (invariant_at h i).consistent.put_commit hcommits.inProgress hw hv ho
    rcases Prod.mk.inj hk with ⟨hd, hn⟩
    rw [hcommits.database, ← hd, ← hn]
    exact .step (.put hput)
  | own hend hown =>
    rcases hown with ⟨x, a, hx, ha, hspec⟩
    rw [library_of_own h hend hx ha, stateAt_get hx]
    exact hspec

/-- Where no call takes effect, nothing changes. -/
theorem library_of_no_effect (h : system.Trace t s) (hi : i < t.length)
    (hnone : ∀ e, ¬ Takes t s i e) :
    (stateAt t s (i + 1)).database.library = (stateAt t s i).database.library := by
  rcases exists_action s hi with ⟨a, ha⟩
  rcases (invariant_at h i).calm_or_commits (moves_at h ha) with ⟨x, hcalm⟩ | ⟨x, hcommits, -⟩
  · exact hcalm.library
  · rcases exists_put_of_commits h hcommits with ⟨r, document, v, o, hop, -, -, ho, -⟩
    exact absurd (Takes.commit hop (TxStatus.ne_committed_of_inProgress hcommits.inProgress)
      hcommits.self ho) (hnone _)

theorem Takes.op_at_end (h : system.Trace t s) (hi : i < t.length)
    {e : Entry Call RepositoryCall RepositoryResult} (he : Takes t s i e) :
    (s.client e.call).op = some e.op ∧ isStore e.op = true := by
  cases he with
  | commit hop => exact ⟨(later_last h (by omega)).op _ _ hop, rfl⟩
  | own hend => exact ⟨by rw [hend.finished]; rfl, hend.store⟩

/-- A call takes effect no earlier than it was invoked. -/
theorem Takes.after_invoke (h : system.Trace t s) {e : Entry Call RepositoryCall RepositoryResult}
    (he : Takes t s i e) {x : State} (hj : t[j]? = some (x, Action.invoke e.call op)) :
    j ≤ i := by
  have hidle : (x.client e.call).op = none := by
    rw [idle_of_invoke h hj]
    rfl
  by_contra hij
  have hlater := later_of_le h (by omega : i + 1 ≤ j)
  rw [stateAt_get hj] at hlater
  have hop : ∃ op', ((stateAt t s (i + 1)).client e.call).op = some op' := by
    cases he with
    | commit hop => exact ⟨_, (later_of_le h (Nat.le_succ i)).op _ _ hop⟩
    | own hend hown =>
      rcases hown with ⟨y, a, hy, ha, -⟩
      exact ((moves_at h hy).of_actor ha).2
  rcases hop with ⟨op', hop⟩
  rw [hlater.op _ _ hop] at hidle
  cases hidle

end Effects

section Responses

/-- What is known of a call when it answers. -/
structure Responds (t : List (State × Action)) (s : State) (c : Call) (op : RepositoryCall)
    (res : RepositoryResult) (j : ℕ) : Prop where
  lt : j < t.length
  store : isStore op = true
  running : (stateAt t s j).client c = .running op (.ret res)
  finished : (stateAt t s (j + 1)).client c = .finished op res
  unsent : Unsent (stateAt t s j).database c → Unsent (stateAt t s (j + 1)).database c
  sure : res.isFailure = true → Unsent (stateAt t s j).database c

theorem responds_of_event (h : system.Trace t s)
    (hj : t[j]?.bind event = some (.respond c res)) : ∃ op, Responds t s c op res j := by
  rcases Option.bind_eq_some_iff.mp hj with ⟨⟨x, a⟩, hx, he⟩
  rcases event_eq_respond he with ⟨b, op, ha, hc, hstore, hsure⟩
  cases ha
  have hat := stateAt_get (s := s) hx
  have hm := moves_at h hx
  refine ⟨op, (List.getElem?_eq_some_iff.mp hx).1, hstore, by rw [hat, hc], ?_, ?_, by rwa [hat]⟩
  · generalize stateAt t s (j + 1) = y at hm
    cases hm with
    | finish _ hc' =>
      cases hc.symm.trans hc'
      exact set_client_self
    | perform ha hc' =>
      cases ha
      cases hc.symm.trans hc'
  · rw [hat]
    generalize stateAt t s (j + 1) = y at hm
    cases hm with
    | finish _ hc' => exact unsent_returned
    | perform ha hc' =>
      cases ha
      cases hc.symm.trans hc'

theorem Responds.answers (h : system.Trace t s) (hr : Responds t s c op res j) :
    Answers c ((invariant_at h j).view c) op res := by
  have hfit := (invariant_at h j).fits c
  rw [Fits, hr.running] at hfit
  exact (hfit.2 _ ((invariant_at h j).isView c)).of_ret

theorem Responds.settled (h : system.Trace t s) (hr : Responds t s c op res j)
    (hu : Unsent (stateAt t s j).database c) : Settled s c op res := by
  have hlater := later_last h hr.lt
  exact ⟨hlater.finished _ _ _ hr.finished, hlater.unsent _ _ _ hr.finished (hr.unsent hu), hr.store⟩

/-- A call either is committed when it answers or never will be. -/
theorem Responds.committed_or_settled (h : system.Trace t s) (hr : Responds t s c op res j) :
    (∃ r document o, op = .put r document ∧ (stateAt t s j).database.status c = .committed ∧
      o ∈ ((stateAt t s j).database.footprint c).operations ∧
      res = .put (.ok ⟨o.documentId, o.version, false⟩)) ∨
    (Settled s c op res ∧ ∃ i, OwnStep t c op res i) := by
  have hans := hr.answers h
  cases hans with
  | failed hf he =>
    right
    have hend := hr.settled h (hr.sure hf.isFailure)
    rcases exists_invoke h (by rw [hend.finished]; rfl : (s.client c).op = some op) with ⟨k, x, hk⟩
    exact ⟨hend, k, x, _, hk, rfl, .fail hf⟩
  | wrote hs hrow => exact .inl ⟨_, _, _, rfl, hs, hrow, rfl⟩
  | read hdb hu hstep =>
    right
    rcases List.mem_map.mp hdb with ⟨⟨x, a⟩, hp, rfl⟩
    rw [List.mem_filter, decide_eq_true_eq] at hp
    rcases List.mem_iff_getElem?.mp (List.mem_of_mem_take hp.1) with ⟨i, hi⟩
    exact ⟨hr.settled h hu, i, x, a, hi, hp.2, .step hstep⟩
  | searched => cases hr.store

/-- A call takes effect no later than it answers. -/
theorem Responds.before (h : system.Trace t s) (hr : Responds t s c op res j)
    {e : Entry Call RepositoryCall RepositoryResult} (he : Takes t s i e) (hc : e.call = c)
    (hi : i < t.length) : i ≤ j := by
  by_contra hij
  have hlater := later_of_le h (by omega : j + 1 ≤ i)
  cases he with
  | commit hop hbefore hafter ho =>
    cases hc
    rcases hr.committed_or_settled h with ⟨-, -, -, -, hs, -⟩ | ⟨hend, -⟩
    · exact hbefore ((later_of_le h (by omega : j ≤ i)).committed _ hs)
    · exact hend.not_committed h (by omega : i + 1 ≤ t.length) hafter
  | own hend hown =>
    cases hc
    rcases hown with ⟨x, a, hx, ha, -⟩
    rw [stateAt_get hx] at hlater
    exact (moves_at h hx).not_finished ha (hlater.finished _ _ _ hr.finished)

/-- Every answer is explained by an effect of its call. -/
theorem Responds.takes (h : system.Trace t s) (hr : Responds t s c op res j) :
    ∃ i < t.length, Takes t s i ⟨c, op, res⟩ := by
  rcases hr.committed_or_settled h with ⟨r, document, o, rfl, hs, ho, rfl⟩ | ⟨hend, hex⟩
  · rcases exists_switch_status (P := (· = .committed)) h (by decide) hs with
      ⟨i, hij, hbefore, hafter⟩
    have hi : i < t.length := by have := hr.lt; omega
    rcases commits_of_switch h hi hbefore hafter with ⟨-, -, hcommits, -⟩
    rcases exists_put_of_commits h hcommits with ⟨r', document', v, o', hop, -, -, ho', -⟩
    have hlater := later_of_le h (by omega : i ≤ j)
    -- the row that was committed is still the only one when the call answers
    have hop' := hlater.op _ _ hop
    rw [hr.running] at hop'
    cases hop'
    have hrow : o' = o := by
      have hm : ⟨c, o'⟩ ∈ (stateAt t s i).database.putOperations :=
        Database.mem_operations.mp (by simp [ho'])
      have hm' := Database.mem_operations.mpr (hlater.operations hm)
      exact eq_of_mem_of_length_le_one ((invariant_at h j).consistent.wellFormed c).operation hm' ho
    rw [← hrow]
    exact ⟨i, hi, .commit hop hbefore hafter ho'⟩
  · classical
    have hi := Nat.find_spec hex
    have hfirst := fun k (hk : k < Nat.find hex) => Nat.find_min hex hk
    have hlt : Nat.find hex < t.length := by
      rcases hi with ⟨x, a, hx, -⟩
      exact (List.getElem?_eq_some_iff.mp hx).1
    exact ⟨_, hlt, .own hend hi hfirst⟩

end Responses

open Classical in
/-- The call that takes effect at the `i`-th step. -/
noncomputable def effect (t : List (State × Action)) (s : State) (i : ℕ) :
    Option (Entry Call RepositoryCall RepositoryResult) :=
  if h : ∃ e, Takes t s i e then some h.choose else none

omit [TextSearch] in
theorem effect_eq_none (he : effect t s i = none) (e : Entry Call RepositoryCall RepositoryResult) :
    ¬ Takes t s i e := by
  intro ht
  rw [effect, dif_pos ⟨e, ht⟩] at he
  cases he

theorem effect_eq_some (h : system.Trace t s) (hi : i < t.length)
    {e : Entry Call RepositoryCall RepositoryResult} :
    effect t s i = some e ↔ Takes t s i e := by
  constructor
  · intro he
    rw [effect] at he
    split at he
    · rename_i hex
      cases he
      exact hex.choose_spec
    · cases he
  · intro ht
    have hex : ∃ e, Takes t s i e := ⟨e, ht⟩
    rw [effect, dif_pos hex, hex.choose_spec.unique h hi ht]

/-- Every run with the moments at which its calls take effect. -/
noncomputable def timeline (h : system.Trace t s) : Timeline Call Library.StepOrFail where
  length := t.length
  event i := t[i]?.bind event
  effect := effect t s
  state i := (stateAt t s i).database.library
  stutters i hi he := library_of_no_effect h hi (effect_eq_none he)
  acts i hi e he := ((effect_eq_some h hi).mp he).spec h hi
  once i j hi hj e f he hf hc :=
    ((effect_eq_some h hi).mp he).once h hi hj ((effect_eq_some h hj).mp hf) hc
  invoked i hi e he := by
    rcases ((effect_eq_some h hi).mp he).op_at_end h hi with ⟨hop, hstore⟩
    rcases exists_invoke h hop with ⟨k, x, hk⟩
    refine ⟨k, (List.getElem?_eq_some_iff.mp hk).1, ?_⟩
    simp [hk, event, hstore]
  afterInvoke i hi e he j hj op hev := by
    rcases Option.bind_eq_some_iff.mp hev with ⟨⟨x, a⟩, hx, hev⟩
    obtain rfl : a = .invoke e.call op := event_eq_invoke hev
    exact ((effect_eq_some h hi).mp he).after_invoke h hx
  beforeRespond i hi e he j hj res hev := by
    rcases responds_of_event h hev with ⟨op, hr⟩
    exact hr.before h ((effect_eq_some h hi).mp he) rfl hi
  completed j hj c res hev := by
    rcases responds_of_event h hev with ⟨op, hr⟩
    rcases hr.takes h with ⟨i, hi, ht⟩
    exact ⟨i, hi, op, (effect_eq_some h hi).mpr ht⟩

/-- A call that answers with a failure has an excuse. -/
theorem excused_of_failure (h : system.Trace t s) (hc : s.client c = .finished op res)
    (hf : res.isFailure = true) : Excused op (faulty t c) := by
  have hinv := invariant_of_trace h
  have hfit := hinv.fits c
  rw [Fits, hc] at hfit
  have hans := hfit.2.2 _ (hinv.isView c)
  cases hans with
  | failed _ he => exact he
  | wrote => cases hf
  | read hdb hu hstep => rw [hstep.not_failure] at hf; cases hf
  | searched => cases hf

/-- Every history of puts and gets is linearizable, where a call may also fail without
effect; and a call fails only when a fault struck it or the database refuses its document. -/
theorem linearizable_of_trace (h : system.Trace t s) :
    Linearizable Library.StepOrFail Library.empty (history t) ∧
      ∀ c op res, s.client c = .finished op res → res.isFailure = true →
        Excused op (faulty t c) := by
  constructor
  · have hlin := (timeline h).linearizable
    have hhistory : (timeline h).history = history t :=
      Timeline.filterMap_range_getElem t event
    have hstart : (timeline h).state 0 = Library.empty := by
      rcases h.init_at with ⟨clock, h0⟩
      change (stateAt t s 0).database.library = Library.empty
      rw [h0]
      exact library_initial clock
    rwa [hhistory, hstart] at hlin
  · intro c op res
    exact excused_of_failure h

end Traces

section Sample

/-- Two puts of one request; the second loses the race and reports the winner. -/
def raceRun : List Action :=
  .invoke ⟨0, 0⟩ (.put 1 (sampleDocument none "alpha")) ::
    execs ⟨0, 0⟩ 3 ++ .newUuid ⟨0, 0⟩ 7 :: execs ⟨0, 0⟩ 4 ++
    .invoke ⟨1, 0⟩ (.put 1 (sampleDocument none "alpha")) ::
    execs ⟨1, 0⟩ 3 ++ .newUuid ⟨1, 0⟩ 8 :: execs ⟨1, 0⟩ 3 ++
    execs ⟨0, 0⟩ 3 ++ .finish ⟨0, 0⟩ true :: execs ⟨1, 0⟩ 3 ++ [.finish ⟨1, 0⟩ true]

theorem linearizable_raceRun :
    Linearizable (@Library.StepOrFail sampleSha256) Library.empty (history (sampleRecord raceRun)) ∧
      ∀ c op res, ((sampleRun raceRun).get (by decide +kernel)).client c = .finished op res →
        res.isFailure = true →
          @Excused sampleSearch op (@faulty sampleSearch (sampleRecord raceRun) c) :=
  @linearizable_of_trace sampleSha256 sampleSearch _ _ (trace_sampleRun _)

/-- A put of a document with an empty title, which a CHECK constraint refuses. -/
def refusedRun : List Action :=
  .invoke ⟨0, 0⟩ (.put 1 ⟨none, "alpha", "text/plain", some "", none⟩) ::
    execs ⟨0, 0⟩ 3 ++ .newUuid ⟨0, 0⟩ 7 :: execs ⟨0, 0⟩ 2 ++ [.finish ⟨0, 0⟩ true]

/-- Without any fault the refused put answers a failure, which the store without failures
never does. -/
theorem not_linearizable_refusedRun :
    (@system sampleSha256 sampleSearch).Trace (sampleRecord refusedRun)
        ((sampleRun refusedRun).get (by decide +kernel)) ∧
      @faulty sampleSearch (sampleRecord refusedRun) ⟨0, 0⟩ = false ∧
      ¬ Linearizable (@Library.Step sampleSha256) Library.empty
        (history (sampleRecord refusedRun)) := by
  refine ⟨trace_sampleRun _, by decide +kernel, ?_⟩
  intro hlin
  have hr : .respond ⟨0, 0⟩ (.put (.error .repository)) ∈ history (sampleRecord refusedRun) := by
    decide +kernel
  rcases hlin.exists_spec hr with ⟨L, op, L', hstep⟩
  have := @Library.Step.not_failure L sampleSha256 _ _ _ hstep
  cases this

end Sample
end Librarian.Store
