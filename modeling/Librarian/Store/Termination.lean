import Librarian.Foundation.Termination
import Librarian.Store.Linearizability
import Librarian.Store.Progress
import Mathlib.Algebra.GroupWithZero.Nat
import Mathlib.Algebra.Order.BigOperators.Group.List
import Mathlib.Algebra.Order.Group.Nat

/-! # Every call comes to an end

A call makes eleven effects at most, so its client acts thirteen times at most, whatever
fails. Without new invocations there are only so many steps left in any state, and without
further faults every call that is at work can be led to its answer.
-/
namespace Librarian.Store
open Foundation Postgres PostgresDocumentRepository Program System

section Programs

theorem costs_query (stmt : Stmt) (n : ℕ) : Costs (fun _ => n) (query stmt) (n + 1) :=
  costs_call (Effect.sql stmt) _ n

theorem costs_newUuid (n : ℕ) : Costs (fun _ => n) newUuid (n + 1) :=
  costs_call Effect.newUuid .ok n

theorem costs_target (d : Option Uuid) (n : ℕ) : Costs (fun _ => n) (target d) (n + 2) := by
  cases d with
  | none =>
    apply (costs_newUuid (n + 1)).bind
    intro d
    exact (costs_query _ n).bind fun _ => costs_pure (Nat.le_refl n)
  | some d =>
    apply (costs_query _ (n + 1)).bind
    intro found
    cases found with
    | true => exact (costs_query _ n).bind fun _ => costs_pure (Nat.le_refl n)
    | false => exact costs_throw _ _

variable [Sha256]

theorem costs_insertVersionSql (d : Uuid) (v : ℤ) (document : PutDocument) (n : ℕ) :
    Costs (fun _ => n) (insertVersionSql d v document) (n + 2) :=
  (costs_query _ (n + 1)).bind fun _ => costs_query (.keyShare (.document d)) n

omit [Sha256] in
/-- An insert that found its key taken leaves one more statement than one that did not. -/
theorem costs_insertPutOperationSql (r d : Uuid) (v : ℤ) :
    Costs (fun inserted => if inserted = 0 then 2 else 1) (insertPutOperationSql r d v) 4 := by
  apply (costs_query _ 3).bind
  intro inserted
  split
  · exact costs_pure (by decide)
  · rename_i hne
    apply (costs_query _ 2).bind
    intro u
    apply (costs_query _ 1).bind
    intro u
    exact costs_pure (by rw [if_neg hne])

omit [Sha256] in
theorem costs_reportWinner (r : Uuid) : Costs (fun _ => 0) (reportWinner r) 2 := by
  apply (costs_query _ 1).bind
  intro u
  apply (costs_query _ 0).bind
  intro row
  cases row with
  | none => exact costs_throw _ _
  | some key => exact costs_pure (Nat.le_refl 0)

theorem costs_write (r : Uuid) (document : PutDocument) :
    Costs (fun _ => 0) (write r document) 9 := by
  apply (costs_query _ 8).bind
  intro u
  apply (costs_target _ 6).bind
  rintro ⟨d, v⟩
  apply (costs_insertVersionSql d v document 4).bind
  intro u
  apply (costs_insertPutOperationSql r d v).bind
  intro inserted
  split
  · exact costs_reportWinner r
  · exact (costs_query _ 0).bind fun _ => costs_pure (Nat.le_refl 0)

theorem costs_put (r : Uuid) (document : PutDocument) :
    Costs (fun _ => 0) (put r document) 11 := by
  rw [put]
  refine costs_ite (costs_throw _ _) (costs_ite (costs_throw _ _) ?_)
  apply (costs_query _ 10).bind
  intro u
  apply (costs_query _ 9).bind
  intro row
  cases row with
  | none => exact costs_write r document
  | some key => exact costs_pure (Nat.zero_le 9)

omit [Sha256] in
theorem costs_get (d : Uuid) (v : Option ℤ) : Costs (fun _ => 0) (get d v) 2 := by
  have hfind : Costs (fun _ => 0) (findVersion d v) 1 := by
    cases v with
    | none => exact costs_query (.findLatestVersion d) 0
    | some v => exact costs_query (.findVersion d v) 0
  apply (costs_query _ 1).bind
  intro u
  apply hfind.bind
  intro row
  cases row with
  | none => exact costs_throw _ _
  | some row => exact costs_ret

omit [Sha256] in
theorem costs_search (q : String) (limit : ℤ) : Costs (fun _ => 0) (search q limit) 2 :=
  (costs_query _ 1).bind fun _ => costs_query (.search q limit) 0

/-- The most effects one call makes, as a put does that appends or creates a version. -/
def effectBound : ℕ := 11

theorem atMost_program (op : RepositoryCall) : (program op).AtMost effectBound := by
  cases op with
  | put r document => exact (costs_put r document).atMost (Nat.le_refl _)
  | get d v => exact (costs_get d v).atMost (by decide)
  | search q limit => exact (costs_search q limit).atMost (by decide)

end Programs

/-- Whatever goes on with calls that are already there. -/
def Action.continues : Action → Bool
  | .invoke _ _ | .tick _ => false
  | _ => true

/-- The steps of calls and transactions that nothing goes wrong with. -/
def Action.regular : Action → Bool
  | .newUuid _ _ | .exec _ _ | .finish _ _ | .settle _ _ => true
  | _ => false

theorem Action.continues_of_regular {a : Action} (h : a.regular = true) : a.continues = true := by
  cases a <;> first | rfl | cases h

/-- What a call may still do, when `budget` pays for its program: two units for each effect,
for one of them may open a transaction that has to be ended. -/
def weight (s : State) (budget : Call → ℕ) (c : Call) : ℕ :=
  (if (s.client c).isRunning = true then 2 * budget c + 2 else 0) +
    if (s.database.status c).inProgress = true then 1 else 0

/-- `n` bounds all that the calls in flight may still do. -/
def Left (s : State) (n : ℕ) : Prop :=
  ∃ (calls : List Call) (budget : Call → ℕ), (∀ c, InFlight s c → c ∈ calls) ∧
    (∀ c op p, s.client c = .running op p → p.AtMost (budget c)) ∧
    (calls.map (weight s budget)).sum = n

section System
variable [Sha256] [TextSearch] {t : List (State × Action)} {s s' : State} {a : Action} {c : Call}
  {op : RepositoryCall} {n : ℕ}

/-- A call that others leave alone has no more to do than before. -/
theorem Invariant.weight_other (h : Invariant t s) (hm : Moves s a s') (ha : a.actor ≠ some c)
    {budget budget' : Call → ℕ} (hb : budget' c = budget c) :
    weight s' budget' c ≤ weight s budget c := by
  rw [weight, weight, hm.client_other ha, hb]
  apply Nat.add_le_add_left
  rcases h.status_other hm ha with hsame | ⟨-, hcommitted⟩ | ⟨-, haborted⟩
  · rw [hsame]
  · simp [hcommitted, TxStatus.inProgress]
  · simp [haborted, TxStatus.inProgress]

omit [Sha256] [TextSearch] in
theorem weight_of_not_running {budget : Call → ℕ} (hr : (s.client c).isRunning = false) :
    weight s budget c = if (s.database.status c).inProgress = true then 1 else 0 := by
  simp [weight, hr]

omit [Sha256] [TextSearch] in
theorem weight_of_running (budget : Call → ℕ) (hr : (s.client c).isRunning = true) :
    2 * budget c + 2 ≤ weight s budget c ∧ weight s budget c ≤ 2 * budget c + 3 := by
  rw [weight, if_pos hr]
  split <;> omega

omit [Sha256] [TextSearch] in
/-- A client that returns or crashes leaves at most its transaction to be ended. -/
theorem weight_lt_of_gone {budget budget' : Call → ℕ} (hr : (s.client c).isRunning = true)
    (hr' : (s'.client c).isRunning = false) : weight s' budget' c < weight s budget c := by
  have hbefore := (weight_of_running budget hr).1
  rw [weight_of_not_running hr']
  split <;> omega

omit [Sha256] [TextSearch] in
/-- Ending the transaction of a client that is gone leaves nothing. -/
theorem weight_lt_of_settled {budget budget' : Call → ℕ} (hr : (s.client c).isRunning = false)
    (hi : (s.database.status c).inProgress = true) (hr' : (s'.client c).isRunning = false)
    (hi' : (s'.database.status c).inProgress = false) : weight s' budget' c < weight s budget c := by
  rw [weight_of_not_running hr, weight_of_not_running hr', if_pos hi, if_neg (by simp [hi'])]
  exact Nat.zero_lt_one

/-- Only an invocation brings a call into flight. -/
theorem Invariant.inFlight_of_moves (h : Invariant t s) (hm : Moves s a s')
    (ha : a.actor ≠ some c) (hc : InFlight s' c) : InFlight s c := by
  rw [InFlight, hm.client_other ha] at hc
  rcases hc with hr | hi
  · exact .inl hr
  · rcases h.status_other hm ha with hsame | ⟨-, hcommitted⟩ | ⟨-, haborted⟩
    · rw [hsame] at hi
      exact .inr hi
    · simp [hcommitted, TxStatus.inProgress] at hi
    · simp [haborted, TxStatus.inProgress] at hi

/-- What is left shrinks when one call in flight has less to do and the others no more. -/
theorem Invariant.left_of (h : Invariant t s) (hm : Moves s a s') {calls : List Call}
    {budget : Call → ℕ} {b : ℕ} (hcalls : ∀ x, InFlight s x → x ∈ calls)
    (hbudget : ∀ x op p, s.client x = .running op p → p.AtMost (budget x)) (hc : InFlight s c)
    (hother : ∀ x, x ≠ c → a.actor ≠ some x)
    (hself : ∀ op p, s'.client c = .running op p → p.AtMost b)
    (hlt : weight s' (Function.update budget c b) c < weight s budget c) :
    ∃ m < (calls.map (weight s budget)).sum, Left s' m := by
  refine ⟨_, ?_, calls, Function.update budget c b, ?_, ?_, rfl⟩
  · apply List.sum_lt_sum
    · intro x hx
      by_cases hxc : x = c
      · rw [hxc]
        exact Nat.le_of_lt hlt
      · exact h.weight_other hm (hother x hxc) (Function.update_of_ne hxc _ _)
    · exact ⟨c, hcalls c hc, hlt⟩
  · intro x hx
    by_cases hxc : x = c
    · rw [hxc]
      exact hcalls c hc
    · exact hcalls x (h.inFlight_of_moves hm (hother x hxc) hx)
  · intro x op p hx
    by_cases hxc : x = c
    · subst hxc
      rw [Function.update_self]
      exact hself op p hx
    · rw [Function.update_of_ne hxc]
      rw [hm.client_other (hother x hxc)] at hx
      exact hbudget x op p hx

/-- Every step that goes on with a call or a transaction uses up some of what is left. -/
theorem Invariant.left_step (h : Invariant t s) (hm : Moves s a s') (ha : a.continues = true)
    (hl : Left s n) : ∃ m < n, Left s' m := by
  rcases hl with ⟨calls, budget, hcalls, hbudget, rfl⟩
  cases hm with
  | invoke => cases ha
  | tick => cases ha
  | @perform _ c op e next ans db hactor hc hp =>
    have hspends := spends_call.mp (hbudget c op _ hc)
    have hrun : (s.client c).isRunning = true := by simp [hc, Client.isRunning]
    apply h.left_of (.perform hactor hc hp) hcalls hbudget (.inl hrun) (b := budget c - 1)
    · exact fun x hx => actor_other hactor hx
    · intro op' p hp'
      rw [set_client_self] at hp'
      cases hp'
      exact hspends.2 ans
    · have hbefore := (weight_of_running budget hrun).1
      have hrun' : ((s.set db c (.running op (next ans))).client c).isRunning = true := by
        rw [set_client_self]
        rfl
      have hafter := (weight_of_running (Function.update budget c (budget c - 1)) hrun').2
      rw [Function.update_self] at hafter
      have := hspends.1
      omega
  | @finish c op res rolledBack hc =>
    have hrun : (s.client c).isRunning = true := by simp [hc, Client.isRunning]
    apply h.left_of (.finish rolledBack hc) hcalls hbudget (.inl hrun) (b := 0)
    · exact fun x hx => actor_other rfl hx
    · intro op' p hp
      rw [set_client_self] at hp
      cases hp
    · exact weight_lt_of_gone hrun (by rw [set_client_self]; rfl)
  | @crash c op p hc =>
    have hrun : (s.client c).isRunning = true := by simp [hc, Client.isRunning]
    apply h.left_of (.crash hc) hcalls hbudget (.inl hrun) (b := 0)
    · exact fun x hx => actor_other rfl hx
    · intro op' p' hp
      rw [set_client_self] at hp
      cases hp
    · exact weight_lt_of_gone hrun (by rw [set_client_self]; rfl)
  | @settleCommit c hr hs =>
    have hi : (s.database.status c).inProgress = true := by simp [hs, TxStatus.inProgress]
    apply h.left_of (.settleCommit hr hs) hcalls hbudget (.inr hi) (b := budget c)
    · simp [Action.actor]
    · exact fun op p hp => hbudget c op p hp
    · exact weight_lt_of_settled hr hi hr (by simp [Database.setStatus, TxStatus.inProgress])
  | @settleAbort c hr hi =>
    apply h.left_of (.settleAbort hr hi) hcalls hbudget (.inr hi) (b := budget c)
    · simp [Action.actor]
    · exact fun op p hp => hbudget c op p hp
    · exact weight_lt_of_settled hr hi hr (by simp [Database.setStatus, TxStatus.inProgress])

/-- How often the client of `c` has acted, with what its program may still do. -/
def Acted (t : List (State × Action)) (s : State) (c : Call) : Prop :=
  match s.client c with
  | .idle => (mine t c).length = 0
  | .running _ p => ∃ n ≤ effectBound, p.AtMost n ∧ (mine t c).length + n = effectBound + 1
  | .finished _ _ | .crashed _ => (mine t c).length ≤ effectBound + 2

theorem Acted.step (h : Acted t s c) (hm : Moves s a s') : Acted (t ++ [(s, a)]) s' c := by
  by_cases ha : a.actor = some c
  · have hlen : (mine (t ++ [(s, a)]) c).length = (mine t c).length + 1 := by
      rw [mine_append_own ha]
      simp
    cases hm with
    | @invoke x op hc =>
      cases ha
      rw [Acted, hc] at h
      rw [Acted, set_client_self]
      exact ⟨effectBound, Nat.le_refl _, atMost_program op, by rw [hlen, h]; omega⟩
    | @perform _ x op e next ans db hx hc hp =>
      obtain rfl := Option.some.inj (ha.symm.trans hx)
      rw [Acted, hc] at h
      rw [Acted, set_client_self]
      rcases h with ⟨n, hle, hn, hsum⟩
      rcases spends_call.mp hn with ⟨hpos, hnext⟩
      exact ⟨n - 1, by omega, hnext ans, by omega⟩
    | @finish x op res rolledBack hc =>
      cases ha
      rw [Acted, hc] at h
      rw [Acted, set_client_self]
      rcases h with ⟨n, -, -, hsum⟩
      change (mine _ c).length ≤ _
      omega
    | @crash x op p hc =>
      cases ha
      rw [Acted, hc] at h
      rw [Acted, set_client_self]
      rcases h with ⟨n, -, -, hsum⟩
      change (mine _ c).length ≤ _
      omega
    | settleCommit => cases ha
    | settleAbort => cases ha
    | tick => cases ha
  · rw [Acted, hm.client_other ha, mine_append_other ha]
    exact h

theorem acted_of_trace (h : system.Trace t s) (c : Call) : Acted t s c := by
  induction h with
  | start hinit =>
    rcases hinit with ⟨clock, rfl⟩
    rfl
  | step _ hs ih => exact ih.step (step_moves hs)

omit [Sha256] [TextSearch] in
/-- Whatever fails and whoever else is at work, a client acts thirteen times at most. -/
theorem Acted.length_le (h : Acted t s c) : (mine t c).length ≤ effectBound + 2 := by
  rw [Acted] at h
  split at h
  · omega
  · rcases h with ⟨n, -, -, hsum⟩
    omega
  · exact h
  · exact h

/-- The calls invoked in a run. -/
def invoked (t : List (State × Action)) : List Call :=
  t.filterMap fun p => match p.2 with
    | .invoke c _ => some c
    | _ => none

theorem mem_invoked_of_op (h : system.Trace t s) {op : RepositoryCall}
    (hop : (s.client c).op = some op) : c ∈ invoked t := by
  rcases exists_invoke h hop with ⟨k, x, hk⟩
  exact List.mem_filterMap.mpr ⟨_, List.mem_of_getElem? hk, rfl⟩

theorem mem_invoked (h : system.Trace t s) (hc : InFlight s c) : c ∈ invoked t := by
  have hop : ∃ op, (s.client c).op = some op := by
    cases hcl : s.client c with
    | idle =>
      have hstatus := (invariant_of_trace h).status_of_idle hcl
      simp [InFlight, hcl, hstatus, Client.isRunning, TxStatus.inProgress] at hc
    | _ => exact ⟨_, rfl⟩
  rcases hop with ⟨op, hop⟩
  exact mem_invoked_of_op h hop

/-- The most steps one call leaves to be taken: two for each effect and three to end it. -/
def stepBound : ℕ := 2 * effectBound + 3

theorem left_of_trace (h : system.Trace t s) :
    ∃ n ≤ (invoked t).length * stepBound, Left s n := by
  have hbudget : ∀ c op p, s.client c = .running op p → p.AtMost effectBound := by
    intro c op p hc
    have hacted := acted_of_trace h c
    rw [Acted, hc] at hacted
    rcases hacted with ⟨n, hle, hn, -⟩
    exact hn.mono hle
  refine ⟨_, ?_, invoked t, fun _ => effectBound, fun c hc => mem_invoked h hc, hbudget, rfl⟩
  have hweight : ∀ c ∈ invoked t, weight s (fun _ => effectBound) c ≤ stepBound := by
    intro c hc
    rw [weight, stepBound]
    split <;> split <;> omega
  have hsum := List.sum_le_card_nsmul ((invoked t).map (weight s fun _ => effectBound)) stepBound
    (by simpa using hweight)
  rw [List.length_map] at hsum
  exact hsum

/-- Somebody in flight goes on, by a step that nothing goes wrong with. -/
theorem Invariant.exists_regular (h : Invariant t s) (hc : InFlight s c) :
    ∃ (a : Action) (s' : State), a.regular = true ∧ Store.step s a = some s' := by
  have hgo : ∀ {c'}, Proceeds s c' →
      ∃ (a : Action) (s' : State), a.regular = true ∧ Store.step s a = some s' := by
    intro c' hp
    cases hp with
    | newUuid h => exact ⟨_, _, rfl, h⟩
    | exec h => exact ⟨_, _, rfl, h⟩
    | finish h => exact ⟨_, _, rfl, h⟩
    | settle h => exact ⟨_, _, rfl, h⟩
  by_cases hi : (s.database.status c).inProgress = true
  · rcases h.progress_of_inProgress hi with ⟨c', -, hp⟩
    exact hgo hp
  · have hr : (s.client c).isRunning = true := by simpa [InFlight, hi] using hc
    cases hcl : s.client c with
    | running op p =>
      rcases proceeds_or_waits hcl with hp | ⟨c', op', stmt, next, -, ha, -⟩ | ⟨next, -, hfull⟩
      · exact hgo hp
      · simp [ha, TxStatus.inProgress] at hi
      · rcases h.progress_of_poolFull hfull with ⟨c', -, hp⟩
        exact hgo hp
    | _ => simp [hcl, Client.isRunning] at hr

/-- A call at work in `s` is still at work or has returned. -/
def Kept (s s' : State) : Prop :=
  ∀ c op, (s.client c).isRunning = true → (s.client c).op = some op →
    (s'.client c).op = some op ∧ s'.client c ≠ .crashed op

omit [Sha256] [TextSearch] in
theorem Kept.refl (s : State) : Kept s s := by
  intro c op hr hop
  refine ⟨hop, ?_⟩
  intro hc
  simp [hc, Client.isRunning] at hr

theorem Kept.step {s₀ : State} (h : Kept s₀ s) (ha : a.regular = true) (hm : Moves s a s') :
    Kept s₀ s' := by
  intro c op hr hop
  rcases h c op hr hop with ⟨hop', hne⟩
  refine ⟨hm.keeps_op hop', ?_⟩
  by_cases hactor : a.actor = some c
  · cases hm with
    | perform hx hc hp =>
      obtain rfl := Option.some.inj (hactor.symm.trans hx)
      rw [set_client_self]
      simp
    | finish rolledBack hc =>
      cases hactor
      rw [set_client_self]
      simp
    | invoke => cases ha
    | crash => cases ha
    | settleCommit => cases hactor
    | settleAbort => cases hactor
    | tick => cases ha
  · rw [hm.client_other hactor]
    exact hne

theorem left_of_reachable {x y : State} {b : Action} {n : ℕ} (hx : system.Reachable x)
    (hl : Left x n) (hb : b.continues = true) (hs : Store.step x b = some y) :
    ∃ m < n, Left y m := by
  rcases hx with ⟨u, hu⟩
  exact (invariant_of_trace hu).left_step (step_moves hs) hb hl

/-- Some steps that nothing goes wrong with leave nobody in flight. -/
theorem exists_drain (h : system.Trace t s) :
    ∃ s', Leads step (·.regular = true) s s' ∧ (∀ c, ¬ InFlight s' c) ∧ Kept s s' := by
  have hkept : ∀ x a y, (system.Reachable x ∧ Kept s x) → a.regular = true →
      Store.step x a = some y → system.Reachable y ∧ Kept s y :=
    fun x a y hi ha hx => ⟨hi.1.step hx, hi.2.step ha (step_moves hx)⟩
  have hleft : ∀ x a y n, (system.Reachable x ∧ Kept s x) → Left x n → a.regular = true →
      Store.step x a = some y → ∃ m < n, Left y m :=
    fun x a y n hi hl ha hx => left_of_reachable hi.1 hl (Action.continues_of_regular ha) hx
  have hprogress : ∀ x, (system.Reachable x ∧ Kept s x) → (¬ ∀ c, ¬ InFlight x c) →
      ∃ (a : Action) (y : State), a.regular = true ∧ Store.step x a = some y := by
    rintro x ⟨⟨u, hu⟩, -⟩ hd
    rcases not_forall_not.mp hd with ⟨c, hc⟩
    exact (invariant_of_trace hu).exists_regular hc
  rcases left_of_trace h with ⟨n, -, hn⟩
  rcases exists_run_to hkept hleft hprogress ⟨h.reachable, Kept.refl s⟩ hn with
    ⟨s', hleads, hi, hdone⟩
  exact ⟨s', hleads, hdone, hi.2⟩

/-- How long the calls of a run may take, and that they can be finished. -/
structure Terminates (t : List (State × Action)) (s : State) : Prop where
  ownSteps : ∀ c, (mine t c).length ≤ effectBound + 2
  bounded : ∀ actions s', (∀ a ∈ actions, a.continues = true) →
    System.run step s actions = some s' → actions.length ≤ (invoked t).length * stepBound
  drains : ∃ actions s', (∀ a ∈ actions, a.regular = true) ∧
    System.run step s actions = some s' ∧ (∀ c, ¬ InFlight s' c) ∧
    ∀ c op, (s.client c).isRunning = true → (s.client c).op = some op →
      ∃ res, s'.client c = .finished op res

/-- After any run each client has acted a bounded number of times, only so many steps are left
without new invocations, and some of them without a fault lead every call to its answer. -/
theorem terminates_of_trace (h : system.Trace t s) : Terminates t s := by
  rcases left_of_trace h with ⟨n, hn, hleft⟩
  constructor
  case ownSteps => exact fun c => (acted_of_trace h c).length_le
  case bounded =>
    intro actions s' hkind hr
    have hbound := length_run_le (fun x a y hx hs => hx.step hs)
      (fun x a y n hx hl ha hs => left_of_reachable hx hl ha hs) h.reachable hleft hkind hr
    exact Nat.le_trans hbound hn
  case drains =>
    rcases exists_drain h with ⟨s', ⟨actions, hregular, hr⟩, hdone, hkept⟩
    refine ⟨actions, s', hregular, hr, hdone, ?_⟩
    intro c op hrun hop
    rcases hkept c op hrun hop with ⟨hop', hne⟩
    have hnot := hdone c
    cases hc : s'.client c with
    | idle => simp [hc, Client.op] at hop'
    | running op' p => simp [InFlight, hc, Client.isRunning] at hnot
    | finished op' res =>
      rw [hc] at hop'
      cases hop'
      exact ⟨res, rfl⟩
    | crashed op' =>
      rw [hc] at hop'
      cases hop'
      exact absurd hc hne

end System

/-- A put has to wait for another one of its request whose client crashed. -/
def strandedRun : List Action :=
  .invoke ⟨0, 0⟩ (.put 1 (sampleDocument none "alpha")) ::
    execs ⟨0, 0⟩ 3 ++ .newUuid ⟨0, 0⟩ 7 :: execs ⟨0, 0⟩ 4 ++
    .invoke ⟨1, 0⟩ (.put 1 (sampleDocument none "alpha")) ::
    execs ⟨1, 0⟩ 3 ++ .newUuid ⟨1, 0⟩ 8 :: execs ⟨1, 0⟩ 3 ++ [.crash ⟨0, 0⟩]

theorem terminates_strandedRun : ∃ s, sampleRun strandedRun = some s ∧
    @Terminates sampleSha256 sampleSearch (sampleRecord strandedRun) s :=
  have h : (sampleRun strandedRun).isSome = true := by decide +kernel
  ⟨_, (Option.some_get h).symm, @terminates_of_trace sampleSha256 sampleSearch _ _ (trace_sampleRun h)⟩

end Librarian.Store
