import Librarian.Store.Linearizability

/-! # The commit of a call

A call sends at most one commit and sends nothing after it. A commit that is answered makes
the call succeed, so that a call fails with its rows committed only when the commit was sent
and its answer was not understood.
-/
namespace Librarian.Store
open Foundation Postgres PostgresDocumentRepository Program System

section Programs

/-- A commit is the last statement of its call, and its answer decides the result. -/
def CommitLast : Program Effect Effect.Ans RepositoryResult → Prop
  | .ret _ => True
  | .call (.sql .commit) next =>
    (∃ outcome, next (.ok ()) = .ret (.put (.ok outcome))) ∧
      next (.error .error) = .ret (.put (.error .repository))
  | .call _ next => ∀ ans, CommitLast (next ans)

theorem CommitLast.next {e : Effect} {next : e.Ans → Program Effect Effect.Ans RepositoryResult}
    (h : CommitLast (.call e next)) (ans : e.Ans) : CommitLast (next ans) := by
  cases e with
  | newUuid => exact h ans
  | sql s =>
    cases s with
    | commit =>
      rcases h with ⟨⟨outcome, hok⟩, herr⟩
      cases ans with
      | ok a =>
        have hans : next (.ok a) = .ret (.put (.ok outcome)) := hok
        rw [hans]
        trivial
      | error e =>
        cases e
        rw [herr]
        trivial
    | _ => exact h ans

/-- A part without a commit may stand before anything. -/
theorem CommitLast.bind {α : Type} {p : Program Effect Effect.Ans α}
    {f : α → Program Effect Effect.Ans RepositoryResult} (hp : p.Only (· ≠ .sql .commit))
    (hf : ∀ a, CommitLast (f a)) : CommitLast (p.bind f) := by
  induction p with
  | ret a => exact hf a
  | call e next ih =>
    have hrest : ∀ ans, CommitLast ((next ans).bind f) := fun ans => ih ans (hp.2 ans)
    cases e with
    | newUuid => exact hrest
    | sql s =>
      cases s with
      | commit => exact absurd rfl hp.1
      | _ => exact hrest

theorem CommitLast.ret (res : RepositoryResult) : CommitLast (.ret res) := trivial

theorem commitLast_commit {outcome : PutOutcome}
    {f : Unit → Repo PutOutcome} (hf : f () = pure outcome) :
    CommitLast ((query .commit >>= f).run.bind fun res => .ret (.put res)) := by
  refine ⟨⟨outcome, ?_⟩, rfl⟩
  change Program.bind (f ()).run _ = _
  rw [hf]
  rfl

theorem CommitLast.commit
    {next : Effect.Ans (.sql .commit) → Program Effect Effect.Ans RepositoryResult}
    (h : CommitLast (.call (.sql .commit) next)) :
    (∃ outcome, next (.ok ()) = .ret (.put (.ok outcome))) ∧
      next (.error .error) = .ret (.put (.error .repository)) := h

-- from here on only the rules are used
attribute [irreducible] CommitLast

theorem commitLast_bindExcept {α β : Type} {p : Repo α} {f : α → Repo β}
    {g : Except DocumentError β → RepositoryResult} (hp : p.run.Only (· ≠ .sql .commit))
    (hok : ∀ a, CommitLast ((f a).run.bind fun res => .ret (g res))) :
    CommitLast ((p >>= f).run.bind fun res => .ret (g res)) := by
  change CommitLast ((Program.bind p.run (ExceptT.bindCont f)).bind fun res => .ret (g res))
  rw [Program.bind_assoc]
  apply CommitLast.bind hp
  intro a
  cases a with
  | ok a => exact hok a
  | error e => exact .ret _

theorem only_query {s : Stmt} (hs : s ≠ .commit) : (query s).run.Only (· ≠ .sql .commit) :=
  ⟨by simpa using hs, fun _ => trivial⟩

theorem only_newUuid : newUuid.run.Only (· ≠ .sql .commit) := ⟨by simp, fun _ => trivial⟩

theorem only_target (d : Option Uuid) : (target d).run.Only (· ≠ .sql .commit) := by
  cases d with
  | none =>
    apply only_newUuid.bindExcept
    intro u
    apply (only_query (by simp)).bindExcept
    exact fun _ => trivial
  | some d =>
    apply (only_query (by simp)).bindExcept
    intro found
    cases found with
    | true =>
      apply (only_query (by simp)).bindExcept
      exact fun _ => trivial
    | false => trivial

variable [Sha256]

theorem only_insertVersionSql (d : Uuid) (v : ℤ) (document : PutDocument) :
    (insertVersionSql d v document).run.Only (· ≠ .sql .commit) := by
  apply (only_query (by simp)).bindExcept
  exact fun _ => only_query (by simp)

omit [Sha256] in
theorem only_insertPutOperationSql (r d : Uuid) (v : ℤ) :
    (insertPutOperationSql r d v).run.Only (· ≠ .sql .commit) := by
  apply (only_query (by simp)).bindExcept
  intro inserted
  split
  · trivial
  · apply (only_query (by simp)).bindExcept
    intro _
    apply (only_query (by simp)).bindExcept
    exact fun _ => trivial

omit [Sha256] in
theorem only_reportWinner (r : Uuid) : (reportWinner r).run.Only (· ≠ .sql .commit) := by
  apply (only_query (by simp)).bindExcept
  intro _
  apply (only_query (by simp)).bindExcept
  intro row
  cases row with
  | none => trivial
  | some key => trivial

theorem commitLast_write (r : Uuid) (document : PutDocument) :
    CommitLast ((write r document).run.bind fun res => .ret (.put res)) := by
  apply commitLast_bindExcept (only_query (by simp))
  intro _
  apply commitLast_bindExcept (only_target _)
  rintro ⟨d, v⟩
  apply commitLast_bindExcept (only_insertVersionSql d v document)
  intro _
  apply commitLast_bindExcept (only_insertPutOperationSql r d v)
  intro inserted
  split
  · exact CommitLast.bind (only_reportWinner r) fun _ => .ret _
  · exact commitLast_commit rfl

theorem commitLast_put (r : Uuid) (document : PutDocument) :
    CommitLast ((put r document).run.bind fun res => .ret (.put res)) := by
  unfold put
  split
  · exact .ret _
  · split
    · exact .ret _
    · apply commitLast_bindExcept (only_query (by simp))
      intro _
      apply commitLast_bindExcept (only_query (by simp))
      intro row
      cases row with
      | some key => exact .ret _
      | none => exact commitLast_write r document

theorem commitLast_program (op : RepositoryCall) : CommitLast (program op) := by
  cases op with
  | put r document => exact commitLast_put r document
  | get d v =>
    apply commitLast_bindExcept (only_query (by simp))
    intro _
    apply commitLast_bindExcept
    · cases v with
      | some v => exact only_query (by simp)
      | none => exact only_query (by simp)
    · intro row
      cases row with
      | some row => exact .ret _
      | none => exact .ret _
  | search q limit =>
    apply commitLast_bindExcept (only_query (by simp))
    intro _
    exact CommitLast.bind (only_query (by simp)) fun _ => .ret _

end Programs

section Steps
variable [Sha256] [TextSearch] {t : List (State × Action)} {s s' : State} {a : Action} {c : Call}
  {op : RepositoryCall} {res : RepositoryResult}

theorem commitLast_of_running (h : system.Trace t s)
    {p : Program Effect Effect.Ans RepositoryResult} (hc : s.client c = .running op p) :
    CommitLast p := by
  induction h generalizing p with
  | start hinit =>
    rcases hinit with ⟨clock, rfl⟩
    cases hc
  | @step t y y' a ht hs ih =>
    -- the actor goes on with the next part of its program, everybody else stays
    have hset : ∀ {x : Call} {db : Database} {client : Client},
        (y.set db x client).client c = .running op p →
        (client = .running op p → CommitLast p) → CommitLast p := by
      intro x db client hrun hown
      by_cases hx : c = x
      · subst hx
        rw [set_client_self] at hrun
        exact hown hrun
      · rw [set_client_other hx] at hrun
        exact ih hrun
    cases step_moves hs with
    | invoke =>
      apply hset hc
      intro hrun
      cases hrun
      exact commitLast_program op
    | @perform _ x op' e next ans db ha hx hp =>
      by_cases hcx : c = x
      · subst hcx
        rw [set_client_self] at hc
        cases hc
        exact (ih hx).next ans
      · rw [set_client_other hcx] at hc
        exact ih hc
    | finish =>
      apply hset hc
      intro hrun
      cases hrun
    | crash =>
      apply hset hc
      intro hrun
      cases hrun
    | settleCommit => exact ih hc
    | settleAbort => exact ih hc
    | tick => exact ih hc

/-- The result of the call is decided. -/
def Heads (s : State) (c : Call) (op : RepositoryCall) (res : RepositoryResult) : Prop :=
  s.client c = .running op (.ret res) ∨ s.client c = .finished op res ∨ s.client c = .crashed op

theorem Moves.heads (hm : Moves s a s') (h : Heads s c op res) : Heads s' c op res := by
  have hset : ∀ {x : Call} {db : Database} {client : Client},
      (c = x → client = .running op (.ret res) ∨ client = .finished op res ∨
        client = .crashed op) → Heads (s.set db x client) c op res := by
    intro x db client hown
    by_cases hx : c = x
    · subst hx
      rw [Heads, set_client_self]
      exact hown rfl
    · rw [Heads, set_client_other hx]
      exact h
  cases hm with
  | invoke hc =>
    apply hset
    rintro rfl
    rcases h with h | h | h <;> cases hc.symm.trans h
  | perform ha hc hp =>
    apply hset
    rintro rfl
    rcases h with h | h | h <;> cases hc.symm.trans h
  | finish rolledBack hc =>
    apply hset
    rintro rfl
    rcases h with h | h | h
    · cases hc.symm.trans h
      exact .inr (.inl rfl)
    · cases hc.symm.trans h
    · cases hc.symm.trans h
  | crash hc =>
    apply hset
    rintro rfl
    rcases h with h | h | h
    · cases hc.symm.trans h
      exact .inr (.inr rfl)
    · cases hc.symm.trans h
    · cases hc.symm.trans h
  | settleCommit => exact h
  | settleAbort => exact h
  | tick => exact h

theorem heads_of_le (h : system.Trace t s) {i j : ℕ} (hij : i ≤ j)
    (hi : Heads (stateAt t s i) c op res) : Heads (stateAt t s j) c op res := by
  apply h.monotone (R := fun x y => Heads x c op res → Heads y c op res) _ _ _ hij hi
  · exact fun _ hx => hx
  · exact fun hab hbc hx => hbc (hab hx)
  · exact fun _ _ _ _ hs => (step_moves hs).heads

/-- A result that was decided is the one that is returned. -/
theorem result_of_heads (h : system.Trace t s) {i : ℕ} (hi : i ≤ t.length)
    (hh : Heads (stateAt t s i) c op res) {op' : RepositoryCall} {res' : RepositoryResult}
    (hc : s.client c = .finished op' res') : res' = res := by
  have hlast := heads_of_le h hi hh
  rw [stateAt_length] at hlast
  rcases hlast with hlast | hlast | hlast
  · cases hc.symm.trans hlast
  · cases hc.symm.trans hlast
    rfl
  · cases hc.symm.trans hlast

omit [Sha256] in
theorem unsent_executes {db db' : Database} {stmt : Stmt} {row : stmt.Row}
    (hx : db.Executes c stmt row db') (hu : Unsent db c) : Unsent db' c ∨ stmt = .commit := by
  cases hx with
  | commit => exact .inr rfl
  | commitFailed => exact .inr rfl
  | transaction => exact .inl (by simp [Unsent, Database.begin, Database.setStatus])
  | rollback => exact .inl (by simp [Unsent, Database.setStatus])
  | _ => exact .inl hu

omit [Sha256] [TextSearch] in
theorem unsent_fail {db : Database} (hu : Unsent db c) : Unsent (db.fail c) c := by
  unfold Database.fail
  split
  · simp [Unsent, Database.setStatus]
  · exact hu

omit [Sha256] in
/-- Only a commit that the server received sends a commit. -/
theorem next_of_sent {db db' : Database} {e : Effect} {fault : Bool} {ans : e.Ans}
    (next : e.Ans → Program Effect Effect.Ans RepositoryResult)
    (hp : Performs db c e fault ans db') (hu : Unsent db c) (hs : ¬ Unsent db' c) :
    ∃ next' : Effect.Ans (.sql .commit) → Program Effect Effect.Ans RepositoryResult,
      Program.call e next = .call (.sql .commit) next' ∧
        (next ans = next' (.ok ()) ∨ next ans = next' (.error .error)) := by
  cases hp with
  | newUuid => exact absurd hu hs
  | row hx =>
    rcases unsent_executes hx hu with hstill | rfl
    · exact absurd hstill hs
    · exact ⟨next, rfl, .inl rfl⟩
  | refused => exact absurd (unsent_fail hu) hs
  | lost hx =>
    rcases unsent_executes hx hu with hstill | rfl
    · exact absurd hstill hs
    · exact ⟨next, rfl, .inr rfl⟩
  | failed => exact absurd (unsent_fail hu) hs
  | doubted => exact ⟨next, rfl, .inr rfl⟩

/-- The commit of a call is sent by the call itself. -/
theorem Invariant.commit_of_sent (h : Invariant t s) (hm : Moves s a s')
    (hu : Unsent s.database c) (hs : ¬ Unsent s'.database c) :
    a.actor = some c ∧ ∃ op next, s.client c = .running op (.call (.sql .commit) next) ∧
      (s'.client c = .running op (next (.ok ())) ∨
        s'.client c = .running op (next (.error .error))) := by
  by_cases ha : a.actor = some c
  · refine ⟨ha, ?_⟩
    cases hm with
    | invoke => exact absurd hu hs
    | @perform _ x op e next ans db hx hc hp =>
      obtain rfl := Option.some.inj (ha.symm.trans hx)
      rw [set_client_self]
      rcases next_of_sent next hp hu hs with ⟨next', hcall, hans⟩
      refine ⟨op, next', by rw [hc, hcall], ?_⟩
      rcases hans with hans | hans
      · exact .inl (by rw [hans])
      · exact .inr (by rw [hans])
    | finish rolledBack hc =>
      cases ha
      exact absurd (unsent_returned hu) hs
    | crash => exact absurd hu hs
    | settleCommit => cases ha
    | settleAbort => cases ha
    | tick => cases ha
  · exact absurd (h.unsent_other hm ha hu) hs

/-- The statement of `c` that failed was its commit. -/
def CommitFailed (t : List (State × Action)) (s : State) (c : Call) : Prop :=
  ∃ i x a op next, t[i]? = some (x, a) ∧ a.actor = some c ∧
    x.client c = .running op (.call (.sql .commit) next) ∧
    (stateAt t s (i + 1)).client c = .running op (next (.error .error))

/-- A call that failed although it sent a commit failed at the commit. -/
theorem commitFailed_of_sent (h : system.Trace t s) {r : Uuid} {document : PutDocument}
    {e : DocumentError} (hc : s.client c = .finished (.put r document) (.put (.error e)))
    (hs : ¬ Unsent s.database c) : CommitFailed t s c ∧ e = .repository := by
  have hend : ¬ Unsent (stateAt t s t.length).database c := by rwa [stateAt_length]
  rcases exists_switch_status (P := fun st => ¬ (st ≠ .committing ∧ st ≠ .committed)) h (by simp)
    hend with ⟨i, hi, hbefore, hafter⟩
  rcases exists_action s hi with ⟨a, ha⟩
  have hunsent : Unsent (stateAt t s i).database c := not_not.mp hbefore
  rcases (invariant_at h i).commit_of_sent (moves_at h ha) hunsent hafter with
    ⟨hactor, op, next, hrun, hnext⟩
  rcases (commitLast_of_running (h.take i) hrun).commit with ⟨⟨outcome, hok⟩, herr⟩
  rcases hnext with hnext | hnext
  · rw [hok] at hnext
    cases result_of_heads h hi (.inl hnext) hc
  · refine ⟨⟨i, _, a, op, next, ha, hactor, hrun, hnext⟩, ?_⟩
    rw [herr] at hnext
    cases result_of_heads h hi (.inl hnext) hc
    rfl

end Steps
end Librarian.Store
