import Librarian.Store.Atomicity

/-! # A recorded request is recognised

A put of a request that is recorded finds the record before it begins a transaction and
answers with it, whatever document it carries. Only the checks of content and content type
come earlier.
-/
namespace Librarian.Store
open Foundation Postgres PostgresDocumentRepository Program System

/-- The rest of a put that has its connection. -/
def lookup [Sha256] (r : Uuid) (document : PutDocument) :
    Program Effect Effect.Ans RepositoryResult :=
  .call (.sql (.findPutOperation r)) fun
    | .ok (some key) => .ret (.put (.ok ⟨key.1, key.2, true⟩))
    | .ok none => (write r document).run.bind fun res => .ret (.put res)
    | .error _ => .ret (.put (.error .repository))

/-- A put whose document passes the checks. -/
def connect [Sha256] (r : Uuid) (document : PutDocument) :
    Program Effect Effect.Ans RepositoryResult :=
  .call (.sql .connection) fun
    | .ok () => lookup r document
    | .error _ => .ret (.put (.error .repository))

/-- What a put answers that finds `o` recorded. -/
def recognised (document : PutDocument) (o : PutOperationRow) : Except DocumentError PutOutcome :=
  if isBlank document.content then .error .emptyContent
  else if isBlank document.contentType then .error .emptyContentType
  else .ok ⟨o.documentId, o.version, true⟩

theorem program_put [Sha256] (r : Uuid) (document : PutDocument) :
    program (.put r document) =
      if isBlank document.content then .ret (.put (.error .emptyContent))
      else if isBlank document.contentType then .ret (.put (.error .emptyContentType))
      else connect r document := by
  cases hc : isBlank document.content with
  | true =>
    simp [program, put, hc]
    rfl
  | false =>
    cases ht : isBlank document.contentType with
    | true =>
      simp [program, put, hc, ht]
      rfl
    | false =>
      simp only [program, put, hc, ht, Bool.false_eq_true, if_false]
      apply congrArg (Program.call (Effect.sql .connection))
      funext ans
      cases ans with
      | error e => rfl
      | ok =>
        apply congrArg (Program.call (Effect.sql (.findPutOperation r)))
        funext ans
        cases ans with
        | error e => rfl
        | ok row =>
          cases row with
          | none => rfl
          | some key => rfl

/-- How far a put of a recorded request has come. -/
inductive Phase [Sha256] (s : State) (c : Call) (r : Uuid) (document : PutDocument)
    (o : PutOperationRow) : Prop
  | connecting (hv : recognised document o = .ok ⟨o.documentId, o.version, true⟩)
      (h : s.client c = .running (.put r document) (connect r document))
  | looking (hv : recognised document o = .ok ⟨o.documentId, o.version, true⟩)
      (h : s.client c = .running (.put r document) (lookup r document))
  | decided (h : Heads s c (.put r document) (.put (recognised document o)))

section Steps
variable [Sha256] [TextSearch] {t : List (State × Action)} {s s' : State} {a : Action} {c : Call}
  {r : Uuid} {document : PutDocument} {o : PutOperationRow}

omit [TextSearch] in
theorem phase_invoke (hc : s.client c = .running (.put r document) (program (.put r document))) :
    Phase s c r document o := by
  rw [program_put] at hc
  split at hc
  · rename_i hblank
    exact .decided (.inl (by rw [hc, recognised, if_pos hblank]))
  · rename_i hblank
    split at hc
    · rename_i htype
      exact .decided (.inl (by rw [hc, recognised, if_neg hblank, if_pos htype]))
    · rename_i htype
      exact .connecting (by rw [recognised, if_neg hblank, if_neg htype]) hc

omit [Sha256] in
theorem performs_connection {db db' : Database} {ans : Effect.Ans (.sql .connection)}
    (h : Performs db c (.sql .connection) false ans db') :
    ans = .ok () ∧ db'.status = db.status := by
  rcases executes_of_faultless h id with ⟨row, rfl, hx⟩
  cases hx
  exact ⟨rfl, rfl⟩

omit [Sha256] in
theorem performs_lookup {db db' : Database} {ans : Effect.Ans (.sql (.findPutOperation r))}
    (h : Performs db c (.sql (.findPutOperation r)) false ans db')
    (hidle : db.status c = .idle) : ans = .ok (db.library.recorded r) ∧ db' = db := by
  rcases executes_of_faultless h id with ⟨row, rfl, hx⟩
  cases hx
  have hi : (db.status c).inProgress = false := by
    rw [hidle]
    rfl
  exact ⟨congrArg Except.ok (lookup_eq hi), rfl⟩

omit [Sha256] [TextSearch] in
theorem recorded_eq {db : Database} (h : db.Consistent) (ho : o ∈ db.committedOperations)
    (hr : o.requestId = r) : db.library.recorded r = some (o.documentId, o.version) := by
  have hfind : db.committedOperations.find? (fun x => x.requestId = r) = some o :=
    h.operationKey.find?_eq_some.mpr ⟨ho, hr⟩
  rw [Database.library_recorded, hfind]
  rfl

/-- A call whose result is decided begins no transaction. -/
theorem Moves.idle_of_heads (hm : Moves s a s') (ha : a.actor = some c) {op : RepositoryCall}
    {res : RepositoryResult} (hd : Heads s c op res) (hidle : s.database.status c = .idle) :
    s'.database.status c = .idle := by
  cases hm with
  | invoke => exact hidle
  | perform hx hc =>
    obtain rfl := Option.some.inj (ha.symm.trans hx)
    rcases hd with hd | hd | hd <;> cases hc.symm.trans hd
  | finish rolledBack hc =>
    cases ha
    exact idle_returned hidle
  | crash => exact hidle
  | settleCommit => cases ha
  | settleAbort => cases ha
  | tick => exact hidle

omit [TextSearch] in
theorem Phase.congr (h : Phase s c r document o) (hc : s'.client c = s.client c) :
    Phase s' c r document o := by
  cases h with
  | connecting hv hrun => exact .connecting hv (hc.trans hrun)
  | looking hv hrun => exact .looking hv (hc.trans hrun)
  | decided hd =>
    rw [Heads, ← hc] at hd
    exact .decided hd

/-- A step that is no fault takes a put of a recorded request one phase further. -/
theorem Invariant.phase_step (h : Invariant t s) (hm : Moves s a s') (hf : a.faults s c = false)
    (ho : o ∈ s.database.committedOperations) (hr : o.requestId = r)
    (hidle : s.database.status c = .idle) (hp : Phase s c r document o) :
    s'.database.status c = .idle ∧ Phase s' c r document o := by
  by_cases ha : a.actor = some c
  · cases hp with
    | connecting hv hrun =>
      rcases hm.perform_or_crash ha hrun with ⟨ans, db, hperf, rfl⟩ | rfl
      · rw [hf] at hperf
        rcases performs_connection hperf with ⟨rfl, hstatus⟩
        refine ⟨?_, .looking hv set_client_self⟩
        change db.status c = .idle
        rw [hstatus, hidle]
      · exact ⟨hidle, .decided (.inr (.inr set_client_self))⟩
    | looking hv hrun =>
      rcases hm.perform_or_crash ha hrun with ⟨ans, db, hperf, rfl⟩ | rfl
      · rw [hf] at hperf
        rcases performs_lookup hperf hidle with ⟨rfl, rfl⟩
        refine ⟨hidle, .decided (.inl ?_)⟩
        rw [set_client_self, recorded_eq h.consistent ho hr, hv]
      · exact ⟨hidle, .decided (.inr (.inr set_client_self))⟩
    | decided hd => exact ⟨hm.idle_of_heads ha hd hidle, .decided (hm.heads hd)⟩
  · refine ⟨h.idle_other hm ha hidle, ?_⟩
    exact hp.congr (hm.client_other ha)

end Steps

section Runs
variable [Sha256] [TextSearch] {t : List (State × Action)} {s before : State} {c : Call}
  {r : Uuid} {document : PutDocument} {o : PutOperationRow} {i j k : ℕ}

omit [Sha256] [TextSearch] in
theorem GrewBy.operations {s s' : State} {calls : Finset Call} (h : GrewBy s s' calls)
    (ho : o ∈ s.database.committedOperations) : o ∈ s'.database.committedOperations := by
  have hrows := congrArg (·.2.2) h.tables
  have hmem : o ∈ (Store.tables s'.database).2.2 := by
    rw [hrows]
    exact Multiset.mem_add.mpr (.inl ho)
  exact hmem

theorem operations_of_le (h : system.Trace t s) (hij : i ≤ j)
    (ho : o ∈ (stateAt t s i).database.committedOperations) :
    o ∈ (stateAt t s j).database.committedOperations := by
  rcases exists_grewBy h hij with ⟨calls, hgrew⟩
  exact hgrew.operations ho

/-- A put of a recorded request that no fault strikes goes from phase to phase. -/
theorem phase_of_le (h : system.Trace t s)
    (hj : t[j]? = some (before, .invoke c (.put r document)))
    (ho : o ∈ before.database.committedOperations) (hr : o.requestId = r)
    (hf : faulty t c = false) (hjk : j + 1 ≤ k) (hk : k ≤ t.length) :
    (stateAt t s k).database.status c = .idle ∧ Phase (stateAt t s k) c r document o := by
  induction k, hjk using Nat.le_induction with
  | base =>
    have hidle := status_of_invoke h hj
    rw [step_invoke (h.step_at hj)]
    exact ⟨hidle, phase_invoke set_client_self⟩
  | succ k hjk ih =>
    rcases exists_action s hk with ⟨a, ha⟩
    rcases ih (by omega) with ⟨hidle, hphase⟩
    have hrecorded : o ∈ (stateAt t s k).database.committedOperations := by
      rw [← stateAt_get (s := s) hj] at ho
      exact operations_of_le h (by omega) ho
    have hsound : a.faults (stateAt t s k) c = false := faults_of_faulty hf ha
    exact (invariant_at h k).phase_step (moves_at h ha) hsound hrecorded hr hidle hphase

/-- Call `c` can go on alone until it has returned `res`, with no table changed. -/
def CanFinish (s : State) (c : Call) (op : RepositoryCall) (res : RepositoryResult) : Prop :=
  ∃ actions s', (∀ a ∈ actions, a.actor = some c) ∧ run step s actions = some s' ∧
    s'.client c = .finished op res ∧ tables s'.database = tables s.database

/-- After a run: puts of recorded requests answer what `answer` says and write nothing, and they
can always go on to their answer. -/
structure Recognises [Sha256] [TextSearch]
    (answer : PutDocument → PutOperationRow → Except DocumentError PutOutcome)
    (t : List (State × Action)) (s : State) : Prop where
  answers : ∀ (i j : ℕ) (before : State) c o document res,
    o ∈ (stateAt t s i).database.committedOperations → i ≤ j →
    t[j]? = some (before, .invoke c (.put o.requestId document)) → faulty t c = false →
    s.client c = .finished (.put o.requestId document) res →
    res = .put (answer document o) ∧ ∃ others, GrewBy before s others ∧ c ∉ others
  returns : ∀ c o document, o ∈ s.database.committedOperations → s.client c = .idle →
    s.database.poolFull c = false →
      CanFinish s c (.put o.requestId document) (.put (answer document o))

theorem answers_recognised (h : system.Trace t s) {res : RepositoryResult}
    (ho : o ∈ (stateAt t s i).database.committedOperations) (hij : i ≤ j)
    (hj : t[j]? = some (before, .invoke c (.put o.requestId document))) (hf : faulty t c = false)
    (hc : s.client c = .finished (.put o.requestId document) res) :
    res = .put (recognised document o) ∧ ∃ others, GrewBy before s others ∧ c ∉ others := by
  have hlt := (List.getElem?_eq_some_iff.mp hj).1
  have hbefore := operations_of_le h hij ho
  rw [stateAt_get hj] at hbefore
  have hphase := phase_of_le h hj hbefore rfl hf hlt (Nat.le_refl _)
  rw [stateAt_length] at hphase
  rcases hphase with ⟨hidle, hphase⟩
  constructor
  · cases hphase with
    | connecting _ hrun => cases hc.symm.trans hrun
    | looking _ hrun => cases hc.symm.trans hrun
    | decided hd =>
      rcases hd with hd | hd | hd
      · cases hc.symm.trans hd
      · cases hc.symm.trans hd
        rfl
      · cases hc.symm.trans hd
  · rcases exists_grewBy h (Nat.le_of_lt hlt) with ⟨others, hgrew⟩
    rw [stateAt_length, stateAt_get hj] at hgrew
    refine ⟨others, hgrew, fun hin => ?_⟩
    cases hidle.symm.trans ((hgrew.mem c).mp hin).1

theorem CanFinish.step {op : RepositoryCall} {res : RepositoryResult} {s₁ : State} {a : Action}
    (h : CanFinish s₁ c op res) (hs : Store.step s a = some s₁) (ha : a.actor = some c)
    (ht : tables s₁.database = tables s.database) : CanFinish s c op res := by
  rcases h with ⟨actions, s', hactors, hrun, hc, htables⟩
  refine ⟨a :: actions, s', ?_, ?_, hc, htables.trans ht⟩
  · intro b hb
    rcases List.mem_cons.mp hb with rfl | hb
    · exact ha
    · exact hactors b hb
  · rw [run_cons, hs]
    exact hrun

theorem canFinish_ret {op : RepositoryCall} {res : RepositoryResult}
    (hc : s.client c = .running op (.ret res)) : CanFinish s c op res := by
  refine ⟨[.finish c false], s.set (s.database.release c) c (.finished op res), by simp [Action.actor],
    ?_, set_client_self, rfl⟩
  simp [run_cons, run_nil, Store.step, hc, returned]

theorem canFinish_lookup (plan : Plan) (hs : s.database.status c = .idle)
    (hr : s.database.library.recorded r = some (o.documentId, o.version))
    (hc : s.client c = .running (.put r document) (lookup r document)) :
    CanFinish s c (.put r document) (.put (.ok ⟨o.documentId, o.version, true⟩)) := by
  have hi : (s.database.status c).inProgress = false := by
    rw [hs]
    rfl
  have hfound := (lookup_eq (r := r) hi).trans hr
  have hstep : Store.step s (.exec c plan) = some (s.set s.database c (.running (.put r document)
      (.ret (.put (.ok ⟨o.documentId, o.version, true⟩))))) := by
    simp [Store.step, hc, lookup, Database.exec, hfound]
  exact (canFinish_ret set_client_self).step hstep rfl rfl

/-- A put of a recorded request that runs alone returns at once or after two statements. -/
theorem canFinish_recognised (plan : Plan) (h : s.database.Consistent)
    (ho : o ∈ s.database.committedOperations) (hc : s.client c = .idle)
    (hs : s.database.status c = .idle) (hpool : s.database.poolFull c = false) :
    CanFinish s c (.put o.requestId document) (.put (recognised document o)) := by
  have hrecorded := recorded_eq h ho rfl
  have hinvoke : Store.step s (.invoke c (.put o.requestId document)) = some (s.set s.database c
    (.running (.put o.requestId document) (program (.put o.requestId document)))) := by
    simp [Store.step, hc]
  refine CanFinish.step ?_ hinvoke rfl rfl
  rw [program_put, recognised]
  split
  · exact canFinish_ret set_client_self
  · split
    · exact canFinish_ret set_client_self
    · have hconnect : Store.step (s.set s.database c (.running (.put o.requestId document)
          (connect o.requestId document))) (.exec c plan) = some ((s.set s.database c
          (.running (.put o.requestId document) (connect o.requestId document))).set
          (s.database.acquire c) c (.running (.put o.requestId document)
            (lookup o.requestId document))) := by
        simp [Store.step, State.set, connect, Database.exec, hpool]
      refine CanFinish.step ?_ hconnect rfl rfl
      exact canFinish_lookup plan hs hrecorded set_client_self

/-- Every put of a recorded request on a working database answers with the record, whatever its
document, or that its content or content type is empty, and writes nothing. -/
theorem recognises_of_trace (h : system.Trace t s) : Recognises recognised t s where
  answers _ _ _ _ _ _ _ ho hij hj hf hc := answers_recognised h ho hij hj hf hc
  returns c o document ho hc hpool := by
    have hinv := invariant_of_trace h
    exact canFinish_recognised samplePlan hinv.consistent ho hc (hinv.status_of_idle hc) hpool

end Runs

section Sample

/-- A put, and a put of the same request with another document. -/
def repeatedRun (document : PutDocument) (n : ℕ) : List Action :=
  createRun ⟨0, 0⟩ 1 7 "alpha" ++ .invoke ⟨1, 0⟩ (.put 1 document) :: execs ⟨1, 0⟩ n ++
    [.finish ⟨1, 0⟩ true]

/-- The repeated put names another document, which does not exist, and an empty title. -/
theorem recognises_repeatedRun :
    @Recognises sampleSha256 sampleSearch recognised
        (sampleRecord (repeatedRun ⟨some 9, "beta", "text/plain", some "", none⟩ 2))
        ((sampleRun (repeatedRun ⟨some 9, "beta", "text/plain", some "", none⟩ 2)).get
          (by decide +kernel)) ∧
      (((sampleRun (repeatedRun ⟨some 9, "beta", "text/plain", some "", none⟩ 2)).get
        (by decide +kernel)).client ⟨1, 0⟩).result =
          some (RepositoryResult.put (.ok ⟨7, 1, true⟩)) :=
  ⟨@recognises_of_trace sampleSha256 sampleSearch _ _ (trace_sampleRun _), by decide +kernel⟩

/-- A repeated put with empty content is not recognised. -/
theorem not_recognises_emptyContent :
    (@system sampleSha256 sampleSearch).Trace
        (sampleRecord (repeatedRun (sampleDocument none "") 0))
        ((sampleRun (repeatedRun (sampleDocument none "") 0)).get (by decide +kernel)) ∧
      ¬ @Recognises sampleSha256 sampleSearch (fun _ o => .ok ⟨o.documentId, o.version, true⟩)
        (sampleRecord (repeatedRun (sampleDocument none "") 0))
        ((sampleRun (repeatedRun (sampleDocument none "") 0)).get (by decide +kernel)) := by
  refine ⟨trace_sampleRun _, fun h => ?_⟩
  have hinvoke : ∃ before, (sampleRecord (repeatedRun (sampleDocument none "") 0))[13]? =
      some (before, .invoke ⟨1, 0⟩ (.put 1 (sampleDocument none ""))) := ⟨_, rfl⟩
  rcases hinvoke with ⟨before, hinvoke⟩
  have hrecorded : (⟨1, 7, 1, 0⟩ : PutOperationRow) ∈
      (stateAt (sampleRecord (repeatedRun (sampleDocument none "") 0))
        ((sampleRun (repeatedRun (sampleDocument none "") 0)).get (by decide +kernel))
        13).database.committedOperations := by decide +kernel
  have hanswer := @Recognises.answers sampleSha256 sampleSearch _ _ _ h 13 13 before ⟨1, 0⟩
    ⟨1, 7, 1, 0⟩ (sampleDocument none "") (.put (.error .emptyContent)) hrecorded (Nat.le_refl 13)
    hinvoke (by decide +kernel) rfl
  cases hanswer.1

end Sample
end Librarian.Store
