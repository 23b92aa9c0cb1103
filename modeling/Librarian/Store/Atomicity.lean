import Librarian.Store.Commit
import Librarian.Store.Idempotency
import Mathlib.Algebra.BigOperators.Group.Finset.Basic
import Mathlib.Algebra.Order.Group.Multiset

/-! # A put writes everything or nothing

Between two moments of a run the committed tables grow by the rows of the calls that
committed in between. A put that fails is among them only if its commit was what failed, and
then with all of its rows; and puts of one request that are repeated until one succeeds
leave one version, which is the one that is returned.
-/
namespace Librarian.Store
open Foundation Postgres PostgresDocumentRepository Program System

/-- Rows of the three tables, in no order. -/
abbrev Tables := Multiset DocumentRow × Multiset VersionRow × Multiset PutOperationRow

/-- The committed rows. -/
def tables (db : Database) : Tables :=
  (db.committedDocuments, db.committedVersions, db.committedOperations)

/-- The rows call `c` wrote. -/
def rowsOf (db : Database) (c : Call) : Tables :=
  ((db.footprint c).documents, (db.footprint c).versions, (db.footprint c).operations)

section Growth
variable {db db' : Database} {c x : Call}

theorem Calm.tables (h : Calm db c db') : tables db' = tables db := by
  rw [Store.tables, Store.tables, h.quiet.documents, h.quiet.versions, h.quiet.operations]

theorem Commits.tables (h : Commits db c db') : tables db' = tables db + rowsOf db c := by
  have hs := TxStatus.ne_committed_of_inProgress h.inProgress
  rw [h.database]
  simp only [Store.tables, rowsOf, Prod.mk_add_mk, Multiset.coe_add]
  refine Prod.ext ?_ (Prod.ext ?_ ?_)
  · exact Multiset.coe_eq_coe.mpr (Heap.committedRows_commit_perm _ hs)
  · exact Multiset.coe_eq_coe.mpr (Heap.committedRows_commit_perm _ hs)
  · exact Multiset.coe_eq_coe.mpr (Heap.committedRows_commit_perm _ hs)

theorem rowsOf_executes [TextSearch] {s : Stmt} {a : s.Row} (h : db.Executes x s a db')
    (hc : db.status c = .committed) : rowsOf db' c = rowsOf db c := by
  have hne : db.status x = .active → x ≠ c := by
    rintro hx rfl
    simp [hx] at hc
  cases h with
  | insertDocument ha =>
    simp [rowsOf, Database.footprint, Database.addDocument, Heap.rowsOf_append_other (hne ha)]
  | insertVersion ha =>
    simp [rowsOf, Database.footprint, Database.addVersion, Heap.rowsOf_append_other (hne ha)]
  | insertPutOperation ha =>
    simp [rowsOf, Database.footprint, Database.addPutOperation, Heap.rowsOf_append_other (hne ha)]
  | _ => rfl

theorem rowsOf_fail : rowsOf (db.fail x) c = rowsOf db c := by
  unfold Database.fail
  split <;> rfl

theorem rowsOf_performs [TextSearch] {e : Effect} {fault : Bool} {ans : e.Ans}
    (h : Performs db x e fault ans db') (hc : db.status c = .committed) :
    rowsOf db' c = rowsOf db c := by
  cases h with
  | newUuid => rfl
  | row hx => exact rowsOf_executes hx hc
  | refused => exact rowsOf_fail
  | lost hx => exact rowsOf_executes hx hc
  | failed => exact rowsOf_fail
  | doubted =>
    unfold sendCommit
    split <;> rfl

theorem rowsOf_returned (rolledBack : Bool) : rowsOf (returned db x rolledBack) c = rowsOf db c := by
  rcases returned_cases db x rolledBack with hr | ⟨-, hr⟩
  · rw [hr]
    rfl
  · rw [hr]
    rfl

end Growth

/-- From `s` to `s'` the tables grew by the rows of `calls`, which are those that committed. -/
structure GrewBy (s s' : State) (calls : Finset Call) : Prop where
  committed : ∀ c, s.database.status c = .committed → s'.database.status c = .committed
  rows : ∀ c, s.database.status c = .committed →
    Store.rowsOf s'.database c = Store.rowsOf s.database c
  mem : ∀ c, c ∈ calls ↔ s'.database.status c = .committed ∧ s.database.status c ≠ .committed
  tables : tables s'.database = tables s.database + ∑ c ∈ calls, Store.rowsOf s'.database c

theorem GrewBy.refl (s : State) : GrewBy s s ∅ where
  committed _ h := h
  rows _ _ := rfl
  mem c := by simp
  tables := by simp

theorem GrewBy.trans {s₁ s₂ s₃ : State} {calls calls' : Finset Call} (h : GrewBy s₁ s₂ calls)
    (h' : GrewBy s₂ s₃ calls') : GrewBy s₁ s₃ (calls ∪ calls') where
  committed c hc := h'.committed c (h.committed c hc)
  rows c hc := (h'.rows c (h.committed c hc)).trans (h.rows c hc)
  mem c := by
    rw [Finset.mem_union, h.mem, h'.mem]
    have hfirst := h.committed c
    have hsecond := h'.committed c
    tauto
  tables := by
    have hdisjoint : Disjoint calls calls' := by
      rw [Finset.disjoint_left]
      intro c hc hc'
      exact ((h'.mem c).mp hc').2 ((h.mem c).mp hc).1
    have hrows : ∑ c ∈ calls, Store.rowsOf s₃.database c =
        ∑ c ∈ calls, Store.rowsOf s₂.database c :=
      Finset.sum_congr rfl fun c hc => h'.rows c ((h.mem c).mp hc).1
    rw [h'.tables, h.tables, Finset.sum_union hdisjoint, hrows, add_assoc]

section Runs
variable [Sha256] [TextSearch] {t : List (State × Action)} {s s' : State} {a : Action} {c : Call}

theorem Moves.rowsOf (hm : Moves s a s') (hc : s.database.status c = .committed) :
    rowsOf s'.database c = rowsOf s.database c := by
  cases hm with
  | perform ha hrun hp => exact rowsOf_performs hp hc
  | finish rolledBack hrun => exact rowsOf_returned rolledBack
  | _ => rfl

theorem Invariant.grewBy (h : Invariant t s) (hm : Moves s a s') : ∃ calls, GrewBy s s' calls := by
  rcases h.calm_or_commits hm with ⟨x, hcalm⟩ | ⟨x, hcommits, -⟩
  · refine ⟨∅, fun c hc => (hcalm.committed c).mpr hc, fun c hc => hm.rowsOf hc, fun c => ?_, ?_⟩
    · simp [hcalm.committed c]
    · simp [hcalm.tables]
  · have hbefore := TxStatus.ne_committed_of_inProgress hcommits.inProgress
    have hrows : Store.rowsOf s'.database x = Store.rowsOf s.database x := by
      rw [hcommits.database]
      rfl
    refine ⟨{x}, fun c hc => ?_, fun c hc => hm.rowsOf hc, fun c => ?_, ?_⟩
    · by_cases hx : c = x
      · rw [hx, hcommits.self]
      · rw [hcommits.other hx, hc]
    · by_cases hx : c = x
      · simp [hx, hcommits.self, hbefore]
      · simp [hx, hcommits.other hx]
    · rw [hcommits.tables, Finset.sum_singleton, hrows]

/-- The tables grow by what is committed, and by nothing else. -/
theorem exists_grewBy (h : system.Trace t s) {i j : ℕ} (hij : i ≤ j) :
    ∃ calls, GrewBy (stateAt t s i) (stateAt t s j) calls := by
  apply h.monotone (R := fun x y => ∃ calls, GrewBy x y calls) _ _ _ hij
  · exact fun x => ⟨∅, .refl x⟩
  · rintro x y z ⟨calls, hcalls⟩ ⟨calls', hcalls'⟩
    exact ⟨calls ∪ calls', hcalls.trans hcalls'⟩
  · rintro x b y ⟨u, hu⟩ hs
    exact (invariant_of_trace hu).grewBy (step_moves hs)

/-- Exactly what a put of `document` writes: version `v`, its put operation `o` and, for a new
document, its documents row. -/
structure Complete [Sha256] (r : Uuid) (document : PutDocument) (rows : Tables) (v : VersionRow)
    (o : PutOperationRow) : Prop where
  versions : rows.2.1 = {v}
  operations : rows.2.2 = {o}
  request : o.requestId = r
  key : o.key = v.key
  content : readVersion v =
    .ok (Library.entry v.documentId v.version document (epochSeconds v.createdAt))
  documents : match document.documentId with
    | none => ∃ d, rows.1 = {d} ∧ v.key = (d.documentId, 1)
    | some d => rows.1 = 0 ∧ v.documentId = d

theorem exists_complete (h : Invariant t s) {r : Uuid} {document : PutDocument}
    (hop : (s.client c).op = some (.put r document)) (hs : s.database.status c = .committed) :
    ∃ v o, Complete r document (Store.rowsOf s.database c) v o := by
  have hwf := h.consistent.wellFormed c
  rcases List.exists_mem_of_ne_nil _ (hwf.complete (.inr hs)) with ⟨o, ho⟩
  rcases hwf.recorded o ho with ⟨v, hv, hk⟩
  rcases writtenBy_of_version h hv with ⟨r', document', hop', hw⟩
  cases hop.symm.trans hop'
  have hversions := eq_singleton_of_mem hwf.version hv
  refine ⟨v, o, ?_, ?_, hw.request o ho, hk.symm, hw.version v hv, ?_⟩
  · simp [Store.rowsOf, hversions]
  · simp [Store.rowsOf, eq_singleton_of_mem hwf.operation ho]
  · cases hdocuments : (s.database.footprint c).documents with
    | nil =>
      rw [hw.appended v hv hdocuments]
      exact ⟨by simp [Store.rowsOf, hdocuments], rfl⟩
    | cons d l =>
      have hd : d ∈ (s.database.footprint c).documents := by simp [hdocuments]
      have hnew := hw.created (by simp [hversions]) (by simp [hdocuments])
      rw [hnew]
      exact ⟨d, by simp [Store.rowsOf, eq_singleton_of_mem hwf.document hd], hwf.created d hd v hv⟩

/-- What a put that failed with `e` did to the tables since `before`, where `others` committed
in the meantime. -/
inductive Leaves [Sha256] (t : List (State × Action)) (before s : State) (c : Call) (r : Uuid)
    (document : PutDocument) (e : DocumentError) (others : Finset Call) : Prop
  | nothing (h : tables s.database =
      tables before.database + ∑ x ∈ others, Store.rowsOf s.database x)
  | everything (he : e = .repository) (hf : CommitFailed t s c) {v : VersionRow}
      {o : PutOperationRow} (hc : Complete r document (Store.rowsOf s.database c) v o)
      (h : tables s.database = tables before.database +
        ∑ x ∈ others, Store.rowsOf s.database x + Store.rowsOf s.database c)

/-- Exactly one version is recorded for the request, and `outcome` names it. -/
def Converged (s : State) (r : Uuid) (outcome : PutOutcome) : Prop :=
  ∃ v o, versionsOf s r = [v] ∧ operationsOf s r = [o] ∧
    v.key = (outcome.documentId, outcome.version) ∧ o.key = (outcome.documentId, outcome.version)

/-- After a run: failed puts left nothing or everything, and a request of which some put
succeeded has one version. -/
structure AllOrNothing [Sha256] (t : List (State × Action)) (s : State) : Prop where
  failed : ∀ (i : ℕ) (before : State) c r document e,
    t[i]? = some (before, .invoke c (.put r document)) →
    s.client c = .finished (.put r document) (.put (.error e)) →
    ∃ others : Finset Call, (∀ x, x ∈ others ↔ x ≠ c ∧
      s.database.status x = .committed ∧ before.database.status x ≠ .committed) ∧
      Leaves t before s c r document e others
  succeeded : ∀ c r document outcome,
    s.client c = .finished (.put r document) (.put (.ok outcome)) → Converged s r outcome

theorem status_of_invoke (h : system.Trace t s) {i : ℕ} {before : State} {op : RepositoryCall}
    (hi : t[i]? = some (before, .invoke c op)) : before.database.status c = .idle := by
  have hinv := invariant_at h i
  rw [stateAt_get hi] at hinv
  exact hinv.status_of_idle (idle_of_invoke h hi)

theorem leaves_of_failed (h : system.Trace t s) {i : ℕ} {before : State} {r : Uuid}
    {document : PutDocument} {e : DocumentError}
    (hi : t[i]? = some (before, .invoke c (.put r document)))
    (hc : s.client c = .finished (.put r document) (.put (.error e))) :
    ∃ others : Finset Call, (∀ x, x ∈ others ↔ x ≠ c ∧ s.database.status x = .committed ∧
      before.database.status x ≠ .committed) ∧ Leaves t before s c r document e others := by
  have hlt := (List.getElem?_eq_some_iff.mp hi).1
  rcases exists_grewBy h (Nat.le_of_lt hlt) with ⟨calls, hgrew⟩
  rw [stateAt_length, stateAt_get hi] at hgrew
  refine ⟨calls.erase c, fun x => ?_, ?_⟩
  · rw [Finset.mem_erase, hgrew.mem]
  by_cases hs : s.database.status c = .committed
  · have hsent : ¬ Unsent s.database c := fun hu => hu.2 hs
    have hfresh : before.database.status c ≠ .committed := by
      rw [status_of_invoke h hi]
      decide
    have hin : c ∈ calls := (hgrew.mem c).mpr ⟨hs, hfresh⟩
    rcases commitFailed_of_sent h hc hsent with ⟨hf, he⟩
    rcases exists_complete (invariant_of_trace h) (by rw [hc]; rfl) hs with ⟨v, o, hcomplete⟩
    refine .everything he hf hcomplete ?_
    rw [hgrew.tables, add_assoc, Finset.sum_erase_add _ _ hin]
  · have hout : c ∉ calls := fun hin => hs ((hgrew.mem c).mp hin).1
    rw [Finset.erase_eq_of_notMem hout]
    exact .nothing hgrew.tables

/-- A recorded request has one version, the one its operation names. -/
theorem converged_of_operation (h : Invariant t s) {r : Uuid} {o : PutOperationRow}
    (ho : o ∈ s.database.committedOperations) (hr : o.requestId = r) :
    ∃ v, versionsOf s r = [v] ∧ operationsOf s r = [o] ∧ v.key = o.key := by
  rcases Database.mem_committedOperations.mp ho with ⟨x, hx, hm⟩
  rcases (h.consistent.wellFormed x).recorded o hm with ⟨v, hv, hk⟩
  rcases writtenBy_of_version h hv with ⟨r', document, hop, hw⟩
  obtain rfl : r' = r := (hw.request o hm).symm.trans hr
  have hversion : v ∈ versionsOf s r' :=
    mem_versionsOf.mpr ⟨x, hx, hv, by simp [hop, RepositoryCall.requestId]⟩
  have hoperation : o ∈ operationsOf s r' := by simp [operationsOf, ho, hr]
  exact ⟨v, eq_singleton_of_mem (versionsOf_length_le_one h r') hversion,
    eq_singleton_of_mem (operationsOf_length_le_one h.consistent r') hoperation, hk⟩

theorem converged_of_succeeded (h : Invariant t s) {r : Uuid} {document : PutDocument}
    {outcome : PutOutcome} (hc : s.client c = .finished (.put r document) (.put (.ok outcome))) :
    Converged s r outcome := by
  rcases operation_of_finished h hc with ⟨o, ho, hr, hk⟩
  rcases converged_of_operation h ho hr with ⟨v, hversions, hoperations, hkey⟩
  exact ⟨v, o, hversions, hoperations, hkey.trans hk, hk⟩

/-- A put is all or nothing wherever it fails, and repeating it until it succeeds leaves
exactly one version of its request, the one that is returned. -/
theorem allOrNothing_of_trace (h : system.Trace t s) : AllOrNothing t s where
  failed _ _ _ _ _ _ hi hc := leaves_of_failed h hi hc
  succeeded _ _ _ _ hc := converged_of_succeeded (invariant_of_trace h) hc

end Runs

section Sample

def Client.result : Client → Option RepositoryResult
  | .finished _ res => some res
  | _ => none

/-- A put whose commit is carried out and whose answer is lost, and its repetition. -/
def lostCommitRun : List Action :=
  .invoke ⟨0, 0⟩ (.put 1 (sampleDocument none "alpha")) ::
    execs ⟨0, 0⟩ 3 ++ .newUuid ⟨0, 0⟩ 7 :: execs ⟨0, 0⟩ 6 ++
    [.lose ⟨0, 0⟩ samplePlan, .finish ⟨0, 0⟩ true,
      .invoke ⟨1, 0⟩ (.put 1 (sampleDocument none "alpha"))] ++
    execs ⟨1, 0⟩ 2 ++ [.finish ⟨1, 0⟩ true]

theorem allOrNothing_lostCommitRun :
    @AllOrNothing sampleSha256 (sampleRecord lostCommitRun)
        ((sampleRun lostCommitRun).get (by decide +kernel)) ∧
      (((sampleRun lostCommitRun).get (by decide +kernel)).client ⟨0, 0⟩).result =
        some (RepositoryResult.put (.error .repository)) ∧
      (((sampleRun lostCommitRun).get (by decide +kernel)).client ⟨1, 0⟩).result =
        some (RepositoryResult.put (.ok ⟨7, 1, true⟩)) :=
  ⟨@allOrNothing_of_trace sampleSha256 sampleSearch _ _ (trace_sampleRun _),
    by decide +kernel, by decide +kernel⟩

end Sample
end Librarian.Store
