import Librarian.Store.Invariant

/-! # What a request leaves in the store

However many calls of `put` carry one request, one operation and one version of it are
committed at most, and one of each when a call answered that the put succeeded.
-/
namespace Librarian

def RepositoryCall.requestId : RepositoryCall → Option Uuid
  | .put requestId _ => some requestId
  | _ => none

/-- After a put that succeeded its request is recorded with what the put answered. -/
theorem Library.Put.recorded_of_ok [Sha256] {L L' : Library} {requestId : Uuid}
    {document : PutDocument} {res : Except DocumentError PutOutcome}
    (h : L.Put requestId document res L') {outcome : PutOutcome} (hok : res = .ok outcome) :
    L'.recorded requestId = some (outcome.documentId, outcome.version) := by
  cases h with
  | recorded _ _ hr =>
    cases hok
    exact hr
  | created =>
    cases hok
    exact Function.update_self _ _ _
  | appended =>
    cases hok
    exact Function.update_self _ _ _
  | emptyContent => cases hok
  | emptyContentType => cases hok
  | unknownDocument => cases hok

namespace Store
open Foundation Postgres PostgresDocumentRepository

/-- A put of the request is committed. -/
def Processed (db : Database) (requestId : Uuid) : Prop :=
  ∃ o ∈ db.committedOperations, o.requestId = requestId

theorem operation_of_recorded {db : Database} {requestId : Uuid} {key : Uuid × ℤ}
    (h : db.library.recorded requestId = some key) :
    ∃ o ∈ db.committedOperations, o.requestId = requestId ∧ o.key = key := by
  rcases Option.map_eq_some_iff.mp h with ⟨o, ho, hk⟩
  exact ⟨o, List.mem_of_find?_eq_some ho, by simpa using List.find?_some ho, hk⟩

theorem processed_of_recorded {db : Database} {requestId : Uuid} {key : Uuid × ℤ}
    (h : db.library.recorded requestId = some key) : Processed db requestId := by
  rcases operation_of_recorded h with ⟨o, ho, hreq, -⟩
  exact ⟨o, ho, hreq⟩

theorem Processed.mono {db db' : Database} {requestId : Uuid} (h : Processed db requestId)
    (hg : db.Grows db') : Processed db' requestId := by
  rcases h with ⟨o, ho, hreq⟩
  exact ⟨o, hg.operations ho, hreq⟩

/-- The committed operations of a request. -/
def operationsOf (s : State) (requestId : Uuid) : List PutOperationRow :=
  s.database.committedOperations.filter (·.requestId = requestId)

/-- The committed versions written by the puts of a request. -/
def versionsOf (s : State) (requestId : Uuid) : List VersionRow :=
  (s.database.documentVersions.filter fun t => s.database.status t.xmin = .committed ∧
    (s.client t.xmin).op.bind RepositoryCall.requestId = some requestId).map (·.row)

variable [Sha256] [TextSearch] {t : List (State × Action)} {s : State} {c c' : Call}
  {requestId : Uuid}

omit [Sha256] [TextSearch] in
theorem operationsOf_length_le_one (h : s.database.Consistent) (requestId : Uuid) :
    (operationsOf s requestId).length ≤ 1 := by
  apply length_le_one_of_eq
  · exact h.operationKey.nodup_committed.of_map.filter _
  · intro o ho o' ho'
    simp only [operationsOf, List.mem_filter, decide_eq_true_eq] at ho ho'
    exact h.operationKey.eq_of_mem_committed ho.1 ho'.1 (ho.2.trans ho'.2.symm)

omit [Sha256] [TextSearch] in
theorem mem_versionsOf {row : VersionRow} : row ∈ versionsOf s requestId ↔
    ∃ c, s.database.status c = .committed ∧ row ∈ (s.database.footprint c).versions ∧
      (s.client c).op.bind RepositoryCall.requestId = some requestId := by
  simp only [versionsOf, List.mem_map, List.mem_filter, decide_eq_true_eq, Database.mem_versions]
  constructor
  · rintro ⟨⟨c, row⟩, ⟨ht, hc, hr⟩, rfl⟩
    exact ⟨c, hc, ht, hr⟩
  · rintro ⟨c, hc, ht, hr⟩
    exact ⟨⟨c, row⟩, ⟨ht, hc, hr⟩, rfl⟩

/-- Two committed puts of one request are one call. -/
theorem call_eq_of_requestId (h : Invariant t s) (hc : s.database.status c = .committed)
    (hc' : s.database.status c' = .committed) {v v' : VersionRow}
    (hv : v ∈ (s.database.footprint c).versions) (hv' : v' ∈ (s.database.footprint c').versions)
    (hr : (s.client c).op.bind RepositoryCall.requestId = some requestId)
    (hr' : (s.client c').op.bind RepositoryCall.requestId = some requestId) : c = c' := by
  have hop : ∀ {x : Call} {row : VersionRow}, s.database.status x = .committed →
      row ∈ (s.database.footprint x).versions →
      (s.client x).op.bind RepositoryCall.requestId = some requestId →
      ∃ o ∈ (s.database.footprint x).operations, o.requestId = requestId := by
    intro x row hx hrow hreq
    rcases writtenBy_of_version h hrow with ⟨r, document, hop, hw⟩
    obtain rfl : r = requestId := by simpa [hop, RepositoryCall.requestId] using hreq
    cases hops : (s.database.footprint x).operations with
    | nil => exact absurd hops ((h.consistent.wellFormed x).complete (.inr hx))
    | cons o l => exact ⟨o, by simp, hw.request o (by simp [hops])⟩
  rcases hop hc hv hr with ⟨o, ho, hreq⟩
  rcases hop hc' hv' hr' with ⟨o', ho', hreq'⟩
  have heq := h.consistent.operationKey.eq_of_mem (Database.mem_operations.mp ho)
    (Database.mem_operations.mp ho') (by simp [hc]) (by simp [hc']) (hreq.trans hreq'.symm)
  exact congrArg Tuple.xmin heq

theorem versionsOf_length_le_one (h : Invariant t s) (requestId : Uuid) :
    (versionsOf s requestId).length ≤ 1 := by
  have hsub : (versionsOf s requestId).Sublist s.database.committedVersions := by
    apply List.Sublist.map
    apply List.monotone_filter_right
    intro x hx
    simp only [decide_eq_true_eq] at hx ⊢
    exact hx.1
  apply length_le_one_of_eq
  · exact h.consistent.versionKey.nodup_committed.of_map.sublist hsub
  · intro row hrow row' hrow'
    rcases mem_versionsOf.mp hrow with ⟨c, hc, hv, hr⟩
    rcases mem_versionsOf.mp hrow' with ⟨c', hc', hv', hr'⟩
    have hcc := call_eq_of_requestId h hc hc' hv hv' hr hr'
    subst hcc
    exact eq_of_mem_of_length_le_one (h.consistent.wellFormed c).version hv hv'

/-- What a put answered when it succeeded is committed. -/
theorem operation_of_finished (h : Invariant t s) {document : PutDocument} {outcome : PutOutcome}
    (hc : s.client c = .finished (.put requestId document) (.put (.ok outcome))) :
    ∃ o ∈ s.database.committedOperations, o.requestId = requestId ∧
      o.key = (outcome.documentId, outcome.version) := by
  have hfit := h.fits c
  rw [Fits, hc] at hfit
  have hw : (s.database.footprint c).WrittenBy requestId document := hfit.1
  have hanswer := hfit.2.2 _ (h.isView c)
  generalize hop : RepositoryCall.put requestId document = op at hanswer
  generalize hres : RepositoryResult.put (.ok outcome) = res at hanswer
  cases hanswer with
  | failed hf _ =>
    subst hop hres
    cases hf
  | @wrote r document' row hs hrow =>
    cases hres
    exact ⟨row, Database.mem_committedOperations.mpr ⟨c, hs, hrow⟩, hw.request row hrow, rfl⟩
  | @read op res db hdb _ hstep =>
    subst hop hres
    cases hstep with
    | put hput =>
      rcases operation_of_recorded (hput.recorded_of_ok rfl) with ⟨o, ho, hreq, hk⟩
      exact ⟨o, ((h.view c).past db hdb).2.operations ho, hreq, hk⟩
  | searched => cases hop

theorem processed_of_finished (h : Invariant t s) {document : PutDocument} {outcome : PutOutcome}
    (hc : s.client c = .finished (.put requestId document) (.put (.ok outcome))) :
    Processed s.database requestId := by
  rcases operation_of_finished h hc with ⟨o, ho, hreq, -⟩
  exact ⟨o, ho, hreq⟩

end Store
end Librarian
