import Librarian.Store.Recognition

/-! # Documents that the schema refuses

A put checks that content and content type are not blank; the table also limits lengths, refuses
NUL and generates a search vector, whose size is limited. A document between the two fails like a
broken database, unless the put never comes to store it.
-/
namespace Librarian
namespace Store
open Foundation Postgres PostgresDocumentRepository Program System

/-- What a put does once it has its document and version. -/
def store [Sha256] (r : Uuid) (document : PutDocument) (key : Uuid × ℤ) : Repo PutOutcome := do
  insertVersionSql key.1 key.2 document
  let inserted ← insertPutOperationSql r key.1 key.2
  if inserted = 0 then reportWinner r
  else do
    query .commit
    pure ⟨key.1, key.2, false⟩

/-- Every way through the program inserts a version of `document` or fails the put before. -/
def Doomed (document : PutDocument) : Program Effect Effect.Ans RepositoryResult → Prop
  | .ret res => res = .put (.error .repository)
  | .call (.sql (.insertVersion _ _ inserted _)) next =>
    inserted = document ∧ next (.error .error) = .ret (.put (.error .repository))
  | .call _ next => ∀ ans, Doomed document (next ans)

section Programs
variable [Sha256] {r : Uuid} {document : PutDocument}

theorem doomed_store (key : Uuid × ℤ) :
    Doomed document ((store r document key).run.bind fun res => .ret (.put res)) := ⟨rfl, rfl⟩

/-- The rest of a put that has begun its transaction. -/
def choose (r : Uuid) (document : PutDocument) : Program Effect Effect.Ans RepositoryResult :=
  (target document.documentId >>= store r document).run.bind fun res => .ret (.put res)

/-- The rest of a put that found no record. -/
def proceed (r : Uuid) (document : PutDocument) : Program Effect Effect.Ans RepositoryResult :=
  (write r document).run.bind fun res => .ret (.put res)

theorem proceed_eq (r : Uuid) (document : PutDocument) : ∃ next,
    proceed r document = .call (.sql .transaction) next ∧ next (.ok ()) = choose r document ∧
      next (.error .error) = .ret (.put (.error .repository)) := ⟨_, rfl, rfl, rfl⟩

theorem doomed_choose (hd : document.documentId = none) : Doomed document (choose r document) := by
  rw [choose, hd]
  intro u ans
  cases ans with
  | ok a => exact doomed_store (u, 1)
  | error e => rfl

theorem choose_eq {d : Uuid} (hd : document.documentId = some d) : ∃ next,
    choose r document = .call (.sql (.lockDocument d)) next ∧
      Doomed document (next (.ok true)) ∧
      next (.ok false) = .ret (.put (.error .unknownDocument)) ∧
      next (.error .error) = .ret (.put (.error .repository)) := by
  rw [choose, hd]
  refine ⟨_, rfl, ?_, rfl, rfl⟩
  intro ans
  cases ans with
  | ok v => exact doomed_store (d, v)
  | error e => rfl

/-- A put that has begun is doomed or locks the document it names. -/
theorem choose_cases (r : Uuid) (document : PutDocument) :
    Doomed document (choose r document) ∨ ∃ d next, document.documentId = some d ∧
      choose r document = .call (.sql (.lockDocument d)) next ∧
      Doomed document (next (.ok true)) ∧
      next (.ok false) = .ret (.put (.error .unknownDocument)) ∧
      next (.error .error) = .ret (.put (.error .repository)) := by
  cases hd : document.documentId with
  | none => exact .inl (doomed_choose hd)
  | some d =>
    rcases choose_eq (r := r) hd with ⟨next, h⟩
    exact .inr ⟨d, next, rfl, h⟩

end Programs

/-- The request was recorded when the put looked it up. -/
def Found [Sha256] (t : List (State × Action)) (c : Call) (r : Uuid) (document : PutDocument) :
    Prop :=
  ∃ p ∈ t, p.2.actor = some c ∧ p.1.client c = .running (.put r document) (lookup r document) ∧
    Processed p.1.database r

/-- The document that the put names did not exist when the put locked it. -/
def Missing [Sha256] (t : List (State × Action)) (c : Call) (r : Uuid) (document : PutDocument) :
    Prop :=
  ∃ p ∈ t, ∃ d, p.2.actor = some c ∧ p.1.client c = .running (.put r document) (choose r document) ∧
    document.documentId = some d ∧ ¬ p.1.database.HasDocument d

/-- What spares a put from storing its document. -/
def Spared [Sha256] (t : List (State × Action)) (c : Call) (r : Uuid) (document : PutDocument) :
    Prop := Found t c r document ∨ Missing t c r document

/-- How far a put has come whose document passes its checks and not those of the schema. -/
inductive Course [Sha256] (t : List (State × Action)) (s : State) (c : Call) (r : Uuid)
    (document : PutDocument) : Prop
  | connecting (hi : s.database.status c = .idle)
      (h : s.client c = .running (.put r document) (connect r document))
  | looking (hi : s.database.status c = .idle)
      (h : s.client c = .running (.put r document) (lookup r document))
  | proceeding (h : s.client c = .running (.put r document) (proceed r document))
  | choosing (h : s.client c = .running (.put r document) (choose r document))
  | doomed {p} (h : s.client c = .running (.put r document) p) (hp : Doomed document p)
  | failed (h : s.client c = .finished (.put r document) (.put (.error .repository)))
  | crashed (h : s.client c = .crashed (.put r document))
  | spared (h : Spared t c r document)

section Steps
variable [Sha256] [TextSearch] {t : List (State × Action)} {s s' : State} {a : Action} {c : Call}
  {r : Uuid} {document : PutDocument}

omit [TextSearch] in
theorem Spared.mono (h : Spared t c r document) (p : State × Action) :
    Spared (t ++ [p]) c r document := by
  rcases h with ⟨q, hq, h⟩ | ⟨q, hq, h⟩
  · exact .inl ⟨q, List.mem_append_left _ hq, h⟩
  · exact .inr ⟨q, List.mem_append_left _ hq, h⟩

omit [Sha256] in
/-- The schema refuses the version that a doomed program comes to. -/
theorem Doomed.step {db db' : Database} {e : Effect} {fault : Bool} {ans : e.Ans}
    {next : e.Ans → Program Effect Effect.Ans RepositoryResult}
    (h : Doomed document (.call e next)) (hbad : document.isStorable = false)
    (hp : Performs db c e fault ans db') : Doomed document (next ans) := by
  cases e with
  | newUuid => exact h ans
  | sql stmt =>
    cases stmt with
    | insertVersion d v inserted digest =>
      rcases h with ⟨rfl, herror⟩
      rcases executes_or_error hp with ⟨row, -, hx⟩ | rfl
      · cases hx with
        | insertVersion _ hstorable =>
          rw [Database.isStorable_of_newVersion hstorable] at hbad
          cases hbad
      · rw [herror]
        rfl
    | _ => exact h ans

omit [TextSearch] in
theorem Course.congr (h : Course t s c r document) (hc : s'.client c = s.client c)
    (hstatus : s.database.status c = .idle → s'.database.status c = .idle) (p : State × Action) :
    Course (t ++ [p]) s' c r document := by
  cases h with
  | connecting hi hrun => exact .connecting (hstatus hi) (hc.trans hrun)
  | looking hi hrun => exact .looking (hstatus hi) (hc.trans hrun)
  | proceeding hrun => exact .proceeding (hc.trans hrun)
  | choosing hrun => exact .choosing (hc.trans hrun)
  | doomed hrun hp => exact .doomed (hc.trans hrun) hp
  | failed hrun => exact .failed (hc.trans hrun)
  | crashed hrun => exact .crashed (hc.trans hrun)
  | spared h => exact .spared (h.mono p)

/-- Whatever comes of a statement, a put of a document that the schema refuses stays on course. -/
theorem Course.perform (hco : Course t s c r document) (hbad : document.isStorable = false)
    {op : RepositoryCall} {e : Effect} {fault : Bool} {ans : e.Ans} {db : Database}
    {next : e.Ans → Program Effect Effect.Ans RepositoryResult} (ha : a.actor = some c)
    (hc : s.client c = .running op (.call e next)) (hp : Performs s.database c e fault ans db) :
    Course (t ++ [(s, a)]) (s.set db c (.running op (next ans))) c r document := by
  have hon : ∀ {p}, s.client c = .running (.put r document) p → Doomed document p →
      Course (t ++ [(s, a)]) (s.set db c (.running op (next ans))) c r document := by
    intro p hrun hd
    cases hrun.symm.trans hc
    exact .doomed set_client_self (hd.step hbad hp)
  cases hco with
  | connecting hi hrun =>
    cases hrun.symm.trans hc
    rcases executes_or_error hp with ⟨row, rfl, hx⟩ | rfl
    · cases hx
      exact .looking hi set_client_self
    · exact .doomed set_client_self rfl
  | looking hi hrun =>
    cases hrun.symm.trans hc
    rcases executes_or_error hp with ⟨row, rfl, hx⟩ | rfl
    · cases hx
      have hprogress : (s.database.status c).inProgress = false := by
        rw [hi]
        rfl
      rw [lookup_eq hprogress]
      cases hrecorded : s.database.library.recorded r with
      | none => exact .proceeding set_client_self
      | some key =>
        exact .spared (.inl ⟨(s, a), List.mem_append_right _ (List.mem_singleton.mpr rfl), ha, hrun,
          processed_of_recorded hrecorded⟩)
    · exact .doomed set_client_self rfl
  | proceeding hrun =>
    rcases proceed_eq r document with ⟨next', hprogram, hok, herror⟩
    rw [hprogram] at hrun
    cases hrun.symm.trans hc
    rcases executes_or_error hp with ⟨row, rfl, hx⟩ | rfl
    · exact .choosing (set_client_self.trans (congrArg (Client.running _) hok))
    · rw [herror]
      exact .doomed set_client_self rfl
  | choosing hrun =>
    rcases choose_cases r document with hdoomed | ⟨d, next', hd, hprogram, hfound, hmissing, herror⟩
    · exact hon hrun hdoomed
    · have hlock := hrun
      rw [hprogram] at hlock
      cases hlock.symm.trans hc
      rcases executes_or_error hp with ⟨row, rfl, hx⟩ | rfl
      · cases hx with
        | lockFound => exact .doomed set_client_self hfound
        | lockMissing hsees =>
          refine .spared (.inr ⟨(s, a), List.mem_append_right _ (List.mem_singleton.mpr rfl), d, ha,
            hrun, hd, fun hdoc => ?_⟩)
          rw [Database.sees_document.mpr (.inl hdoc)] at hsees
          cases hsees
      · rw [herror]
        exact .doomed set_client_self rfl
  | doomed hrun hd => exact hon hrun hd
  | failed hend => cases hend.symm.trans hc
  | crashed hend => cases hend.symm.trans hc
  | spared h => exact .spared (h.mono _)

omit [TextSearch] in
theorem Course.op (h : Course t s c r document) :
    (s.client c).op = some (.put r document) ∨ Spared t c r document := by
  cases h with
  | connecting _ hrun => exact .inl (by rw [hrun]; rfl)
  | looking _ hrun => exact .inl (by rw [hrun]; rfl)
  | proceeding hrun => exact .inl (by rw [hrun]; rfl)
  | choosing hrun => exact .inl (by rw [hrun]; rfl)
  | doomed hrun => exact .inl (by rw [hrun]; rfl)
  | failed hend => exact .inl (by rw [hend]; rfl)
  | crashed hend => exact .inl (by rw [hend]; rfl)
  | spared h => exact .inr h

theorem Course.step (h : Invariant t s) (hco : Course t s c r document)
    (hbad : document.isStorable = false) (hm : Moves s a s') :
    Course (t ++ [(s, a)]) s' c r document := by
  by_cases ha : a.actor = some c
  · cases hm with
    | @invoke x op hc =>
      cases ha
      rcases hco.op with hop | hspared
      · rw [hc] at hop
        cases hop
      · exact .spared (hspared.mono _)
    | @perform _ x op e next ans db hx hc hp =>
      obtain rfl := Option.some.inj (ha.symm.trans hx)
      exact hco.perform hbad ha hc hp
    | @finish x op res rolledBack hc =>
      cases ha
      have hreturn : ∀ {p}, s.client c = .running (.put r document) p → Doomed document p →
          Course (t ++ [(s, .finish c rolledBack)])
            (s.set (returned s.database c rolledBack) c (.finished op res)) c r document := by
        intro p hrun hd
        cases hrun.symm.trans hc
        obtain rfl : res = .put (.error .repository) := hd
        exact .failed set_client_self
      cases hco with
      | connecting _ hrun => cases hrun.symm.trans hc
      | looking _ hrun => cases hrun.symm.trans hc
      | proceeding hrun =>
        rcases proceed_eq r document with ⟨next', hprogram, -⟩
        rw [hprogram] at hrun
        cases hrun.symm.trans hc
      | choosing hrun =>
        rcases choose_cases r document with hdoomed | ⟨d, next', -, hprogram, -⟩
        · exact hreturn hrun hdoomed
        · rw [hprogram] at hrun
          cases hrun.symm.trans hc
      | doomed hrun hd => exact hreturn hrun hd
      | failed hend => cases hend.symm.trans hc
      | crashed hend => cases hend.symm.trans hc
      | spared h => exact .spared (h.mono _)
    | @crash x op p hc =>
      cases ha
      rcases hco.op with hop | hspared
      · rw [hc] at hop
        cases hop
        exact .crashed set_client_self
      · exact .spared (hspared.mono _)
    | settleCommit => cases ha
    | settleAbort => cases ha
    | tick => cases ha
  · exact hco.congr (hm.client_other ha) (h.idle_other hm ha) _

omit [Sha256] [TextSearch] in
/-- A recorded request is visible to every call, whether it is in a transaction or not. -/
theorem lookup_of_processed {db : Database} (hr : Processed db r) : ∃ key,
    ((Heap.visibleRows db.status c db.putOperations).find? fun o => o.requestId = r).map (·.key) =
      some key := by
  rcases hr with ⟨o, ho, hreq⟩
  rcases Heap.mem_committedRows.mp ho with ⟨tuple, htuple, hcommitted, rfl⟩
  have hvisible : tuple.row ∈ Heap.visibleRows db.status c db.putOperations :=
    Heap.mem_visibleRows.mpr ⟨tuple, htuple, by simp [Heap.visible, hcommitted], rfl⟩
  cases hfind : (Heap.visibleRows db.status c db.putOperations).find? fun o => o.requestId = r with
  | none =>
    have hnone := List.find?_eq_none.mp hfind _ hvisible
    simp [hreq] at hnone
  | some found => exact ⟨found.key, rfl⟩

/-- A put that finds its request recorded is about to succeed. -/
theorem Moves.heads_of_found (hm : Moves s a s') (ha : a.actor = some c)
    (hf : a.faults s c = false)
    (hc : s.client c = .running (.put r document) (lookup r document))
    (hr : Processed s.database r) :
    ∃ outcome, Heads s' c (.put r document) (.put (.ok outcome)) := by
  rcases hm.perform_or_crash ha hc with ⟨ans, db, hp, rfl⟩ | rfl
  · rw [hf] at hp
    rcases executes_of_faultless hp id with ⟨row, rfl, hx⟩
    cases hx
    rcases lookup_of_processed (c := c) hr with ⟨key, hkey⟩
    refine ⟨⟨key.1, key.2, true⟩, .inl ?_⟩
    rw [set_client_self, hkey]
  · exact ⟨⟨r, 0, true⟩, .inr (.inr set_client_self)⟩

/-- A put that does not find its document is about to say so. -/
theorem Invariant.heads_of_missing (h : Invariant t s) (hm : Moves s a s') (ha : a.actor = some c)
    (hf : a.faults s c = false) {d : Uuid} (hd : document.documentId = some d)
    (hc : s.client c = .running (.put r document) (choose r document))
    (hmissing : ¬ s.database.HasDocument d) :
    Heads s' c (.put r document) (.put (.error .unknownDocument)) := by
  rcases choose_eq (r := r) hd with ⟨next', hprogram, -, hunknown, -⟩
  rw [hprogram] at hc
  have hpermits : s.database.footprint c = .begun := h.permits_of_running hc _ rfl
  rcases hm.perform_or_crash ha hc with ⟨ans, db, hp, rfl⟩ | rfl
  · rw [hf] at hp
    have hactive : s.database.status c = .active := congrArg Footprint.status hpermits
    rcases executes_of_faultless hp fun hrefuses => hrefuses hactive with ⟨row, rfl, hx⟩
    cases hx with
    | lockFound _ hsees =>
      rcases Database.sees_document.mp hsees with hdoc | ⟨-, row, hrow, -⟩
      · exact absurd hdoc hmissing
      · simp [hpermits, Footprint.begun] at hrow
    | lockMissing => exact .inl (by rw [set_client_self, hunknown])
  · exact .inr (.inr set_client_self)

end Steps

section Runs
variable [Sha256] [TextSearch] {t : List (State × Action)} {s : State} {c : Call} {r : Uuid}
  {document : PutDocument}

theorem course_of_trace (h : system.Trace t s) (hop : (s.client c).op = some (.put r document))
    (hcontent : isBlank document.content = false) (htype : isBlank document.contentType = false)
    (hbad : document.isStorable = false) : Course t s c r document := by
  induction h with
  | start hinit =>
    rcases hinit with ⟨clock, rfl⟩
    cases hop
  | @step t y y' a ht hs ih =>
    by_cases hold : (y.client c).op = some (.put r document)
    · exact (ih hold).step (invariant_of_trace ht) hbad (step_moves hs)
    · have hnone : (y.client c).op = none := by
        cases hy : (y.client c).op with
        | none => rfl
        | some op =>
          have hkept := ((invariant_of_trace ht).later (step_moves hs)).op c op hy
          exact absurd (hy.trans (hkept.symm.trans hop)) hold
      rcases (step_moves hs).invoke_of_op hnone hop with ⟨hidle, -, rfl⟩
      refine .connecting ((invariant_of_trace ht).status_of_idle hidle) ?_
      rw [set_client_self, program_put, hcontent, htype]
      rfl

/-- The answers that say what is wrong with a put, and success. -/
def Typed : Except DocumentError PutOutcome → Prop
  | .ok _ | .error .emptyContent | .error .emptyContentType | .error .unknownDocument => True
  | .error .notFound | .error .repository => False

omit [TextSearch] in
theorem typed_of_put {L L' : Library} {res : Except DocumentError PutOutcome}
    (h : L.Put r document res L') : Typed res := by
  cases h <;> trivial

/-- Why a put may be spared a failure: its own checks refuse the document, the schema accepts it,
or the put never came to store it. -/
def Acceptable (t : List (State × Action)) (c : Call) (r : Uuid) (document : PutDocument) : Prop :=
  isBlank document.content = true ∨ isBlank document.contentType = true ∨
    document.isStorable = true ∨ Found t c r document ∨ Missing t c r document

/-- A put that its own checks refuse says which. -/
theorem typed_of_blank (h : system.Trace t s) {res : Except DocumentError PutOutcome}
    (hc : s.client c = .finished (.put r document) (.put res))
    (hblank : isBlank document.content = true ∨ isBlank document.contentType = true) :
    Typed res := by
  rcases exists_invoke h (by rw [hc]; rfl : (s.client c).op = some (.put r document)) with
    ⟨k, x, hk⟩
  have hrun : (stateAt t s (k + 1)).client c = .running (.put r document)
      (program (.put r document)) := by
    rw [step_invoke (h.step_at hk)]
    exact set_client_self
  have hlt := (List.getElem?_eq_some_iff.mp hk).1
  rw [program_put] at hrun
  cases hcontent : isBlank document.content with
  | true =>
    rw [hcontent] at hrun
    cases result_of_heads h hlt (.inl hrun) hc
    trivial
  | false =>
    have htype : isBlank document.contentType = true := by simpa [hcontent] using hblank
    rw [hcontent, htype] at hrun
    cases result_of_heads h hlt (.inl hrun) hc
    trivial

/-- A put that no fault strikes and whose document the schema accepts gets a typed answer. -/
theorem typed_of_isStorable (h : system.Trace t s) {res : Except DocumentError PutOutcome}
    (hc : s.client c = .finished (.put r document) (.put res)) (hf : faulty t c = false)
    (hgood : document.isStorable = true) : Typed res := by
  have hinv := invariant_of_trace h
  have hfit := hinv.fits c
  rw [Fits, hc] at hfit
  have hanswer := hfit.2.2 _ (hinv.isView c)
  generalize hop : RepositoryCall.put r document = op at hanswer
  generalize hres : RepositoryResult.put res = result at hanswer
  cases hanswer with
  | failed hfailed hexcused =>
    subst hop
    rcases hexcused with hfault | hunacceptable
    · cases hf.symm.trans hfault
    · cases hgood.symm.trans hunacceptable
  | wrote =>
    cases hres
    trivial
  | read hdb hu hstep =>
    subst hop hres
    cases hstep with
    | put hput => exact typed_of_put hput
  | searched => cases hop

theorem typed_of_spared (h : system.Trace t s) {res : Except DocumentError PutOutcome}
    (hc : s.client c = .finished (.put r document) (.put res)) (hf : faulty t c = false)
    (hspared : Spared t c r document) : Typed res := by
  rcases hspared with ⟨p, hp, ha, hrun, hrecorded⟩ | ⟨p, hp, d, ha, hrun, hd, hmissing⟩
  · rcases List.mem_iff_getElem?.mp hp with ⟨k, hk⟩
    have hsound := faults_of_faulty hf hk
    rcases (moves_at h hk).heads_of_found ha hsound hrun hrecorded with ⟨outcome, hheads⟩
    cases result_of_heads h (List.getElem?_eq_some_iff.mp hk).1 hheads hc
    trivial
  · rcases List.mem_iff_getElem?.mp hp with ⟨k, hk⟩
    have hinv := invariant_at h k
    rw [stateAt_get hk] at hinv
    have hheads := hinv.heads_of_missing (moves_at h hk) ha (faults_of_faulty hf hk) hd hrun hmissing
    cases result_of_heads h (List.getElem?_eq_some_iff.mp hk).1 hheads hc
    trivial

/-- A put that no fault strikes gets a typed answer exactly when its own checks refuse its
document, the schema accepts it, its request is recorded or its document does not exist. -/
theorem typed_iff (h : system.Trace t s) {res : Except DocumentError PutOutcome}
    (hc : s.client c = .finished (.put r document) (.put res)) (hf : faulty t c = false) :
    Typed res ↔ Acceptable t c r document := by
  constructor
  · intro htyped
    by_contra hnot
    simp only [Acceptable, not_or, Bool.not_eq_true] at hnot
    rcases hnot with ⟨hcontent, htype, hbad, hfound, hmissing⟩
    cases course_of_trace h (by rw [hc]; rfl) hcontent htype hbad with
    | connecting _ hrun => cases hc.symm.trans hrun
    | looking _ hrun => cases hc.symm.trans hrun
    | proceeding hrun => cases hc.symm.trans hrun
    | choosing hrun => cases hc.symm.trans hrun
    | doomed hrun => cases hc.symm.trans hrun
    | failed hend =>
      cases hc.symm.trans hend
      exact htyped
    | crashed hend => cases hc.symm.trans hend
    | spared hspared => exact hspared.elim hfound hmissing
  · rintro (hblank | hblank | hgood | hfound | hmissing)
    · exact typed_of_blank h hc (.inl hblank)
    · exact typed_of_blank h hc (.inr hblank)
    · exact typed_of_isStorable h hc hf hgood
    · exact typed_of_spared h hc hf (.inl hfound)
    · exact typed_of_spared h hc hf (.inr hmissing)

end Runs

section Sample

/-- A put of an acceptable document. -/
theorem typed_createRun :
    Typed (.ok ⟨7, 1, false⟩) ↔ @Acceptable sampleSha256 sampleSearch
      (sampleRecord (createRun ⟨0, 0⟩ 1 7 "alpha")) ⟨0, 0⟩ 1 (sampleDocument none "alpha") :=
  @typed_iff sampleSha256 sampleSearch _
    ((sampleRun (createRun ⟨0, 0⟩ 1 7 "alpha")).get (by decide +kernel)) _ _ _ (trace_sampleRun _) _
    rfl (by decide +kernel)

/-- The put of a document with an empty title passes the checks of the put and gets the answer of
a failed database. -/
theorem not_typed_refusedRun :
    ∃ s, (@system sampleSha256 sampleSearch).Trace (sampleRecord refusedRun) s ∧
      ¬ ∀ c r document res, s.client c = .finished (.put r document) (.put res) →
          @faulty sampleSearch (sampleRecord refusedRun) c = false → Typed res := by
  refine ⟨(sampleRun refusedRun).get (by decide +kernel), trace_sampleRun _, fun h => ?_⟩
  exact h ⟨0, 0⟩ 1 ⟨none, "alpha", "text/plain", some "", none⟩ (.error .repository) rfl
    (by decide +kernel)

end Sample
end Store
end Librarian
