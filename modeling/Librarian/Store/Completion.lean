import Librarian.Library.Growth
import Librarian.Store.Termination

/-! # A call that has the store to itself

Once nobody else is in flight, a new call runs to its end without a fault, provided that the
identifier it draws is still free. So it answers as the abstract store does.
-/
namespace Librarian.Store
open Foundation Postgres PostgresDocumentRepository Program System

/-- The contract of a program that is given `u` for every new identifier: it creates no other
document and needs no further version number. -/
def drawing (u : Uuid) : Protocol Effect Effect.Ans Unit where
  rely _ _ := True
  rely_refl _ := trivial
  rely_trans _ _ := trivial
  pre _ e := ∀ stmt, e = .sql stmt → stmt.exhausts = true → stmt = .insertDocument u
  post _ e ans _ := ∀ h : e = .newUuid, (h ▸ ans : Effect.Ans .newUuid) = u

/-- The program keeps the contract, whatever the database answers. -/
def Draws (u : Uuid) (p : Program Effect Effect.Ans RepositoryResult) : Prop :=
  p.Safe (drawing u) (fun _ _ => True) ()

section Programs
variable {u : Uuid} {α β : Type}

def PartDraws (u : Uuid) (part : Repo α) : Prop := part.run.Safe (drawing u) (fun _ _ => True) ()

theorem draws_ret (res : Except DocumentError α) :
    (Program.ret res : Program Effect Effect.Ans _).Safe (drawing u) (fun _ _ => True) () :=
  Safe.ret fun _ _ => trivial

theorem PartDraws.bind {part : Repo α} {f : α → Repo β} (h : PartDraws u part)
    (hf : ∀ a, PartDraws u (f a)) : PartDraws u (part >>= f) :=
  Safe.bindExcept h (fun _ a _ => hf a) fun _ _ _ => draws_ret _

theorem partDraws_query {stmt : Stmt} (h : stmt.exhausts = true → stmt = .insertDocument u) :
    PartDraws u (query stmt) := by
  apply Safe.call
  intro v _
  refine ⟨?_, fun _ _ _ => draws_ret _⟩
  rintro _ ⟨rfl⟩
  exact h

/-- A statement that meets no limit of the data. -/
theorem partDraws_free {stmt : Stmt} (h : stmt.exhausts = false) : PartDraws u (query stmt) := by
  apply partDraws_query
  rw [h]
  intro hf
  cases hf

theorem partDraws_target : PartDraws u (target none) := by
  apply Safe.call
  intro v _
  constructor
  · intro stmt he
    cases he
  · intro d v' hd
    obtain rfl : d = u := hd rfl
    have hinsert : PartDraws d (query (.insertDocument d)) := partDraws_query fun _ => rfl
    exact hinsert.bind fun _ => draws_ret _

variable [Sha256]

theorem partDraws_write {r : Uuid} {document : PutDocument} (hd : document.documentId = none) :
    PartDraws u (write r document) := by
  have hwinner : PartDraws u (reportWinner r) := by
    apply (partDraws_free rfl).bind
    intro _
    apply (partDraws_free rfl).bind
    intro row
    cases row <;> exact draws_ret _
  have hoperation : ∀ d v, PartDraws u (insertPutOperationSql r d v) := by
    intro d v
    apply (partDraws_free rfl).bind
    intro inserted
    split
    · exact draws_ret _
    · apply (partDraws_free rfl).bind
      intro _
      exact (partDraws_free rfl).bind fun _ => draws_ret _
  apply (partDraws_free rfl).bind
  intro _
  rw [hd]
  apply partDraws_target.bind
  rintro ⟨d, v⟩
  have hversion : PartDraws u (insertVersionSql d v document) :=
    (partDraws_free rfl).bind fun _ => partDraws_free rfl
  apply hversion.bind
  intro _
  apply (hoperation d v).bind
  intro inserted
  split
  · exact hwinner
  · exact (partDraws_free rfl).bind fun _ => draws_ret _

theorem partDraws_put {r : Uuid} {document : PutDocument} (hd : document.documentId = none) :
    PartDraws u (put r document) := by
  unfold put
  split
  · exact draws_ret _
  · split
    · exact draws_ret _
    · apply (partDraws_free rfl).bind
      intro _
      apply (partDraws_free rfl).bind
      intro row
      cases row with
      | some key => exact draws_ret _
      | none => exact partDraws_write hd

omit [Sha256] in
theorem partDraws_get (d : Uuid) (v : Option ℤ) : PartDraws u (get d v) := by
  have hfind : PartDraws u (findVersion d v) := by
    cases v with
    | none => exact partDraws_free rfl
    | some v => exact partDraws_free rfl
  apply (partDraws_free rfl).bind
  intro _
  apply hfind.bind
  intro row
  cases row <;> exact draws_ret _

omit [Sha256] in
theorem partDraws_search (q : String) (limit : ℤ) : PartDraws u (search q limit) := by
  apply (partDraws_free rfl).bind
  intro _
  exact partDraws_free rfl

/-- The calls that draw at most one identifier and need no further version number. -/
def drawsOne : RepositoryCall → Bool
  | .put _ document => document.documentId.isNone
  | _ => true

theorem draws_program {op : RepositoryCall} (h : drawsOne op = true) : Draws u (program op) := by
  have hend : ∀ {α : Type} {part : Repo α} {f : Except DocumentError α → RepositoryResult},
      PartDraws u part → Draws u (part.run.bind fun res => .ret (f res)) := by
    intro α part f hp
    exact Safe.bind hp fun _ _ _ => Safe.ret fun _ _ => trivial
  cases op with
  | put r document => exact hend (partDraws_put (by simpa [drawsOne] using h))
  | get d v => exact hend (partDraws_get d v)
  | search q limit => exact hend (partDraws_search q limit)

end Programs

section Alone
variable [Sha256] [TextSearch] {t : List (State × Action)} {s s' : State} {a : Action} {c : Call}
  {op : RepositoryCall} {u : Uuid} {L : Library}

/-- Nobody but `c` is in flight, and no other call has drawn `u`. -/
structure Alone (s : State) (c : Call) (u : Uuid) : Prop where
  others : ∀ x, x ≠ c → ¬ InFlight s x
  unused : ∀ x, x ≠ c → ∀ row ∈ (s.database.footprint x).documents, row.documentId ≠ u

/-- The steps of `c` itself, with `u` for a new identifier. -/
def OwnAction (c : Call) (u : Uuid) (a : Action) : Prop :=
  a.actor = some c ∧ a.regular = true ∧ ∀ v, a = .newUuid c v → v = u

/-- What holds while `c` has the store to itself and the library only grows from `L`. -/
structure Undisturbed (t : List (State × Action)) (s : State) (c : Call) (op : RepositoryCall)
    (u : Uuid) (L : Library) : Prop where
  trace : system.Trace t s
  alone : Alone s c u
  faultless : faulty t c = false
  client : (∃ p, s.client c = .running op p ∧ Draws u p) ∨ ∃ res, s.client c = .finished op res
  library : L.Extends s.database.library
  seen : ∀ db ∈ mine t c, L.Extends db.library

/-- A statement of an undisturbed call is not blocked. -/
theorem Undisturbed.not_blocked (h : Undisturbed t s c op u L) {stmt : Stmt}
    {next : Effect.Ans (.sql stmt) → Program Effect Effect.Ans RepositoryResult}
    (hc : s.client c = .running op (.call (.sql stmt) next)) (plan : Plan) :
    s.database.exec c plan stmt ≠ .blocked := by
  intro hx
  have hinv := invariant_of_trace h.trace
  rcases exec_blocked hx with ⟨rfl, hfull⟩ | ⟨ha, c', hb⟩
  · -- only calls at work hold connections, and this one has none yet
    have hempty : s.database.footprint c = .empty := hinv.permits_of_running hc _ rfl
    rw [Database.poolFull, decide_eq_true_eq] at hfull
    rcases List.exists_mem_of_length_pos (Nat.lt_of_lt_of_le (by decide) hfull) with ⟨x, hx⟩
    have hheld : x ∈ s.database.connections := (List.mem_filter.mp hx).1
    by_cases hxc : x = c
    · rw [hxc] at hheld
      exact List.count_eq_zero.mp (congrArg Footprint.connections hempty) hheld
    · exact h.alone.others x hxc (.inl (hinv.running_of_connection hheld))
  · have hw := hinv.waits_rank ⟨op, stmt, next, hc, ha, hb⟩
    by_cases hcc : c' = c
    · subst hcc
      omega
    · exact h.alone.others c' hcc (.inr hw.1)

/-- Nor does it meet a limit of the data. -/
theorem Undisturbed.not_exhausted (h : Undisturbed t s c op u L) {stmt : Stmt}
    {next : Effect.Ans (.sql stmt) → Program Effect Effect.Ans RepositoryResult}
    (hc : s.client c = .running op (.call (.sql stmt) next)) (hd : Draws u (.call (.sql stmt) next))
    (plan : Plan) : (stmt.exhausts && (s.database.exec c plan stmt).isError) = false := by
  have hinv := invariant_of_trace h.trace
  by_contra hne
  simp only [Bool.not_eq_false, Bool.and_eq_true] at hne
  rcases hne with ⟨hexhausts, herror⟩
  have hstmt : stmt = .insertDocument u := (Safe.of_call hd).1 stmt rfl hexhausts
  subst hstmt
  have hx : s.database.exec c plan (.insertDocument u) = .error := by
    cases hx : s.database.exec c plan (.insertDocument u) <;> simp_all [Outcome.isError]
  have hbegun : s.database.footprint c = .begun := hinv.permits_of_running hc _ rfl
  rcases Database.exec_refuses hx with hactive | hsees
  · exact hactive (congrArg Footprint.status hbegun)
  · rcases Database.sees_document.mp hsees with ⟨row, hrow, hid⟩ | ⟨-, row, hrow, -⟩
    · rcases Database.mem_committedDocuments.mp hrow with ⟨x, -, hx⟩
      by_cases hxc : x = c
      · rw [hxc, hbegun] at hx
        cases hx
      · exact h.alone.unused x hxc row hx hid
    · rw [hbegun] at hrow
      cases hrow

omit [Sha256] [TextSearch] in
/-- What an own step can be. -/
theorem OwnAction.cases (h : OwnAction c u a) :
    a = .newUuid c u ∨ (∃ plan, a = .exec c plan) ∨ ∃ rolledBack, a = .finish c rolledBack := by
  rcases h with ⟨hactor, hregular, hdrawn⟩
  cases a with
  | newUuid x v =>
    cases hactor
    exact .inl (by rw [hdrawn v rfl])
  | exec x plan =>
    cases hactor
    exact .inr (.inl ⟨plan, rfl⟩)
  | finish x rolledBack =>
    cases hactor
    exact .inr (.inr ⟨rolledBack, rfl⟩)
  | settle => cases hactor
  | tick => cases hactor
  | _ => cases hregular

theorem Invariant.footprint_other (h : Invariant t s) (hm : Moves s a s') (ha : a.actor = some c)
    {x : Call} (hx : x ≠ c) : s'.database.footprint x = s.database.footprint x := by
  cases hm with
  | invoke => rfl
  | perform hy hc hp =>
    obtain rfl := Option.some.inj (ha.symm.trans hy)
    exact ((guarantee_performs h.consistent (h.permits_of_running hc) hp).rely x hx).footprint
  | finish rolledBack hc =>
    cases ha
    exact ((guarantee_returned h.consistent rolledBack).rely x hx).footprint
  | crash hc =>
    cases ha
    exact ((Database.guarantee_release h.consistent).rely x hx).footprint
  | settleCommit => cases ha
  | settleAbort => cases ha
  | tick => cases ha

/-- An own step meets no fault, and goes on with the program or ends it. -/
theorem Undisturbed.advances (h : Undisturbed t s c op u L) (ha : OwnAction c u a)
    (hs : step s a = some s') : a.faults s c = false ∧
      ((∃ p, s'.client c = .running op p ∧ Draws u p) ∨ ∃ res, s'.client c = .finished op res) := by
  rcases h.client with ⟨p, hc, hd⟩ | ⟨res, hc⟩
  · rcases ha.cases with rfl | ⟨plan, rfl⟩ | ⟨rolledBack, rfl⟩
    · refine ⟨rfl, .inl ?_⟩
      simp only [step, hc] at hs
      split at hs
      · rename_i next hrun
        cases hrun
        cases hs
        refine ⟨next u, set_client_self, ?_⟩
        exact (Safe.of_call hd).2 u () fun _ => rfl
      · cases hs
    · simp only [step, hc] at hs
      split at hs
      · rename_i stmt next hrun
        cases hrun
        have hfaults := h.not_exhausted hc hd plan
        refine ⟨by simpa [Action.faults, hc] using hfaults, .inl ?_⟩
        have hnext : ∀ ans, Draws u (next ans) := by
          intro ans
          apply (Safe.of_call hd).2 ans ()
          intro he
          cases he
        split at hs
        · cases hs
        · cases hs
          exact ⟨_, set_client_self, hnext _⟩
        · cases hs
          exact ⟨_, set_client_self, hnext _⟩
      · cases hs
    · simp only [step, hc] at hs
      split at hs
      · rename_i res hrun
        cases hrun
        cases hs
        exact ⟨rfl, .inr ⟨res, set_client_self⟩⟩
      · cases hs
  · exact absurd hc ((step_moves hs).not_finished ha.1)

/-- A step loses nothing of the library. -/
theorem library_extends (h : system.Trace t s) (hs : Store.step s a = some s') :
    s.database.library.Extends s'.database.library := by
  have hinv := invariant_of_trace h
  rcases hinv.calm_or_commits (step_moves hs) with ⟨x, hcalm⟩ | ⟨x, hcommits, -⟩
  · rw [hcalm.library]
    exact .refl _
  · have hlast : stateAt t s t.length = s := stateAt_length t s
    rw [← hlast] at hcommits
    rcases exists_put_of_commits h hcommits with ⟨r, document, v, o, -, hw, hv, ho, hk⟩
    rw [hlast] at hcommits hw hv ho
    rcases Prod.mk.inj hk with ⟨hd, hn⟩
    have hput := hinv.consistent.put_commit hcommits.inProgress hw hv ho
    rw [hcommits.database]
    exact (Library.StepOrFail.step (.put hput)).extends

/-- Every own step keeps all of this. -/
theorem Undisturbed.step (h : Undisturbed t s c op u L) (ha : OwnAction c u a)
    (hs : Store.step s a = some s') : Undisturbed (t ++ [(s, a)]) s' c op u L := by
  have hinv := invariant_of_trace h.trace
  have hm := step_moves hs
  rcases h.advances ha hs with ⟨hfault, hclient⟩
  have hgrows := library_extends h.trace hs
  refine ⟨h.trace.step hs, ⟨?_, ?_⟩, ?_, hclient, h.library.trans hgrows, ?_⟩
  · intro x hx hflight
    exact h.alone.others x hx (hinv.inFlight_of_moves hm (actor_other ha.1 hx) hflight)
  · intro x hx
    rw [hinv.footprint_other hm ha.1 hx]
    exact h.alone.unused x hx
  · rw [faulty_append, h.faultless, hfault]
    rfl
  · intro db hdb
    rw [mine_append_own ha.1] at hdb
    rcases List.mem_append.mp hdb with hdb | hdb
    · exact h.seen db hdb
    · rw [List.mem_singleton.mp hdb]
      exact h.library

/-- Until the call has returned, it can take a step of its own. -/
theorem Undisturbed.progress (h : Undisturbed t s c op u L)
    (hnot : ¬ ∃ res, s.client c = .finished op res) :
    ∃ (a : Action) (s' : State), OwnAction c u a ∧ Store.step s a = some s' := by
  rcases h.client with ⟨p, hc, hd⟩ | hres
  · cases p with
    | ret res =>
      have hs : Store.step s (.finish c true) =
          some (s.set (returned s.database c true) c (.finished op res)) := by
        simp only [Store.step, hc]
      refine ⟨_, _, ⟨rfl, rfl, ?_⟩, hs⟩
      intro v hv
      cases hv
    | call e next =>
      cases e with
      | newUuid =>
        have hs : Store.step s (.newUuid c u) = some (s.set s.database c (.running op (next u))) := by
          simp only [Store.step, hc]
        refine ⟨_, _, ⟨rfl, rfl, ?_⟩, hs⟩
        intro v hv
        cases hv
        rfl
      | sql stmt =>
        have plan : Plan := ⟨id, fun _ => .refl _⟩
        have hown : OwnAction c u (.exec c plan) := by
          refine ⟨rfl, rfl, ?_⟩
          intro v hv
          cases hv
        cases hx : s.database.exec c plan stmt with
        | blocked => exact absurd hx (h.not_blocked hc plan)
        | error =>
          have hs : Store.step s (.exec c plan) =
              some (s.set (s.database.fail c) c (.running op (next (.error .error)))) := by
            simp only [Store.step, hc, hx]
          exact ⟨_, _, hown, hs⟩
        | row ans db =>
          have hs : Store.step s (.exec c plan) = some (s.set db c (.running op (next (.ok ans)))) := by
            simp only [Store.step, hc, hx]
          exact ⟨_, _, hown, hs⟩
  · exact absurd hres hnot

/-- Steps of its own lead the call to its answer. -/
theorem Undisturbed.exists_finish (h : Undisturbed t s c op u L) :
    ∃ s' t', Leads Store.step (·.regular = true) s s' ∧ Undisturbed t' s' c op u L ∧
      ∃ res, s'.client c = .finished op res := by
  rcases left_of_trace h.trace with ⟨n, -, hleft⟩
  have hinv : ∀ x a y, (∃ t', Undisturbed t' x c op u L) → OwnAction c u a →
      Store.step x a = some y → ∃ t', Undisturbed t' y c op u L := by
    rintro x a y ⟨t', hx⟩ ha hs
    exact ⟨_, hx.step ha hs⟩
  have hstep : ∀ x a y n, (∃ t', Undisturbed t' x c op u L) → Left x n → OwnAction c u a →
      Store.step x a = some y → ∃ m < n, Left y m := by
    rintro x a y n ⟨t', hx⟩ hl ha hs
    exact (invariant_of_trace hx.trace).left_step (step_moves hs)
      (Action.continues_of_regular ha.2.1) hl
  have hprogress : ∀ x, (∃ t', Undisturbed t' x c op u L) →
      (¬ ∃ res, x.client c = .finished op res) →
      ∃ (a : Action) (y : State), OwnAction c u a ∧ Store.step x a = some y := by
    rintro x ⟨t', hx⟩ hnot
    exact hx.progress hnot
  rcases exists_run_to hinv hstep hprogress ⟨t, h⟩ hleft with
    ⟨s', ⟨actions, hown, hr⟩, ⟨t', h'⟩, hdone⟩
  exact ⟨s', t', ⟨actions, fun a ha => (hown a ha).2.1, hr⟩, h', hdone⟩

/-- The calls the library answers with success, now and whenever it has grown. -/
def Performable (L : Library) : RepositoryCall → Prop
  | .put _ document => document.documentId = none ∧ isBlank document.content = false ∧
      isBlank document.contentType = false ∧ document.isStorable = true
  | .get d v => ∃ e, L.get d v = .ok e
  | .search query limit => 0 ≤ limit ∧ isQuery query = true

/-- The answer of a call that did what it was asked. -/
def Succeeds : RepositoryCall → RepositoryResult → Prop
  | .put _ _, .put res => ∃ outcome, res = .ok outcome
  | .get _ _, .get res => ∃ e, res = .ok e
  | .search _ _, .search res => ∃ hits, res = .ok hits
  | _, _ => False

/-- Steps that nothing goes wrong with leave nobody in flight and lose nothing. -/
theorem exists_quiet (h : system.Trace t s) :
    ∃ s' t', Leads Store.step (·.regular = true) s s' ∧ system.Trace t' s' ∧
      (invoked t').length = (invoked t).length ∧ (∀ x, ¬ InFlight s' x) ∧
      s.database.library.Extends s'.database.library := by
  rcases exists_drain h with ⟨s', hleads, hquiet, -⟩
  have hkeeps : ∃ t', system.Trace t' s' ∧ (invoked t').length = (invoked t).length ∧
      s.database.library.Extends s'.database.library := by
    apply hleads.keeps (P := fun x => ∃ t', system.Trace t' x ∧
      (invoked t').length = (invoked t).length ∧ s.database.library.Extends x.database.library)
    · rintro x a y ⟨t', ht, hlen, hl⟩ ha hs
      refine ⟨_, ht.step hs, ?_, hl.trans (library_extends ht hs)⟩
      cases a with
      | invoke => cases ha
      | _ => simpa [invoked] using hlen
    · exact ⟨t, h, rfl, .refl _⟩
  rcases hkeeps with ⟨t', ht, hlen, hl⟩
  exact ⟨s', t', hleads, ht, hlen, hquiet, hl⟩

/-- An undisturbed call that can be performed succeeds. -/
theorem Undisturbed.succeeds (h : Undisturbed t s c op u L) {res : RepositoryResult}
    (hc : s.client c = .finished op res) (hp : Performable L op) : Succeeds op res := by
  have hinv := invariant_of_trace h.trace
  have hfit := hinv.fits c
  rw [Fits, hc] at hfit
  cases hfit.2.2 _ (hinv.isView c) with
  | failed _ he =>
    rcases he with hf | hrefused
    · exact absurd (hf.symm.trans h.faultless) (by simp)
    · cases op with
      | put r document =>
        have hbad : document.isStorable = false := hrefused
        simp [hp.2.2.2] at hbad
      | get d v => cases hrefused
      | search q limit =>
        rcases hp with ⟨hlimit, hquery⟩
        rcases hrefused with hnegative | hbad
        · omega
        · cases hquery.symm.trans hbad
  | wrote => exact ⟨_, rfl⟩
  | read hdb _ hstep =>
    cases hstep with
    | put hput =>
      rcases hp with ⟨hnew, hcontent, htype, -⟩
      exact hput.of_new hnew hcontent htype
    | get d v => exact (h.seen _ hdb).get hp
  | searched => exact ⟨_, rfl⟩

omit [Sha256] [TextSearch] in
/-- Fewer identifiers than there are leave one free. -/
theorem exists_free (used : List Uuid) (h : used.length < 2 ^ 128) : ∃ u, u ∉ used := by
  by_contra hall
  simp only [not_exists, not_not] at hall
  have hnodup : ((List.range (2 ^ 128)).map (BitVec.ofNat 128)).Nodup := by
    apply List.Nodup.map_on _ List.nodup_range
    intro x hx y hy hxy
    have heq := congrArg BitVec.toNat hxy
    rw [List.mem_range] at hx hy
    rwa [BitVec.toNat_ofNat, BitVec.toNat_ofNat, Nat.mod_eq_of_lt hx, Nat.mod_eq_of_lt hy] at heq
  have hle := hnodup.length_le_of_subset fun u _ => hall u
  rw [List.length_map, List.length_range] at hle
  omega

/-- As long as fewer calls were made than there are identifiers, one is free. -/
theorem exists_unused (h : system.Trace t s) (hfew : (invoked t).length < 2 ^ 128) :
    ∃ u, ∀ x, ∀ row ∈ (s.database.footprint x).documents, row.documentId ≠ u := by
  have hinv := invariant_of_trace h
  let used := (invoked t).flatMap fun x => (s.database.footprint x).documents.map (·.documentId)
  have hlength : used.length ≤ (invoked t).length := by
    rw [List.length_flatMap]
    apply (List.sum_le_card_nsmul _ 1 _).trans (by simp)
    intro n hn
    rcases List.mem_map.mp hn with ⟨x, -, rfl⟩
    rw [List.length_map]
    exact (hinv.consistent.wellFormed x).document
  rcases exists_free used (by omega) with ⟨u, hu⟩
  refine ⟨u, ?_⟩
  intro x row hrow hid
  apply hu
  have hop : ∃ op, (s.client x).op = some op := by
    cases hcl : s.client x with
    | idle =>
      have hfit := hinv.fits x
      rw [Fits, hcl] at hfit
      rw [hfit] at hrow
      cases hrow
    | _ => exact ⟨_, rfl⟩
  rcases hop with ⟨op, hop⟩
  rw [← hid]
  exact List.mem_flatMap.mpr ⟨x, mem_invoked_of_op h hop, List.mem_map_of_mem hrow⟩

omit [Sha256] in
/-- A client that has not acted has met no fault. -/
theorem faulty_of_mine (h : mine t c = []) : faulty t c = false := by
  apply List.any_eq_false.mpr
  intro p hp
  have hactor : p.2.actor ≠ some c := by
    intro ha
    have hmem : p.1.database ∈ mine t c :=
      List.mem_map_of_mem (List.mem_filter.mpr ⟨hp, by simpa using ha⟩)
    rw [h] at hmem
    cases hmem
  simp [Action.faults_other hactor]

/-- Where nobody is in flight, a call that can be performed runs to its success. -/
theorem exists_performed (h : system.Trace t s) (hquiet : ∀ x, ¬ InFlight s x)
    (hc : s.client c = .idle) (hp : Performable s.database.library op)
    (hfew : (invoked t).length < 2 ^ 128) :
    ∃ x s' res, step s (.invoke c op) = some x ∧ Leads step (·.regular = true) x s' ∧
      s'.client c = .finished op res ∧ Succeeds op res := by
  rcases exists_unused h hfew with ⟨u, hu⟩
  have hdraws : drawsOne op = true := by
    cases op with
    | put r document => simp [drawsOne, hp.1]
    | _ => rfl
  have hs : Store.step s (.invoke c op) =
      some (s.set s.database c (.running op (program op))) := by
    simp only [Store.step, hc]
  have hstart : Undisturbed (t ++ [(s, .invoke c op)])
      (s.set s.database c (.running op (program op))) c op u s.database.library := by
    have hinv := invariant_of_trace h
    have hnone : mine t c = [] := by
      have hacted := acted_of_trace h c
      rw [Acted, hc] at hacted
      exact List.eq_nil_of_length_eq_zero hacted
    refine ⟨h.step hs, ⟨?_, ?_⟩, ?_, .inl ⟨_, set_client_self, draws_program hdraws⟩, .refl _, ?_⟩
    · intro x hx hflight
      exact hquiet x (hinv.inFlight_of_moves (step_moves hs) (actor_other rfl hx) hflight)
    · exact fun x _ => hu x
    · rw [faulty_append, faulty_of_mine hnone]
      rfl
    · intro db hdb
      rw [mine_append_own rfl, hnone] at hdb
      rw [List.mem_singleton.mp hdb]
      exact .refl _
  rcases hstart.exists_finish with ⟨s', t', hleads, h', res, hres⟩
  exact ⟨_, s', res, hs, hleads, hres, h'.succeeds hres hp⟩

end Alone

end Librarian.Store
