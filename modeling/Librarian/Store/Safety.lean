import Librarian.Store.Protocol

/-! # Every method keeps the contract

The proof follows the program: each statement is permitted with the footprint it finds, and
what it leaves behind is what the next one needs, whatever the others do in between.
-/
namespace Librarian.Store
open Foundation Postgres PostgresDocumentRepository Program

section Rules
variable [Sha256] [TextSearch] {c : Call} {op : RepositoryCall}

/-- One statement: permitted whenever it runs, refused only for good reason, and its result
kept under interference. -/
theorem safe_query {s : Stmt} {Q : View → Except DocumentError s.Row → Prop} {v : View}
    (hpre : ∀ w, v.Rely c w →
      w.database.Permits c s ∧ Authors op (w.database.footprint c) s)
    (hrefuse : ∀ w, v.Rely c w → w.database.Refuses c s → s.exhausts = true ∨ Unacceptable op)
    (hok : ∀ w a (w' : View), v.Rely c w → w'.mine = w.mine ++ [w.database] →
      w.database.Executes c s a w'.database → ∀ x, w'.Rely c x → Q x (.ok a))
    (herr : ∀ x, Excused op x.faulty → Q x (.error .repository)) :
    (query s).run.Safe (protocol c op) Q v := by
  apply Safe.call
  intro w hw
  refine ⟨hpre w hw, ?_⟩
  rintro ans w' ⟨hmine, fault, hfault, hp⟩
  have hexcused : fault = true ∨ Unacceptable op →
      ∀ x, w'.Rely c x → Q x (.error .repository) := by
    intro h x hx
    apply herr
    rw [Excused, hx.faulty, hfault]
    rcases h with rfl | h
    · simp
    · exact .inr h
  generalize hdb : w'.database = db at hp
  cases hp with
  | row hx => exact Safe.ret (hok w _ w' hw hmine (hdb ▸ hx))
  | refused hr => exact Safe.ret (hexcused (hrefuse w hw hr))
  | lost hx => exact Safe.ret (hexcused (.inl rfl))
  | failed s => exact Safe.ret (hexcused (.inl rfl))
  | doubted => exact Safe.ret (hexcused (.inl rfl))

theorem safe_query_bind {β : Type} {s : Stmt} {f : s.Row → Repo β}
    {R : View → Except DocumentError β → Prop} {v : View}
    (hpre : ∀ w, v.Rely c w →
      w.database.Permits c s ∧ Authors op (w.database.footprint c) s)
    (hrefuse : ∀ w, v.Rely c w → w.database.Refuses c s → s.exhausts = true ∨ Unacceptable op)
    (hok : ∀ w a (w' : View), v.Rely c w → w'.mine = w.mine ++ [w.database] →
      w.database.Executes c s a w'.database → (f a).run.Safe (protocol c op) R w')
    (herr : ∀ x, Excused op x.faulty → R x (.error .repository)) :
    (query s >>= f).run.Safe (protocol c op) R v := by
  apply Safe.bindExcept (Q := fun x res => match res with
    | .ok a => (f a).run.Safe (protocol c op) R x
    | .error e => e = .repository ∧ Excused op x.faulty)
  · apply safe_query hpre hrefuse
    · intro w a w' hw hmine hx x hr
      exact (hok w a w' hw hmine hx).stable hr
    · exact fun x he => ⟨rfl, he⟩
  · intro x a h
    exact h
  · rintro x e ⟨rfl, he⟩
    exact Safe.ret fun y hy => herr y (by rwa [hy.faulty])

theorem safe_newUuid_bind {β : Type} {f : Uuid → Repo β}
    {R : View → Except DocumentError β → Prop} {v : View}
    (hok : ∀ w u w', v.Rely c w → w'.mine = w.mine ++ [w.database] →
      w'.database = w.database → (f u).run.Safe (protocol c op) R w') :
    (newUuid >>= f).run.Safe (protocol c op) R v := by
  apply Safe.call
  intro w hw
  refine ⟨trivial, ?_⟩
  rintro u w' ⟨hmine, fault, -, hp⟩
  generalize hdb : w'.database = db at hp
  cases hp with
  | newUuid u => exact hok w u w' hw hmine hdb

/-- Waiting for a connection, a call holds nothing. -/
theorem safe_connection_bind {β : Type} {f : Unit → Repo β}
    {R : View → Except DocumentError β → Prop} {v : View} (hf : v.database.footprint c = .empty)
    (hok : ∀ w, w.database.footprint c = .connected → w.mine ≠ [] →
      (f ()).run.Safe (protocol c op) R w)
    (herr : ∀ x, Excused op x.faulty → R x (.error .repository)) :
    (query .connection >>= f).run.Safe (protocol c op) R v := by
  apply safe_query_bind _ _ _ herr
  · intro x hx
    refine ⟨?_, trivial⟩
    change x.database.footprint c = .empty
    rw [hx.database.footprint, hf]
  · exact fun _ _ hr => False.elim hr
  · intro x _ x' hx hm he
    apply hok
    · generalize x'.database = db at he
      cases he
      rw [Database.footprint_acquire, hx.database.footprint, hf]
      rfl
    · simp [hm]

end Rules

section Stages

/-- Some own step found no record of the request. -/
def Looked (r : Uuid) (v : View) : Prop := ∃ db ∈ v.mine, db.library.recorded r = none

/-- Another call has recorded the request. -/
def Taken (r : Uuid) (v : View) : Prop :=
  ∃ o ∈ v.database.committedOperations, o.requestId = r

/-- The document is created or locked, and `n` is its next version. -/
structure Chosen (c : Call) (document : PutDocument) (d : Uuid) (n : ℤ) (v : View) : Prop where
  active : v.database.status c = .active
  versions : (v.database.footprint c).versions = []
  operations : (v.database.footprint c).operations = []
  target : (∃ t, (v.database.footprint c).documents = [⟨d, t⟩] ∧ n = 1 ∧
      document.documentId = none) ∨
    ((v.database.footprint c).documents = [] ∧ v.database.Locks c d ∧
      n = latestVersion v.database.committedVersions d + 1 ∧ document.documentId = some d)

def Targeted [Sha256] [TextSearch] (c : Call) (r : Uuid) (document : PutDocument) (v : View) :
    Except DocumentError (Uuid × ℤ) → Prop
  | .ok target => Chosen c document target.1 target.2 v
  | .error e => Answers c v (.put r document) (.put (.error e))

/-- The version is written and the request not yet recorded. -/
structure Stored (c : Call) (d : Uuid) (n : ℤ) (v : View) : Prop where
  active : v.database.status c = .active
  operations : (v.database.footprint c).operations = []
  version : ∃ row ∈ (v.database.footprint c).versions, row.key = (d, n)

/-- The request is recorded beside its version. -/
structure Recorded (c : Call) (d : Uuid) (n : ℤ) (v : View) : Prop where
  active : v.database.status c = .active
  version : ∃ row ∈ (v.database.footprint c).versions, row.key = (d, n)
  operation : ∃ o, (v.database.footprint c).operations = [o] ∧ o.key = (d, n)

variable {v w : View}

theorem Looked.own {r : Uuid} {db : Database} (h : Looked r v) (hm : w.mine = v.mine ++ [db]) :
    Looked r w := by
  rcases h with ⟨x, hx, hnone⟩
  exact ⟨x, by simp [hm, hx], hnone⟩

variable {c : Call}

theorem Looked.stable {r : Uuid} (h : Looked r v) (hr : v.Rely c w) :
    Looked r w := by
  rw [Looked, hr.mine]
  exact h

theorem status_stable (hr : v.Rely c w) :
    w.database.status c = v.database.status c :=
  congrArg Footprint.status hr.database.footprint

theorem Chosen.stable {document : PutDocument} {d : Uuid} {n : ℤ} (h : Chosen c document d n v)
    (hr : v.Rely c w) : Chosen c document d n w where
  active := by rw [status_stable hr, h.active]
  versions := by rw [hr.database.footprint, h.versions]
  operations := by rw [hr.database.footprint, h.operations]
  target := by
    rw [hr.database.footprint, Database.Locks, hr.database.footprint]
    rcases h.target with hnew | ⟨hd, hl, hn, hid⟩
    · exact .inl hnew
    · have hi : (v.database.status c).inProgress := by simp [h.active, TxStatus.inProgress]
      rw [hr.database.latestVersion hi (.inr hl)]
      exact .inr ⟨hd, hl, hn, hid⟩

theorem Chosen.one_le {document : PutDocument} {d : Uuid} {n : ℤ} (h : Chosen c document d n v) :
    1 ≤ n := by
  rcases h.target with ⟨_, -, rfl, -⟩ | ⟨-, -, rfl, -⟩
  · exact Int.le_refl 1
  · have := latestVersion_nonneg v.database.committedVersions d
    omega

theorem Stored.stable {d : Uuid} {n : ℤ} (h : Stored c d n v) (hr : v.Rely c w) :
    Stored c d n w where
  active := by rw [status_stable hr, h.active]
  operations := by rw [hr.database.footprint, h.operations]
  version := by
    rw [hr.database.footprint]
    exact h.version

theorem Recorded.stable {d : Uuid} {n : ℤ} (h : Recorded c d n v)
    (hr : v.Rely c w) : Recorded c d n w where
  active := by rw [status_stable hr, h.active]
  version := by
    rw [hr.database.footprint]
    exact h.version
  operation := by
    rw [hr.database.footprint]
    exact h.operation

theorem Stored.addLock {d : Uuid} {n : ℤ} {target : RowId} {mode : LockMode} (h : Stored c d n v)
    (hdb : w.database = v.database.addLock c target mode) : Stored c d n w where
  active := by
    rw [hdb]
    exact h.active
  operations := by
    rw [hdb, Database.footprint_addLock]
    exact h.operations
  version := by
    rw [hdb, Database.footprint_addLock]
    exact h.version

theorem Recorded.addLock {d : Uuid} {n : ℤ} {target : RowId} {mode : LockMode}
    (h : Recorded c d n v) (hdb : w.database = v.database.addLock c target mode) :
    Recorded c d n w where
  active := by
    rw [hdb]
    exact h.active
  version := by
    rw [hdb, Database.footprint_addLock]
    exact h.version
  operation := by
    rw [hdb, Database.footprint_addLock]
    exact h.operation

theorem Taken.stable {r : Uuid} (h : Taken r v) (hr : v.Rely c w) : Taken r w := by
  rcases h with ⟨o, ho, hreq⟩
  exact ⟨o, hr.database.grows.operations ho, hreq⟩

theorem Answers.stable [Sha256] [TextSearch] {op : RepositoryCall} {res : RepositoryResult}
    (h : Answers c v op res) (hr : v.Rely c w) : Answers c w op res := by
  cases h with
  | failed h he => exact .failed h (by rwa [hr.faulty])
  | wrote hs hrow => exact .wrote (by rw [status_stable hr, hs]) (by rwa [hr.database.footprint])
  | read hdb hu h => exact .read (by rwa [hr.mine]) (by rwa [Unsent, status_stable hr]) h
  | searched hdb plan hl => exact .searched (by rwa [hr.mine]) plan hl

end Stages

/-- The other put operation that an insert meets is committed. -/
theorem taken_of_present {db : Database} {c : Call} {r : Uuid}
    (hown : (db.footprint c).operations = [])
    (h : Heap.present db.status (·.requestId) r c db.putOperations = true) :
    ∃ o ∈ db.committedOperations, o.requestId = r := by
  rw [Heap.present, Heap.visibleRows_of_rowsOf_nil hown, List.any_eq_true] at h
  rcases h with ⟨o, ho, hreq⟩
  exact ⟨o, ho, by simpa using hreq⟩

theorem recorded_of_taken {r : Uuid} {v : View} (h : Taken r v) :
    ∃ key, v.database.library.recorded r = some key := by
  rcases h with ⟨o, ho, hreq⟩
  cases hf : v.database.committedOperations.find? (fun o => o.requestId = r) with
  | none => exact absurd hreq (by simpa using List.find?_eq_none.mp hf o ho)
  | some x => exact ⟨x.key, congrArg (Option.map PutOperationRow.key) hf⟩

/-- The rows a foreign key refers to are there. -/
theorem not_refuses_keyShare [TextSearch] {v : View} {c : Call} {d : Uuid} {n : ℤ} {row : VersionRow}
    {target : RowId} (ha : v.database.status c = .active)
    (hrow : row ∈ (v.database.footprint c).versions) (hkey : row.key = (d, n))
    (htarget : target = .document d ∨ target = .version d n) :
    ¬ v.database.Refuses c (.keyShare target) := by
  have hi : (v.database.status c).inProgress := by simp [ha, TxStatus.inProgress]
  have hsees : v.database.sees c target = true := by
    rcases htarget with rfl | rfl
    · have hd : row.documentId = d := congrArg Prod.fst hkey
      exact v.consistent.sees_of_holds hi (hd ▸ v.consistent.holds_of_version hi hrow)
    · exact Database.sees_version.mpr (.inr ⟨hi, row, hrow, hkey⟩)
  rintro (hinactive | hmissing)
  · exact hinactive ha
  · simp [hsees] at hmissing

/-- Outside a transaction `FIND_PUT_OPERATION_SQL` answers what the library records. -/
theorem lookup_eq {db : Database} {c : Call} {r : Uuid} (hi : (db.status c).inProgress = false) :
    ((Heap.visibleRows db.status c db.putOperations).find? fun o => o.requestId = r).map (·.key) =
      db.library.recorded r := by
  rw [Heap.visibleRows_of_not_inProgress hi]
  rfl

section Put
variable [Sha256] [TextSearch] {c : Call} {r : Uuid} {document : PutDocument} {v : View}

/-- A new document starts at version 1. -/
theorem safe_newDocument (hd : document.documentId = none) (hf : v.database.footprint c = .begun) :
    (target none).run.Safe (protocol c (.put r document)) (Targeted c r document) v := by
  rw [target]
  apply safe_newUuid_bind
  intro w u w' hw _ hdb
  have hf' : w'.database.footprint c = .begun := by
    rw [hdb, hw.database.footprint, hf]
  apply safe_query_bind
  · intro x hx
    refine ⟨?_, r, document, rfl⟩
    change x.database.footprint c = _
    rw [hx.database.footprint, hf']
  · exact fun _ _ _ => .inl rfl
  · intro x a x' hx _ he
    have hfx : x.database.footprint c = .begun := by
      rw [hx.database.footprint, hf']
    generalize hdb' : x'.database = db at he
    cases he
    apply Safe.ret
    intro y hy
    apply Chosen.stable _ hy
    have hown : x'.database.footprint c =
        ⟨.active, 1, [⟨u, x.database.startedAt c⟩], [], [], []⟩ := by
      rw [hdb', Database.footprint_addDocument, hfx]
      rfl
    constructor
    · exact congrArg Footprint.status hown
    · rw [hown]
    · rw [hown]
    · rw [hown]
      exact .inl ⟨_, rfl, rfl, hd⟩
  · exact fun x he => .failed rfl he

/-- The number after the latest version of a document that is locked. -/
theorem safe_nextVersion {d : Uuid} (hd : document.documentId = some d)
    (hf : v.database.footprint c = ⟨.active, 1, [], [], [], [(.document d, .forUpdate)]⟩) :
    (query (.nextVersion d) >>= fun nextVersion => pure (d, nextVersion)).run.Safe
      (protocol c (.put r document)) (Targeted c r document) v := by
  apply safe_query_bind
  · exact fun _ _ => ⟨trivial, trivial⟩
  · exact fun _ _ _ => .inl rfl
  · intro y n y' hy _ hn
    have hfy : y.database.footprint c = _ := hy.database.footprint.trans hf
    generalize hdby : y'.database = db at hn
    cases hn
    apply Safe.ret
    intro z hz
    apply Chosen.stable _ hz
    have hnone : (y.database.footprint c).versions = [] := by rw [hfy]
    have hseen : y.database.versionsSeen c = y.database.committedVersions :=
      Heap.visibleRows_of_rowsOf_nil hnone
    constructor
    · rw [hdby]
      exact congrArg Footprint.status hfy
    · rw [hdby, hfy]
    · rw [hdby, hfy]
    · rw [hdby, Database.Locks, hfy, hseen]
      exact .inr ⟨rfl, List.mem_cons_self, rfl, hd⟩
  · exact fun y he => .failed rfl he

/-- A document that is missing now was unknown when the request was looked up, since documents
are never deleted. -/
theorem answers_unknownDocument {d : Uuid} (hc : isBlank document.content = false)
    (ht : isBlank document.contentType = false) (hd : document.documentId = some d)
    (hlook : Looked r v) (ha : v.database.status c = .active)
    (hsees : v.database.sees c (.document d) = false) :
    Answers c v (.put r document) (.put (.error .unknownDocument)) := by
  rcases hlook with ⟨past, hpast, hnone⟩
  have hmissing : ¬ past.HasDocument d := by
    intro hdoc
    have := (Database.sees_document (c := c)).mpr (.inl (hdoc.grows (v.past past hpast).2))
    simp [this] at hsees
  have hunsent : Unsent v.database c := by
    rw [Unsent, ha]
    exact ⟨by decide, by decide⟩
  apply Answers.read hpast hunsent
  apply Library.Step.put
  apply Library.Put.unknownDocument hc ht hnone hd
  exact ((v.past past hpast).1.documents_eq_nil_iff d).mpr hmissing

/-- The steps that choose the document: what they leave when they succeed, and the reason
when the document is unknown. -/
theorem safe_target (hc : isBlank document.content = false)
    (ht : isBlank document.contentType = false)
    (hf : v.database.footprint c = .begun)
    (hlook : Looked r v) :
    (target document.documentId).run.Safe (protocol c (.put r document))
      (Targeted c r document) v := by
  cases hd : document.documentId with
  | none => exact safe_newDocument hd hf
  | some d =>
    rw [target]
    apply safe_query_bind
    · intro x hx
      refine ⟨?_, trivial⟩
      change x.database.footprint c = _
      rw [hx.database.footprint, hf]
    · intro x hx hinactive
      exact absurd (congrArg Footprint.status (hx.database.footprint.trans hf)) hinactive
    · intro x a x' hx hmine he
      have hfx : x.database.footprint c = .begun := by
        rw [hx.database.footprint, hf]
      generalize hdb : x'.database = db at he
      cases he with
      | lockFound ha hsees hfree =>
        apply safe_nextVersion hd
        rw [hdb, Database.footprint_addLock, hfx]
        rfl
      | lockMissing hsees =>
        have ha : x'.database.status c = .active := by
          rw [hdb]
          exact congrArg Footprint.status hfx
        have hlook' : Looked r x' := (hlook.stable hx).own hmine
        apply Safe.ret
        intro z hz
        exact (answers_unknownDocument hc ht hd hlook' ha (hdb ▸ hsees)).stable hz
    · exact fun x he => .failed rfl he

theorem safe_insertVersionSql {d : Uuid} {n : ℤ} (hc : isBlank document.content = false)
    (ht : isBlank document.contentType = false) (h : Chosen c document d n v) :
    (insertVersionSql d n document).run.Safe (protocol c (.put r document))
      (fun x res => res = .ok () ∧ Stored c d n x ∨
        res = .error .repository ∧ Excused (.put r document) x.faulty) v := by
  rw [insertVersionSql]
  apply safe_query_bind
  · intro x hx
    have hch := h.stable hx
    constructor
    · refine ⟨hch.versions, hch.operations, ?_⟩
      rcases hch.target with ⟨t, hdocs, hn, -⟩ | ⟨hdocs, hl, hn, -⟩
      · exact .inl ⟨t, hdocs, hn⟩
      · exact .inr ⟨hdocs, hl, hn⟩
    · refine ⟨⟨r, rfl⟩, rfl, hc, ht, ?_, ?_⟩
      · intro hnil
        rcases hch.target with ⟨t, hdocs, -⟩ | ⟨-, -, -, hid⟩
        · simp [hdocs] at hnil
        · exact hid
      · intro hne
        rcases hch.target with ⟨-, -, -, hid⟩ | ⟨hdocs, -⟩
        · exact hid
        · exact absurd hdocs hne
  · intro x hx hr
    have hch := h.stable hx
    have hi : (x.database.status c).inProgress := by simp [hch.active, TxStatus.inProgress]
    rcases hr with hinactive | hstorable | hsees
    · exact absurd hch.active hinactive
    · rw [Database.newVersion_isStorable hch.one_le (by simp)] at hstorable
      exact .inr hstorable
    · have hfree := x.consistent.not_sees_next hi (d := d) (v := n) hch.versions (by
        rcases hch.target with ⟨t, hdocs, hn, -⟩ | ⟨-, -, hn, -⟩
        · exact .inl ⟨t, hdocs, hn⟩
        · exact .inr hn)
      simp [hfree] at hsees
  · intro x _ x' hx _ he
    have hch := h.stable hx
    have hst : Stored c d n x' := by
      generalize hdb : x'.database = db at he
      cases he
      constructor
      · rw [hdb]
        exact hch.active
      · rw [hdb, Database.footprint_addVersion]
        exact hch.operations
      · rw [hdb, Database.footprint_addVersion, hch.versions]
        exact ⟨_, List.mem_singleton_self _, rfl⟩
    apply safe_query (s := .keyShare (.document d))
    · intro y hy
      rcases (hst.stable hy).version with ⟨row, hrow, hkey⟩
      obtain rfl : row.documentId = d := congrArg Prod.fst hkey
      exact ⟨⟨row, hrow, .inl rfl⟩, trivial⟩
    · intro y hy hr
      have hsty := hst.stable hy
      rcases hsty.version with ⟨row, hrow, hkey⟩
      exact absurd hr (not_refuses_keyShare hsty.active hrow hkey (.inl rfl))
    · intro y _ y' hy _ he' z hz
      refine .inl ⟨rfl, Stored.stable ?_ hz⟩
      generalize hdb : y'.database = db at he'
      cases he'
      exact (hst.stable hy).addLock hdb
    · exact fun _ he => .inr ⟨rfl, he⟩
  · exact fun _ he => .inr ⟨rfl, he⟩

/-- A foreign-key check of a row that is recorded changes nothing that matters later. -/
theorem safe_keyShare {β : Type} {d : Uuid} {n : ℤ} {target : RowId} {f : Unit → Repo β}
    {R : View → Except DocumentError β → Prop} (h : Recorded c d n v)
    (htarget : target = .document d ∨ target = .version d n)
    (hok : ∀ w, Recorded c d n w → (f ()).run.Safe (protocol c (.put r document)) R w)
    (herr : ∀ x, Excused (.put r document) x.faulty → R x (.error .repository)) :
    (query (.keyShare target) >>= f).run.Safe (protocol c (.put r document)) R v := by
  apply safe_query_bind _ _ _ herr
  · intro x hx
    rcases (h.stable hx).version with ⟨row, hrow, hkey⟩
    obtain ⟨rfl, rfl⟩ := Prod.mk.inj hkey
    exact ⟨⟨row, hrow, htarget⟩, trivial⟩
  · intro x hx hr
    have hrec := h.stable hx
    rcases hrec.version with ⟨row, hrow, hkey⟩
    exact absurd hr (not_refuses_keyShare hrec.active hrow hkey htarget)
  · intro x _ x' hx _ he
    apply hok
    generalize hdb : x'.database = db at he
    cases he
    exact (h.stable hx).addLock hdb

/-- Inserting the put operation writes a row beside its version, unless another call was
first. -/
def Tried (c : Call) (r : Uuid) (document : PutDocument) (d : Uuid) (n : ℤ) (v : View) :
    Except DocumentError ℕ → Prop
  | .ok inserted => if inserted = 0 then v.database.status c = .active ∧ Taken r v
    else Recorded c d n v
  | .error e => e = .repository ∧ Excused (.put r document) v.faulty

theorem safe_insertPutOperationSql {d : Uuid} {n : ℤ} (h : Stored c d n v) :
    (insertPutOperationSql r d n).run.Safe (protocol c (.put r document)) (Tried c r document d n)
      v := by
  rw [insertPutOperationSql]
  apply safe_query_bind
  · intro x hx
    have hst := h.stable hx
    exact ⟨⟨hst.operations, hst.version⟩, document, rfl⟩
  · exact fun x hx hinactive => absurd (h.stable hx).active hinactive
  · intro x inserted x' hx _ he
    have hst := h.stable hx
    generalize hdb : x'.database = db at he
    cases he with
    | recorded hold =>
      have htaken : Taken r x' := by
        rw [Taken, hdb]
        exact taken_of_present hst.operations hold
      apply Safe.ret
      intro y hy
      have ha : y.database.status c = .active := by rw [status_stable hy, hdb, hst.active]
      exact ⟨ha, htaken.stable hy⟩
    | insertPutOperation ha hfree hnew =>
      have hrec : Recorded c d n x' := by
        constructor
        · rw [hdb]
          exact ha
        · rw [hdb, Database.footprint_addPutOperation]
          exact hst.version
        · rw [hdb, Database.footprint_addPutOperation, hst.operations]
          exact ⟨_, rfl, rfl⟩
      change (query (.keyShare (.document d)) >>= fun _ =>
        query (.keyShare (.version d n)) >>= fun _ => pure 1).run.Safe _ _ x'
      refine safe_keyShare (R := Tried c r document d n) hrec (.inl rfl) ?_ fun _ he => ⟨rfl, he⟩
      intro y hy
      refine safe_keyShare (R := Tried c r document d n) hy (.inr rfl) ?_ fun _ he => ⟨rfl, he⟩
      intro z hz
      exact Safe.ret fun w hw => hz.stable hw
  · exact fun _ he => ⟨rfl, he⟩

/-- A recorded request is answered with its record. -/
theorem answers_recorded {w w' : View} {d : Uuid} {n : ℤ} (hc : isBlank document.content = false)
    (ht : isBlank document.contentType = false) (hm : w'.mine = w.mine ++ [w.database])
    (hu : Unsent w'.database c) (hrec : w.database.library.recorded r = some (d, n)) :
    Answers c w' (.put r document) (.put (.ok ⟨d, n, true⟩)) :=
  .read (by simp [hm]) hu (.put (.recorded hc ht hrec))

theorem safe_reportWinner (hc : isBlank document.content = false)
    (ht : isBlank document.contentType = false) (ha : v.database.status c = .active)
    (htaken : Taken r v) :
    (reportWinner r).run.Safe (protocol c (.put r document))
      (fun x res => Answers c x (.put r document) (.put res)) v := by
  rw [reportWinner]
  apply safe_query_bind
  · exact fun _ _ => ⟨trivial, trivial⟩
  · intro x hx hidle
    have hidle : (x.database.status c).inProgress = false := hidle
    rw [status_stable hx, ha] at hidle
    cases hidle
  · intro x _ x' hx _ he
    have hend : x'.database.status c = .aborted ∧ Taken r x' := by
      have htx := htaken.stable hx
      rw [Taken] at htx ⊢
      generalize x'.database = db at he
      cases he with
      | rollback hi =>
        have hq : x.database.Quiet c (x.database.setStatus c .aborted) :=
          Database.quiet_setStatus (TxStatus.ne_committed_of_inProgress hi) (by decide)
        rw [hq.operations]
        exact ⟨Function.update_self _ _ _, htx⟩
    apply safe_query_bind
    · exact fun _ _ => ⟨trivial, trivial⟩
    · exact fun _ _ hr => False.elim hr
    · intro y row y' hy hm hlook
      have hs : y.database.status c = .aborted := by rw [status_stable hy, hend.1]
      have hrow : y'.database = y.database ∧ row = y.database.library.recorded r := by
        generalize y'.database = db at hlook
        cases hlook
        exact ⟨rfl, lookup_eq (by simp [hs, TxStatus.inProgress])⟩
      have hunsent : Unsent y'.database c := by
        rw [hrow.1, Unsent, hs]
        exact ⟨by decide, by decide⟩
      rcases recorded_of_taken (hend.2.stable hy) with ⟨⟨d, n⟩, hrec⟩
      rw [hrow.2, hrec]
      exact Safe.ret fun z hz => (answers_recorded hc ht hm hunsent hrec).stable hz
    · exact fun _ he => .failed rfl he
  · exact fun _ he => .failed rfl he

/-- The last statement of a put that recorded its request. -/
theorem safe_commit {d : Uuid} {n : ℤ} (h : Recorded c d n v) :
    (query .commit >>= fun _ => pure ⟨d, n, false⟩).run.Safe (protocol c (.put r document))
      (fun x res => Answers c x (.put r document) (.put res)) v := by
  apply safe_query_bind
  · intro x hx
    rcases (h.stable hx).operation with ⟨o, ho, -⟩
    refine ⟨?_, trivial⟩
    change (x.database.footprint c).operations ≠ []
    simp [ho]
  · exact fun x hx hinactive => absurd (h.stable hx).active hinactive
  · intro x _ x' hx _ hcommit
    have hrec := h.stable hx
    rcases hrec.operation with ⟨o, ho, hkey⟩
    obtain ⟨rfl, rfl⟩ := Prod.mk.inj hkey
    apply Safe.ret
    intro y hy
    apply Answers.stable _ hy
    generalize hdb : x'.database = db at hcommit
    cases hcommit with
    | commit =>
      apply Answers.wrote
      · simp [hdb, Database.setStatus]
      · rw [hdb, Database.footprint_setStatus, ho]
        exact List.mem_singleton_self o
    | commitFailed hfailed => simp [hrec.active] at hfailed
  · exact fun _ he => .failed rfl he

theorem safe_write (hc : isBlank document.content = false)
    (ht : isBlank document.contentType = false) (hf : v.database.footprint c = .connected)
    (hlook : Looked r v) :
    (write r document).run.Safe (protocol c (.put r document))
      (fun x res => Answers c x (.put r document) (.put res)) v := by
  rw [write]
  apply safe_query_bind
  · intro x hx
    refine ⟨?_, trivial⟩
    change x.database.footprint c = .connected
    rw [hx.database.footprint, hf]
  · intro x hx hbusy
    exact absurd (congrArg Footprint.status (hx.database.footprint.trans hf)) hbusy
  · intro x _ x' hx hm he
    have hbegun : x'.database.footprint c = .begun := by
      generalize x'.database = db at he
      cases he
      rw [Database.footprint_begin, hx.database.footprint, hf]
      rfl
    apply Safe.bindExcept (safe_target hc ht hbegun ((hlook.stable hx).own hm))
    · rintro y ⟨d, n⟩ hch
      apply Safe.bindExcept (safe_insertVersionSql hc ht hch)
      · rintro z _ (⟨-, hst⟩ | herr)
        · apply Safe.bindExcept (safe_insertPutOperationSql hst)
          · intro a inserted htried
            rw [Tried] at htried
            split at htried
            · rename_i hzero
              rw [if_pos hzero]
              exact safe_reportWinner hc ht htried.1 htried.2
            · rename_i hzero
              rw [if_neg hzero]
              exact safe_commit htried
          · rintro a e ⟨rfl, he⟩
            exact Safe.ret fun b hb => Answers.stable (.failed rfl he) hb
        · cases herr.1
      · rintro z e (⟨h, -⟩ | ⟨herr, he⟩)
        · cases h
        · cases herr
          exact Safe.ret fun b hb => Answers.stable (.failed rfl he) hb
    · intro y e hans
      exact Safe.ret fun z hz => hans.stable hz
  · exact fun _ he => .failed rfl he

/-- A put keeps the contract and answers like the abstract store, or fails. -/
theorem safe_put (hf : v.database.footprint c = .empty) (hm : v.mine ≠ []) :
    (put r document).run.Safe (protocol c (.put r document))
      (fun x res => Answers c x (.put r document) (.put res)) v := by
  rcases List.exists_mem_of_ne_nil _ hm with ⟨start, hstart⟩
  have hunsent : Unsent v.database c := by
    have hs : v.database.status c = .idle := congrArg Footprint.status hf
    rw [Unsent, hs]
    exact ⟨by decide, by decide⟩
  rw [put]
  split
  · rename_i hblank
    apply Safe.ret
    intro w hw
    exact Answers.stable (.read hstart hunsent (.put (.emptyContent hblank))) hw
  · rename_i hc
    have hc : isBlank document.content = false := by simpa using hc
    split
    · rename_i hblank
      apply Safe.ret
      intro w hw
      exact Answers.stable (.read hstart hunsent (.put (.emptyContentType hc hblank))) hw
    · rename_i ht
      have ht : isBlank document.contentType = false := by simpa using ht
      apply safe_connection_bind hf
      · intro x hfx _
        apply safe_query_bind
        · exact fun _ _ => ⟨trivial, trivial⟩
        · exact fun _ _ hr => False.elim hr
        · intro y row y' hy hmine hlook
          have hfy : y.database.footprint c = .connected := by rw [hy.database.footprint, hfx]
          have hs : y.database.status c = .idle := congrArg Footprint.status hfy
          have hdb : y'.database = y.database ∧ row = y.database.library.recorded r := by
            generalize y'.database = db at hlook
            cases hlook
            exact ⟨rfl, lookup_eq (by simp [hs, TxStatus.inProgress])⟩
          cases hrec : y.database.library.recorded r with
          | none =>
            rw [hdb.2, hrec]
            apply safe_write hc ht
            · rw [hdb.1, hfy]
            · exact ⟨y.database, by simp [hmine], hrec⟩
          | some key =>
            have hunsent : Unsent y'.database c := by
              rw [hdb.1, Unsent, hs]
              exact ⟨by decide, by decide⟩
            rw [hdb.2, hrec]
            exact Safe.ret fun z hz => (answers_recorded hc ht hmine hunsent hrec).stable hz
        · exact fun _ he => .failed rfl he
      · exact fun _ he => .failed rfl he

end Put

section Read
variable [Sha256] [TextSearch] {c : Call} {op : RepositoryCall} {v : View}

/-- The row a read finds is the one the library has at that moment. -/
theorem safe_findVersion {d : Uuid} {version : Option ℤ}
    (hf : v.database.footprint c = .connected) :
    (findVersion d version).run.Safe (protocol c op)
      (fun x res => (∃ row, res = .ok row ∧ Unsent x.database c ∧ ∃ db ∈ x.mine,
        db.library.get d version = row.elim (.error .notFound) readVersion) ∨
        res = .error .repository ∧ Excused op x.faulty) v := by
  have hseen : ∀ w, v.Rely c w →
      w.database.versionsSeen c = w.database.committedVersions := by
    intro w hw
    apply Heap.visibleRows_of_rowsOf_nil
    change (w.database.footprint c).versions = []
    rw [hw.database.footprint, hf]
    rfl
  have hunsent : ∀ w w' : View, v.Rely c w → w'.database = w.database → ∀ x, w'.Rely c x →
      Unsent x.database c := by
    intro w w' hw hdb x hx
    have hs : w.database.status c = .idle :=
      congrArg Footprint.status (hw.database.footprint.trans hf)
    rw [Unsent, status_stable hx, hdb, hs]
    exact ⟨by decide, by decide⟩
  cases version with
  | none =>
    apply safe_query (s := .findLatestVersion d)
    · exact fun _ _ => ⟨trivial, trivial⟩
    · exact fun _ _ hr => False.elim hr
    · intro w row w' hw hm he x hx
      have hdb : w'.database = w.database ∧
          w.database.library.get d none = row.elim (.error .notFound) readVersion := by
        generalize w'.database = db at he
        cases he
        rw [hseen w hw]
        exact ⟨rfl, w.consistent.library_get_none d⟩
      exact .inl ⟨row, rfl, hunsent w w' hw hdb.1 x hx, w.database, by simp [hx.mine, hm], hdb.2⟩
    · exact fun _ he => .inr ⟨rfl, he⟩
  | some n =>
    apply safe_query (s := .findVersion d n)
    · exact fun _ _ => ⟨trivial, trivial⟩
    · exact fun _ _ hr => False.elim hr
    · intro w row w' hw hm he x hx
      have hdb : w'.database = w.database ∧
          w.database.library.get d (some n) = row.elim (.error .notFound) readVersion := by
        generalize w'.database = db at he
        cases he
        rw [hseen w hw]
        exact ⟨rfl, w.consistent.library_get_some d n⟩
      exact .inl ⟨row, rfl, hunsent w w' hw hdb.1 x hx, w.database, by simp [hx.mine, hm], hdb.2⟩
    · exact fun _ he => .inr ⟨rfl, he⟩

theorem safe_get {d : Uuid} {version : Option ℤ} (hf : v.database.footprint c = .empty) :
    (get d version).run.Safe (protocol c (.get d version))
      (fun x res => Answers c x (.get d version) (.get res)) v := by
  rw [PostgresDocumentRepository.get]
  apply safe_connection_bind hf
  · intro w hw _
    apply Safe.bindExcept (safe_findVersion hw)
    · rintro x row (⟨row', hrow, hu, db, hdb, hget⟩ | herr)
      · cases hrow
        have hans : Answers c x (.get d version)
            (.get (row.elim (.error .notFound) readVersion)) := by
          rw [← hget]
          exact .read hdb hu (.get d version)
        cases row with
        | none => exact Safe.ret fun y hy => hans.stable hy
        | some row => exact Safe.ret fun y hy => hans.stable hy
      · cases herr.1
    · rintro x e (⟨row, hrow, -⟩ | ⟨herr, he⟩)
      · cases hrow
      · cases herr
        exact Safe.ret fun y hy => Answers.stable (.failed rfl he) hy
  · exact fun _ he => .failed rfl he

theorem safe_search {queryText : String} {limit : ℤ} (hf : v.database.footprint c = .empty) :
    (search queryText limit).run.Safe (protocol c (.search queryText limit))
      (fun x res => Answers c x (.search queryText limit) (.search res)) v := by
  rw [search]
  apply safe_connection_bind hf
  · intro w hw _
    apply safe_query (s := .search queryText limit)
    · exact fun _ _ => ⟨trivial, trivial⟩
    · exact fun _ _ hnegative => .inr hnegative
    · intro x hits x' hx hm he y hy
      have hseen : x.database.versionsSeen c = x.database.committedVersions := by
        apply Heap.visibleRows_of_rowsOf_nil
        change (x.database.footprint c).versions = []
        rw [hx.database.footprint, hw]
        rfl
      generalize x'.database = db at he
      cases he with
      | search plan hl =>
        rw [hseen]
        exact .searched (by simp [hy.mine, hm]) plan hl
    · exact fun _ he => .failed rfl he
  · exact fun _ he => .failed rfl he

/-- From a fresh start every method keeps the contract and answers as it should. -/
theorem safe_program (hf : v.database.footprint c = .empty) (hm : v.mine ≠ []) :
    (program op).Safe (protocol c op) (fun x res => Answers c x op res) v := by
  cases op with
  | put r document =>
    apply Safe.bind (safe_put hf hm)
    intro x res hans
    exact Safe.ret fun y hy => hans.stable hy
  | get d version =>
    apply Safe.bind (safe_get hf)
    intro x res hans
    exact Safe.ret fun y hy => hans.stable hy
  | search queryText limit =>
    apply Safe.bind (safe_search hf)
    intro x res hans
    exact Safe.ret fun y hy => hans.stable hy

end Read
end Librarian.Store
