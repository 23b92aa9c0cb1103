import Librarian.Abstraction
import Librarian.Foundation.Protocol
import Librarian.Store.System

/-! # The contract between one call and all others

A call sees the database and remembers the databases of its own steps. It promises to make
only permitted statements that write its own document, and may rely on the others leaving
its footprint and the documents it holds alone.
-/
namespace Librarian.Store
open Foundation Postgres PostgresDocumentRepository

/-- What the rows of a call say about the call. -/
def Written [Sha256] (op : RepositoryCall) (f : Footprint) : Prop :=
  match op with
  | .put r document => f.WrittenBy r document
  | _ => f.documents = [] ∧ f.versions = [] ∧ f.operations = []

/-- The statements by which a call writes rows carry its own request and document. -/
def Authors [Sha256] (op : RepositoryCall) (f : Footprint) : Stmt → Prop
  | .insertDocument _ => ∃ r document, op = .put r document
  | .insertVersion d _ document digest =>
    (∃ r, op = .put r document) ∧ digest = document.contentDigest.toList ∧
      isBlank document.content = false ∧ isBlank document.contentType = false ∧
      (f.documents = [] → document.documentId = some d) ∧
      (f.documents ≠ [] → document.documentId = none)
  | .insertPutOperation r _ _ => ∃ document, op = .put r document
  | _ => True

/-- `mine` are the databases before the call's own steps so far, and `faulty` tells whether a
fault struck one of them. -/
structure View where
  mine : List Database
  faulty : Bool
  database : Database
  consistent : database.Consistent
  past : ∀ db ∈ mine, db.Consistent ∧ db.Grows database

/-- Calls that the database refuses because of their arguments. -/
def Unacceptable [TextSearch] : RepositoryCall → Prop
  | .put _ document => document.isStorable = false
  | .get _ _ => False
  | .search query limit => limit < 0 ∨ isQuery query = false

/-- What excuses a call from answering like the abstract store. -/
def Excused [TextSearch] (op : RepositoryCall) (faulty : Bool) : Prop := faulty = true ∨ Unacceptable op

/-- The call neither has committed nor has its commit on the way. -/
def Unsent (db : Database) (c : Call) : Prop :=
  db.status c ≠ .committing ∧ db.status c ≠ .committed

/-- Why a call may answer `res`: it failed, it committed, or the abstract store answers so at
one of its own steps. -/
inductive Answers [Sha256] [TextSearch] (c : Call) (v : View) :
    RepositoryCall → RepositoryResult → Prop
  | failed {op : RepositoryCall} {res : RepositoryResult} (h : Library.Failed op res)
      (he : Excused op v.faulty) : Answers c v op res
  | wrote {r : Uuid} {document : PutDocument} {row : PutOperationRow}
      (hs : v.database.status c = .committed) (hrow : row ∈ (v.database.footprint c).operations) :
      Answers c v (.put r document) (.put (.ok ⟨row.documentId, row.version, false⟩))
  | read {op : RepositoryCall} {res : RepositoryResult} {db : Database} (hdb : db ∈ v.mine)
      (hu : Unsent v.database c) (h : db.library.Step op res db.library) : Answers c v op res
  | searched {query : String} {limit : ℤ} {db : Database} (hdb : db ∈ v.mine) (plan : Plan)
      (hl : 0 ≤ limit) : Answers c v (.search query limit)
        (.search (.ok (searchSql plan db.committedVersions query limit.toNat)))

/-- What the others may do to the view of call `c`. -/
structure View.Rely (c : Call) (v w : View) : Prop where
  mine : w.mine = v.mine
  faulty : w.faulty = v.faulty
  database : v.database.Rely c w.database

/-- The contract of call `c` of `op`. -/
def protocol [Sha256] [TextSearch] (c : Call) (op : RepositoryCall) :
    Protocol Effect Effect.Ans View where
  rely := View.Rely c
  rely_refl _ := ⟨rfl, rfl, .refl _ _⟩
  rely_trans h h' :=
    ⟨h'.mine.trans h.mine, h'.faulty.trans h.faulty, h.database.trans h'.database⟩
  pre v e :=
    match e with
    | .newUuid => True
    | .sql s => v.database.Permits c s ∧ Authors op (v.database.footprint c) s
  post v e ans v' := v'.mine = v.mine ++ [v.database] ∧ ∃ fault,
    v'.faulty = (v.faulty || fault) ∧ Performs v.database c e fault ans v'.database

section Preservation
variable {db db' : Database} {c : Call}

theorem guarantee_sendCommit (h : db.Consistent) (hops : (db.footprint c).operations ≠ []) :
    db.Guarantee c (sendCommit db c) := by
  unfold sendCommit
  split
  · rename_i ha
    exact Database.guarantee_restatus h (by simp [ha, TxStatus.inProgress]) (by simp) fun _ => hops
  · exact Database.guarantee_refl h

/-- Whatever comes of a permitted effect, the invariant holds and the others are not disturbed. -/
theorem guarantee_performs [TextSearch] {e : Effect} {fault : Bool} {ans : e.Ans}
    (h : db.Consistent) (hp : ∀ s, e = .sql s → db.Permits c s)
    (hx : Performs db c e fault ans db') :
    db.Guarantee c db' := by
  cases hx with
  | newUuid u => exact Database.guarantee_refl h
  | row hx => exact Database.guarantee_executes h (hp _ rfl) hx
  | refused hr => exact Database.guarantee_fail h
  | lost hx => exact Database.guarantee_executes h (hp _ rfl) hx
  | failed s => exact Database.guarantee_fail h
  | doubted => exact guarantee_sendCommit h (hp _ rfl)

/-- Only rows count for what a call has written, not its status or its locks. -/
theorem Written.congr [Sha256] {op : RepositoryCall} {f f' : Footprint} (h : Written op f)
    (hd : f'.documents = f.documents) (hv : f'.versions = f.versions)
    (ho : f'.operations = f.operations) : Written op f' := by
  cases op with
  | put r document =>
    have h : f.WrittenBy r document := h
    constructor
    · rw [hv]
      exact h.content
    · rw [hv]
      exact h.contentType
    · rw [hv]
      exact h.version
    · rw [ho]
      exact h.request
    · rw [hv, hd]
      exact h.created
    · rw [hv, hd]
      exact h.appended
  | get d v =>
    simp only [Written] at h ⊢
    rwa [hd, hv, ho]
  | search q limit =>
    simp only [Written] at h ⊢
    rwa [hd, hv, ho]

theorem written_setStatus [Sha256] {op : RepositoryCall} {s : TxStatus}
    (h : Written op (db.footprint c)) : Written op ((db.setStatus c s).footprint c) := by
  rw [Database.footprint_setStatus]
  exact h.congr rfl rfl rfl

/-- What `INSERT_VERSION_SQL` stores is read back as it was put. -/
theorem readVersion_newVersion [Sha256] {d : Uuid} {v : ℤ} {document : PutDocument} :
    readVersion (db.newVersion c d v document document.contentDigest.toList) =
      .ok (Library.entry d v document (epochSeconds (db.startedAt c))) := by
  have hlen : (db.newVersion c d v document document.contentDigest.toList).contentDigest.length =
      32 := by
    simp [Database.newVersion]
  rw [readVersion, dif_pos hlen]
  simp only [Database.newVersion, Library.entry, Except.ok.injEq, DocumentVersion.mk.injEq,
    true_and, and_true]
  exact Vector.toArray_inj.mp Array.toArray_toList

theorem written_executes [Sha256] [TextSearch] {op : RepositoryCall} {s : Stmt} {a : s.Row}
    (h : Written op (db.footprint c)) (hp : db.Permits c s)
    (ha : Authors op (db.footprint c) s) (hx : db.Executes c s a db') :
    Written op (db'.footprint c) := by
  cases hx with
  | connection =>
    rw [Database.footprint_acquire]
    exact h.congr rfl rfl rfl
  | transaction hidle =>
    rw [Database.footprint_begin]
    exact h.congr rfl rfl rfl
  | insertDocument =>
    rcases ha with ⟨r, document, rfl⟩
    have hp : db.footprint c = .begun := hp
    rw [Database.footprint_addDocument, hp]
    constructor <;> simp [Footprint.begun]
  | lockFound =>
    rw [Database.footprint_addLock]
    exact h.congr rfl rfl rfl
  | insertVersion hact hchecks =>
    rcases ha with ⟨⟨r, rfl⟩, rfl, hc, ht, happ, hcre⟩
    rcases hp with ⟨hnone, hops, -⟩
    rw [Database.footprint_addVersion, hnone, List.nil_append]
    constructor
    · exact fun _ => hc
    · exact fun _ => ht
    · intro v hv
      obtain rfl := List.mem_singleton.mp hv
      exact readVersion_newVersion
    · simp [hops]
    · exact fun _ => hcre
    · intro v hv hd
      obtain rfl := List.mem_singleton.mp hv
      exact happ hd
  | keyShare =>
    rw [Database.footprint_addLock]
    exact h.congr rfl rfl rfl
  | insertPutOperation =>
    rcases ha with ⟨document, rfl⟩
    have h : (db.footprint c).WrittenBy _ document := h
    rcases hp with ⟨hnone, -⟩
    rw [Database.footprint_addPutOperation, hnone, List.nil_append]
    exact { h with request := by simp }
  | rollback => exact written_setStatus h
  | commit => exact written_setStatus h
  | commitFailed => exact written_setStatus h
  | _ => exact h

theorem written_fail [Sha256] {op : RepositoryCall} (h : Written op (db.footprint c)) :
    Written op ((db.fail c).footprint c) := by
  unfold Database.fail
  split
  · exact written_setStatus h
  · exact h

theorem written_performs [Sha256] [TextSearch] {op : RepositoryCall} {e : Effect} {fault : Bool}
    {ans : e.Ans} (h : Written op (db.footprint c))
    (hp : ∀ s, e = .sql s → db.Permits c s ∧ Authors op (db.footprint c) s)
    (hx : Performs db c e fault ans db') : Written op (db'.footprint c) := by
  cases hx with
  | newUuid u => exact h
  | row hx => exact written_executes h (hp _ rfl).1 (hp _ rfl).2 hx
  | lost hx => exact written_executes h (hp _ rfl).1 (hp _ rfl).2 hx
  | refused hr => exact written_fail h
  | failed s => exact written_fail h
  | doubted =>
    unfold sendCommit
    split
    · exact written_setStatus h
    · exact h

end Preservation
end Librarian.Store
