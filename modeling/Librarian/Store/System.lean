import Librarian.Foundation.Transition
import Librarian.Postgres.Refusals
import Librarian.PostgresDocumentRepository

/-! # Any number of repository calls against one database

One action is one statement of one call, or a thing that goes wrong: a statement fails, its
answer is lost, a commit stays in doubt, a client crashes. A transaction whose client is
gone stays open on the server until `settle` ends it.
-/
namespace Librarian.Store
open Foundation Postgres PostgresDocumentRepository

/-- The program of each method, with its result. -/
def program [Sha256] : RepositoryCall → Program Effect Effect.Ans RepositoryResult
  | .put r document => (put r document).run.bind fun res => .ret (.put res)
  | .get d v => (get d v).run.bind fun res => .ret (.get res)
  | .search q limit => (search q limit).run.bind fun res => .ret (.search res)

inductive Client where
  | idle
  | running (op : RepositoryCall) (program : Program Effect Effect.Ans RepositoryResult)
  | finished (op : RepositoryCall) (result : RepositoryResult)
  | crashed (op : RepositoryCall)

def Client.op : Client → Option RepositoryCall
  | .idle => none
  | .running op _ | .finished op _ | .crashed op => some op

def Client.isRunning : Client → Bool
  | .running _ _ => true
  | _ => false

structure State where
  database : Database
  client : Call → Client

def State.initial (clock : ℤ) : State := ⟨.empty clock, fun _ => .idle⟩

inductive Action where
  | invoke (c : Call) (op : RepositoryCall)
  | newUuid (c : Call) (u : Uuid)
  | exec (c : Call) (plan : Plan)
  | fail (c : Call)
  | lose (c : Call) (plan : Plan)
  | doubt (c : Call)
  | finish (c : Call) (rolledBack : Bool)
  | crash (c : Call)
  | settle (c : Call) (commit : Bool)
  | tick (now : ℤ)

def State.set (s : State) (db : Database) (c : Call) (client : Client) : State :=
  ⟨db, Function.update s.client c client⟩

/-- The commit of an open transaction is on its way to the server. -/
def sendCommit (db : Database) (c : Call) : Database :=
  if db.status c = .active then db.setStatus c .committing else db

/-- The database after a call returned. Dropping an open transaction rolls it back, if the
connection still works. -/
def returned (db : Database) (c : Call) (rolledBack : Bool) : Database :=
  (if rolledBack then db.dropTransaction c else db).release c

/-- One action, or `none` where it cannot happen now. -/
def step [Sha256] [TextSearch] (s : State) : Action → Option State
  | .invoke c op =>
    match s.client c with
    | .idle => some (s.set s.database c (.running op (program op)))
    | _ => none
  | .newUuid c u =>
    match s.client c with
    | .running op (.call .newUuid next) => some (s.set s.database c (.running op (next u)))
    | _ => none
  | .exec c plan =>
    match s.client c with
    | .running op (.call (.sql stmt) next) =>
      match s.database.exec c plan stmt with
      | .blocked => none
      | .error => some (s.set (s.database.fail c) c (.running op (next (.error .error))))
      | .row a db => some (s.set db c (.running op (next (.ok a))))
    | _ => none
  | .fail c =>
    match s.client c with
    | .running op (.call (.sql _) next) =>
      some (s.set (s.database.fail c) c (.running op (next (.error .error))))
    | _ => none
  | .lose c plan =>
    -- the server did its part and the connection broke before the answer arrived
    match s.client c with
    | .running op (.call (.sql stmt) next) =>
      match s.database.exec c plan stmt with
      | .row _ db => some (s.set db c (.running op (next (.error .error))))
      | _ => none
    | _ => none
  | .doubt c =>
    match s.client c with
    | .running op (.call (.sql .commit) next) =>
      some (s.set (sendCommit s.database c) c (.running op (next (.error .error))))
    | _ => none
  | .finish c rolledBack =>
    match s.client c with
    | .running op (.ret res) =>
      some (s.set (returned s.database c rolledBack) c (.finished op res))
    | _ => none
  | .crash c =>
    match s.client c with
    | .running op _ => some (s.set (s.database.release c) c (.crashed op))
    | _ => none
  | .settle c commit =>
    if (s.client c).isRunning = false ∧ s.database.inProgress c then
      if commit then
        if s.database.status c = .committing then
          some { s with database := s.database.setStatus c .committed }
        else none
      else some { s with database := s.database.setStatus c .aborted }
    else none
  | .tick now =>
    if s.database.clock ≤ now then some { s with database := s.database.tick now }
    else none

theorem step_invoke [Sha256] [TextSearch] {s s' : State} {c : Call} {op : RepositoryCall}
    (h : step s (.invoke c op) = some s') :
    s' = s.set s.database c (.running op (program op)) := by
  simp only [step] at h
  split at h
  · exact (Option.some.inj h).symm
  · cases h

def system [Sha256] [TextSearch] : System State Action where
  init s := ∃ clock, s = .initial clock
  step s a s' := step s a = some s'

section Sample

/-- SHA-256 of the two texts `alpha` and `beta`. -/
@[reducible] def sampleSha256 : Sha256 where
  digest bytes :=
    if bytes = [97, 108, 112, 104, 97] then
      #v[0x8e, 0xd3, 0xf6, 0xad, 0x68, 0x5b, 0x95, 0x9e, 0xad, 0x70, 0x22, 0x51, 0x8e, 0x1a, 0xf7,
        0x6c, 0xd8, 0x16, 0xf8, 0xe8, 0xec, 0x7c, 0xcd, 0xda, 0x1e, 0xd4, 0x01, 0x8e, 0x8f, 0x22,
        0x23, 0xf8]
    else
      #v[0xf4, 0x4e, 0x64, 0xe7, 0x5f, 0x39, 0x48, 0xe9, 0xf7, 0x3f, 0x8d, 0xfa, 0x94, 0x72, 0x1c,
        0x4c, 0xe8, 0xcb, 0xb4, 0xf2, 0x65, 0xc4, 0x79, 0x0c, 0x70, 0x2b, 0x2d, 0x41, 0xcf, 0xbf,
        0x27, 0x53]

/-- Text search over contents and queries of one word each. No text of a run is too long. -/
@[reducible] def sampleSearch : TextSearch where
  Rank := ℕ
  order := inferInstance
  isMatch row query := row.content = query
  rank _ _ := 0
  headline _ query := "<b>" ++ query ++ "</b>"
  fits _ _ := true
  admits _ := true

def samplePlan : Plan := ⟨id, fun _ => .refl _⟩

def sampleDocument (documentId : Option Uuid) (content : String) : PutDocument :=
  ⟨documentId, content, "text/plain", none, none⟩

def execs (c : Call) (n : ℕ) : List Action := List.replicate n (.exec c samplePlan)

/-- One put of a new document from its start to its end. -/
def createRun (c : Call) (r u : Uuid) (content : String) : List Action :=
  .invoke c (.put r (sampleDocument none content)) ::
    (execs c 3 ++ .newUuid c u :: execs c 7 ++ [.finish c true])

/-- One put of a further version from its start to its end. -/
def appendRun (c : Call) (r d : Uuid) (content : String) : List Action :=
  .invoke c (.put r (sampleDocument (some d) content)) :: (execs c 11 ++ [.finish c true])

def sampleRun (actions : List Action) : Option State :=
  System.run (@step sampleSha256 sampleSearch) (.initial 0) actions

/-- The same run with the states in between. -/
def sampleRecord (actions : List Action) : List (State × Action) :=
  System.record (@step sampleSha256 sampleSearch) (.initial 0) actions

theorem trace_sampleRun {actions : List Action} (h : (sampleRun actions).isSome = true) :
    (@system sampleSha256 sampleSearch).Trace (sampleRecord actions) ((sampleRun actions).get h) :=
  have hstart : (@system sampleSha256 sampleSearch).Trace [] (.initial 0) := .start ⟨0, rfl⟩
  System.trace_record (fun _ _ _ hs => hs) hstart (Option.eq_some_of_isSome h)

theorem reachable_sampleRun {actions : List Action} (h : (sampleRun actions).isSome = true) :
    (@system sampleSha256 sampleSearch).Reachable ((sampleRun actions).get h) :=
  (trace_sampleRun h).reachable

end Sample

/-- What may come of one effect of call `c`: whether a fault struck, its answer and the
database after it. -/
inductive Performs [TextSearch] (db : Database) (c : Call) :
    (e : Effect) → Bool → e.Ans → Database → Prop
  | newUuid (u : Uuid) : Performs db c .newUuid false u db
  | row {stmt : Stmt} {a : stmt.Row} {db' : Database} (h : db.Executes c stmt a db') :
      Performs db c (.sql stmt) false (.ok a) db'
  | refused {stmt : Stmt} (h : db.Refuses c stmt) :
      Performs db c (.sql stmt) stmt.exhausts (.error .error) (db.fail c)
  | lost {stmt : Stmt} {a : stmt.Row} {db' : Database} (h : db.Executes c stmt a db') :
      Performs db c (.sql stmt) true (.error .error) db'
  | failed (stmt : Stmt) : Performs db c (.sql stmt) true (.error .error) (db.fail c)
  | doubted : Performs db c (.sql .commit) true (.error .error) (sendCommit db c)

/-- The call whose client acts. -/
def Action.actor : Action → Option Call
  | .invoke c _ | .newUuid c _ | .exec c _ | .fail c | .lose c _ | .doubt c | .finish c _
  | .crash c => some c
  | .settle _ _ | .tick _ => none

/-- Whether the action is a fault that strikes call `c`: a statement fails or is never
answered, a new identifier is taken, or the version numbers have run out. -/
def Action.faults [TextSearch] (s : State) (c : Call) : Action → Bool
  | .fail x | .doubt x | .lose x _ => x = c
  | .exec x plan => x = c &&
    match s.client c with
    | .running _ (.call (.sql stmt) _) =>
      stmt.exhausts && (s.database.exec c plan stmt).isError
    | _ => false
  | _ => false

theorem Action.faults_other [TextSearch] {s : State} {c : Call} {a : Action}
    (h : a.actor ≠ some c) : a.faults s c = false := by
  cases a <;> simp_all [Action.faults, Action.actor]

/-- All a step can do. -/
inductive Moves [Sha256] [TextSearch] (s : State) : Action → State → Prop
  | invoke {c : Call} {op : RepositoryCall} (h : s.client c = .idle) :
      Moves s (.invoke c op) (s.set s.database c (.running op (program op)))
  | perform {a : Action} {c : Call} {op : RepositoryCall} {e : Effect}
      {next : e.Ans → Program Effect Effect.Ans RepositoryResult} {ans : e.Ans} {db : Database}
      (ha : a.actor = some c) (h : s.client c = .running op (.call e next))
      (hp : Performs s.database c e (a.faults s c) ans db) :
      Moves s a (s.set db c (.running op (next ans)))
  | finish {c : Call} {op : RepositoryCall} {res : RepositoryResult} (rolledBack : Bool)
      (h : s.client c = .running op (.ret res)) :
      Moves s (.finish c rolledBack) (s.set (returned s.database c rolledBack) c (.finished op res))
  | crash {c : Call} {op : RepositoryCall} {p : Program Effect Effect.Ans RepositoryResult}
      (h : s.client c = .running op p) :
      Moves s (.crash c) (s.set (s.database.release c) c (.crashed op))
  | settleCommit {c : Call} (hr : (s.client c).isRunning = false)
      (hs : s.database.status c = .committing) :
      Moves s (.settle c true) { s with database := s.database.setStatus c .committed }
  | settleAbort {c : Call} (hr : (s.client c).isRunning = false)
      (hi : (s.database.status c).inProgress) :
      Moves s (.settle c false) { s with database := s.database.setStatus c .aborted }
  | tick {now : ℤ} (h : s.database.clock ≤ now) :
      Moves s (.tick now) { s with database := s.database.tick now }

theorem step_moves [Sha256] [TextSearch] {s s' : State} {a : Action} (h : step s a = some s') :
    Moves s a s' := by
  cases a with
  | invoke c op =>
    simp only [step] at h
    split at h
    · rename_i hc
      cases h
      exact .invoke hc
    · cases h
  | newUuid c u =>
    simp only [step] at h
    split at h
    · rename_i hc
      cases h
      exact .perform rfl hc (by simpa [Action.faults] using Performs.newUuid u)
    · cases h
  | exec c plan =>
    simp only [step] at h
    split at h
    · rename_i hc
      split at h
      · cases h
      · rename_i hx
        cases h
        apply Moves.perform rfl hc
        simpa [Action.faults, hc, hx, Outcome.isError] using
          Performs.refused (Database.exec_refuses hx)
      · rename_i hx
        cases h
        apply Moves.perform rfl hc
        simpa [Action.faults, hc, hx, Outcome.isError] using
          Performs.row (Database.exec_executes hx)
    · cases h
  | fail c =>
    simp only [step] at h
    split at h
    · rename_i hc
      cases h
      exact .perform rfl hc (by simpa [Action.faults] using Performs.failed _)
    · cases h
  | lose c plan =>
    simp only [step] at h
    split at h
    · rename_i hc
      split at h
      · rename_i hx
        cases h
        exact .perform rfl hc
          (by simpa [Action.faults] using Performs.lost (Database.exec_executes hx))
      · cases h
    · cases h
  | doubt c =>
    simp only [step] at h
    split at h
    · rename_i hc
      cases h
      exact .perform rfl hc (by simpa [Action.faults] using Performs.doubted)
    · cases h
  | finish c rolledBack =>
    simp only [step] at h
    split at h
    · rename_i hc
      cases h
      exact .finish rolledBack hc
    · cases h
  | crash c =>
    simp only [step] at h
    split at h
    · rename_i hc
      cases h
      exact .crash hc
    · cases h
  | settle c commit =>
    simp only [step] at h
    split at h
    · rename_i hc
      split at h
      · rename_i hcommit
        subst hcommit
        split at h
        · rename_i hs
          cases h
          exact .settleCommit hc.1 hs
        · cases h
      · rename_i hcommit
        obtain rfl : commit = false := by simpa using hcommit
        cases h
        exact .settleAbort hc.1 hc.2
    · cases h
  | tick now =>
    simp only [step] at h
    split at h
    · rename_i hc
      cases h
      exact .tick hc
    · cases h

end Librarian.Store
