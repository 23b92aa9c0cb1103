import Librarian.Postgres.Constraints
import Librarian.Postgres.Upgrade
import Librarian.Store.Invariant

/-! # The store keeps the schema

The committed rows meet every constraint that the migrations declare. A number that a put stores
is the one that `NEXT_VERSION_SQL` answered, so it has the range of its column, and a version is
refused only where its table does not accept it.
-/
namespace Librarian.Store
open Foundation Postgres PostgresDocumentRepository Program System

section Programs

/-- A version fits its column. -/
def InRange : Effect → Prop
  | .sql (.insertVersion _ v _ _) => v ≤ i64Max
  | _ => True

/-- `NEXT_VERSION_SQL` answers a `bigint` or fails. -/
def Fitting : (e : Effect) → e.Ans → Prop
  | .sql (.nextVersion _), .ok v => (show ℤ from v) ≤ i64Max
  | _, _ => True

def versionRange : Protocol Effect Effect.Ans Unit where
  rely _ _ := True
  rely_refl _ := trivial
  rely_trans _ _ := trivial
  pre _ e := InRange e
  post _ e ans _ := Fitting e ans

/-- All versions that the part inserts fit, and so does what it returns. -/
def Ranged {α : Type} (Q : α → Prop) (p : Repo α) : Prop :=
  p.run.Safe versionRange (fun _ res => ∀ a, res = .ok a → Q a) ()

variable {α β : Type} {Q : α → Prop} {R : β → Prop}

theorem Ranged.bind {p : Repo α} {f : α → Repo β} (hp : Ranged Q p) (hf : ∀ a, Q a → Ranged R (f a)) :
    Ranged R (p >>= f) := by
  apply Safe.bindExcept hp
  · exact fun _ a ha => hf a (ha a rfl)
  · intro _ e _
    apply Safe.ret
    intro _ _ b hb
    cases hb

theorem Ranged.mono {Q' : α → Prop} {p : Repo α} (hp : Ranged Q p) (h : ∀ a, Q a → Q' a) :
    Ranged Q' p := Safe.mono hp fun _ _ hres a ha => h a (hres a ha)

theorem ranged_pure {a : α} (h : Q a) : Ranged Q (pure a) := by
  apply Safe.ret
  intro _ _ b hb
  cases hb
  exact h

theorem ranged_throw (e : DocumentError) : Ranged Q (throw e) := by
  apply Safe.ret
  intro _ _ b hb
  cases hb

theorem ranged_query (s : Stmt) (hs : InRange (.sql s)) :
    Ranged (fun a => Fitting (.sql s) (.ok a)) (query s) := by
  apply Safe.call
  refine fun _ _ => ⟨hs, fun ans _ hans => Safe.ret ?_⟩
  intro _ _ a ha
  cases ans with
  | ok b =>
    cases ha
    exact hans
  | error e => cases ha

theorem ranged_newUuid : Ranged (fun _ => True) newUuid := by
  apply Safe.call
  exact fun _ _ => ⟨trivial, fun _ _ _ => Safe.ret fun _ _ _ _ => trivial⟩

theorem ranged_target (d : Option Uuid) : Ranged (fun key => key.2 ≤ i64Max) (target d) := by
  cases d with
  | none =>
    apply ranged_newUuid.bind
    intro u _
    apply (ranged_query (.insertDocument u) trivial).bind
    intro _ _
    apply ranged_pure
    change (1 : ℤ) ≤ i64Max
    decide
  | some d =>
    apply (ranged_query (.lockDocument d) trivial).bind
    intro found _
    cases found with
    | true =>
      apply (ranged_query (.nextVersion d) trivial).bind
      exact fun v hv => ranged_pure hv
    | false => exact ranged_throw _

theorem ranged_insertPutOperationSql (r d : Uuid) (v : ℤ) :
    Ranged (fun _ => True) (insertPutOperationSql r d v) := by
  apply (ranged_query (.insertPutOperation r d v) trivial).bind
  intro inserted _
  split
  · exact ranged_pure trivial
  · apply (ranged_query (.keyShare (.document d)) trivial).bind
    intro _ _
    apply (ranged_query (.keyShare (.version d v)) trivial).bind
    exact fun _ _ => ranged_pure trivial

theorem ranged_reportWinner (r : Uuid) : Ranged (fun _ => True) (reportWinner r) := by
  apply (ranged_query .rollback trivial).bind
  intro _ _
  apply (ranged_query (.findPutOperation r) trivial).bind
  intro row _
  cases row with
  | none => exact ranged_throw _
  | some key => exact ranged_pure trivial

variable [Sha256]

theorem ranged_write (r : Uuid) (document : PutDocument) :
    Ranged (fun _ => True) (write r document) := by
  apply (ranged_query .transaction trivial).bind
  intro _ _
  apply (ranged_target document.documentId).bind
  rintro ⟨d, v⟩ hv
  have hversion : Ranged (fun _ => True) (insertVersionSql d v document) := by
    apply (ranged_query (.insertVersion d v document document.contentDigest.toList) hv).bind
    exact fun _ _ => (ranged_query (.keyShare (.document d)) trivial).mono fun _ _ => trivial
  apply hversion.bind
  intro _ _
  apply (ranged_insertPutOperationSql r d v).bind
  intro inserted _
  split
  · exact ranged_reportWinner r
  · apply (ranged_query .commit trivial).bind
    exact fun _ _ => ranged_pure trivial

theorem ranged_put (r : Uuid) (document : PutDocument) : Ranged (fun _ => True) (put r document) := by
  unfold put
  split
  · exact ranged_throw _
  · split
    · exact ranged_throw _
    · apply (ranged_query .connection trivial).bind
      intro _ _
      apply (ranged_query (.findPutOperation r) trivial).bind
      intro row _
      cases row with
      | none => exact ranged_write r document
      | some key => exact ranged_pure trivial

/-- What a call has still to do keeps to the range. -/
def StaysInRange (p : Program Effect Effect.Ans RepositoryResult) : Prop :=
  p.Safe versionRange (fun _ _ => True) ()

omit [Sha256] in
theorem Ranged.program {p : Repo α} {Q : α → Prop} {result : Except DocumentError α → RepositoryResult}
    (h : Ranged Q p) : StaysInRange (p.run.bind fun res => .ret (result res)) :=
  Safe.bind h fun _ _ _ => Safe.ret fun _ _ => trivial

theorem staysInRange_program (op : RepositoryCall) : StaysInRange (program op) := by
  cases op with
  | put r document => exact (ranged_put r document).program
  | get d v =>
    refine Ranged.program (Q := fun _ => True) ?_
    apply (ranged_query .connection trivial).bind
    intro _ _
    apply Ranged.bind (Q := fun _ => True)
    · cases v with
      | some v => exact (ranged_query (.findVersion d v) trivial).mono fun _ _ => trivial
      | none => exact (ranged_query (.findLatestVersion d) trivial).mono fun _ _ => trivial
    · intro row _
      cases row with
      | some row => exact Safe.ret fun _ _ _ _ => trivial
      | none => exact ranged_throw _
  | search q limit =>
    refine Ranged.program (Q := fun _ => True) ?_
    apply (ranged_query .connection trivial).bind
    exact fun _ _ => (ranged_query (.search q limit) trivial).mono fun _ _ => trivial

end Programs

section Steps
variable [Sha256] [TextSearch] {s s' : State} {a : Action} {c : Call} {op : RepositoryCall}
  {e : Effect} {next : e.Ans → Program Effect Effect.Ans RepositoryResult} {db db' : Database}

omit [Sha256] in
theorem exec_fitting {plan : Plan} {stmt : Stmt} {row : stmt.Row}
    (hx : db.exec c plan stmt = .row row db') : Fitting (.sql stmt) (.ok row) := by
  cases stmt with
  | nextVersion d =>
    rcases Database.inTransaction_eq_row.mp hx with ⟨-, -, ho⟩
    split at ho
    · rename_i hle
      cases ho
      exact hle
    · cases ho
  | _ => trivial

/-- A call that goes on was given an answer that fits. -/
theorem goesOn_fitting (hs : step s a = some s') (ha : a.actor = some c)
    (hc : s.client c = .running op (.call e next)) (hr : (s'.client c).isRunning = true) :
    ∃ ans, Fitting e ans ∧ s'.client c = .running op (next ans) := by
  cases a with
  | invoke x op' =>
    cases ha
    simp [step, hc] at hs
  | newUuid x u =>
    cases ha
    cases e with
    | sql stmt => simp [step, hc] at hs
    | newUuid =>
      simp only [step, hc, Option.some.injEq] at hs
      exact ⟨u, trivial, hs ▸ set_client_self⟩
  | exec x plan =>
    cases ha
    cases e with
    | newUuid => simp [step, hc] at hs
    | sql stmt =>
      simp only [step, hc] at hs
      split at hs
      · cases hs
      · cases hs
        exact ⟨.error .error, by cases stmt <;> trivial, set_client_self⟩
      · rename_i hx
        cases hs
        exact ⟨.ok _, exec_fitting hx, set_client_self⟩
  | fail x =>
    cases ha
    cases e with
    | newUuid => simp [step, hc] at hs
    | sql stmt =>
      simp only [step, hc, Option.some.injEq] at hs
      exact ⟨.error .error, by cases stmt <;> trivial, hs ▸ set_client_self⟩
  | lose x plan =>
    cases ha
    cases e with
    | newUuid => simp [step, hc] at hs
    | sql stmt =>
      simp only [step, hc] at hs
      split at hs
      · cases hs
        exact ⟨.error .error, by cases stmt <;> trivial, set_client_self⟩
      · cases hs
  | doubt x =>
    cases ha
    simp only [step, hc] at hs
    split at hs
    · rename_i hrun
      cases hrun
      cases hs
      exact ⟨.error .error, trivial, set_client_self⟩
    · cases hs
  | finish x rolledBack =>
    cases ha
    simp [step, hc] at hs
  | crash x =>
    cases ha
    simp only [step, hc, Option.some.injEq] at hs
    rw [← hs, set_client_self] at hr
    cases hr
  | settle x commit => cases ha
  | tick now => cases ha

/-- The table stores every version, those of open transactions too. -/
structure Bounded (s : State) : Prop where
  running : ∀ c op p, s.client c = .running op p → StaysInRange p
  versions : ∀ t ∈ s.database.documentVersions, t.row.isStorable = true ∧ t.row.version ≤ i64Max

omit [Sha256] in
theorem versions_performs {fault : Bool} {ans : e.Ans} (hp : Performs db c e fault ans db')
    (he : InRange e)
    (h : ∀ t ∈ db.documentVersions, t.row.isStorable = true ∧ t.row.version ≤ i64Max) :
    ∀ t ∈ db'.documentVersions, t.row.isStorable = true ∧ t.row.version ≤ i64Max := by
  have hfail : (db.fail c).documentVersions = db.documentVersions := by
    unfold Database.fail
    split <;> rfl
  have hexecutes : ∀ {stmt : Stmt} {row : stmt.Row}, InRange (.sql stmt) →
      db.Executes c stmt row db' →
      ∀ t ∈ db'.documentVersions, t.row.isStorable = true ∧ t.row.version ≤ i64Max := by
    intro stmt row hrange hx
    cases hx with
    | insertVersion _ hstorable =>
      intro t ht
      rcases List.mem_append.mp ht with hold | hnew
      · exact h t hold
      · rw [List.mem_singleton.mp hnew]
        exact ⟨hstorable, hrange⟩
    | _ => exact h
  cases hp with
  | newUuid => exact h
  | row hx => exact hexecutes he hx
  | lost hx => exact hexecutes he hx
  | refused => rwa [hfail]
  | failed => rwa [hfail]
  | doubted =>
    unfold sendCommit
    split <;> exact h

theorem Bounded.step (h : Bounded s) (hs : Store.step s a = some s') : Bounded s' := by
  have hset : ∀ {x : Call} {db : Database} {client : Client},
      (∀ t ∈ db.documentVersions, t.row.isStorable = true ∧ t.row.version ≤ i64Max) →
      (∀ op p, client = .running op p → StaysInRange p) → Bounded (s.set db x client) := by
    intro x db client hversions hown
    refine ⟨fun c op p hc => ?_, hversions⟩
    by_cases hx : c = x
    · subst hx
      rw [set_client_self] at hc
      exact hown op p hc
    · rw [set_client_other hx] at hc
      exact h.running c op p hc
  cases step_moves hs with
  | @invoke c op hc =>
    apply hset h.versions
    intro op' p hrun
    cases hrun
    exact staysInRange_program op
  | @perform _ x op' e' next' ans db ha hc hp =>
    have hsafe := (h.running x op' _ hc).of_call
    apply hset (versions_performs hp hsafe.1 h.versions)
    -- the answer that the call goes on with is one that fits
    rcases goesOn_fitting hs ha hc (by rw [set_client_self]; rfl) with ⟨ans', hans, heq⟩
    intro op p hrun
    rw [set_client_self, hrun] at heq
    cases heq
    exact hsafe.2 ans' () hans
  | finish rolledBack =>
    refine hset ?_ fun op p hrun => (by cases hrun)
    rcases returned_cases s.database _ rolledBack with hr | ⟨-, hr⟩ <;> rw [hr] <;> exact h.versions
  | crash => exact hset h.versions fun op p hrun => (by cases hrun)
  | settleCommit => exact ⟨h.running, h.versions⟩
  | settleAbort => exact ⟨h.running, h.versions⟩
  | tick => exact ⟨h.running, h.versions⟩

theorem bounded_of_reachable (h : system.Reachable s) : Bounded s := by
  apply h.invariant
  · rintro s ⟨clock, rfl⟩
    exact ⟨fun c op p hc => (by cases hc), by simp [State.initial, Database.empty]⟩
  · exact fun s a s' _ hbounded hs => hbounded.step hs

/-- The rows of every table meet its constraints, and a transaction is refused a version exactly
where it would not. -/
structure MeetsSchema (s : State) : Prop where
  valid : ∀ name t, (name, .table t) ∈ schema → t.Valid name s.database.records
  refuses : ∀ c op d v document digest next plan,
    s.client c = .running op (.call (.sql (.insertVersion d v document digest)) next) →
    (s.database.exec c plan (.insertVersion d v document digest) = .error ↔
      s.database.status c ≠ .active ∨
        s.database.blockers c (.insertVersion d v document digest) = [] ∧
        ((documentVersions.add searchVector).accepts
            (s.database.newVersion c d v document digest).record = false ∨
          ∃ row ∈ s.database.versionsSeen c, row.key = (d, v)))

omit [Sha256] in
theorem insertVersion_error {d : Uuid} {v : ℤ} {document : PutDocument} {digest : List UInt8}
    {plan : Plan} (hv : v ≤ i64Max) : db.exec c plan (.insertVersion d v document digest) = .error ↔
      db.status c ≠ .active ∨ db.blockers c (.insertVersion d v document digest) = [] ∧
        ((documentVersions.add searchVector).accepts (db.newVersion c d v document digest).record =
            false ∨
          ∃ row ∈ db.versionsSeen c, row.key = (d, v)) := by
  have haccepts : (documentVersions.add searchVector).accepts
      (db.newVersion c d v document digest).record = false ↔
        (db.newVersion c d v document digest).isStorable = false := by
    rw [← Bool.not_eq_true, ← Bool.not_eq_true, documentVersions_accepts]
    simp [Database.newVersion, hv]
  have hsees : (∃ row ∈ db.versionsSeen c, row.key = (d, v)) ↔ db.sees c (.version d v) = true := by
    simp [Database.sees, Heap.present, Database.versionsSeen]
  rw [haccepts, hsees]
  simp only [Database.exec, Database.inTransaction]
  split
  · rename_i hactive
    simp [hactive]
  · rename_i hactive
    split
    · rename_i hblocked
      simp [hactive, hblocked]
    · rename_i hfree
      have hfree : db.blockers c (.insertVersion d v document digest) = [] := not_not.mp hfree
      rw [hfree]
      cases (db.newVersion c d v document digest).isStorable <;> simp [hactive]

theorem meetsSchema_of_reachable (h : system.Reachable s) : MeetsSchema s := by
  have hconsistent := consistent_of_reachable h
  have hbounded := bounded_of_reachable h
  have hversions : ∀ row ∈ s.database.committedVersions,
      row.isStorable = true ∧ row.version ≤ i64Max := by
    intro row hrow
    rcases Heap.mem_committedRows.mp hrow with ⟨t, ht, -, rfl⟩
    exact hbounded.versions t ht
  constructor
  · intro name t ht
    simp only [schema, List.mem_cons, List.not_mem_nil, or_false, Prod.mk.injEq, Relation.table.injEq,
      reduceCtorEq, and_false, false_or] at ht
    rcases ht with ⟨rfl, rfl⟩ | ⟨rfl, rfl⟩ | ⟨rfl, rfl⟩
    · exact valid_documents hconsistent
    · exact valid_versions hconsistent hversions
    · exact valid_putOperations hconsistent fun row hrow => (hversions row hrow).2
  · intro c op d v document digest next plan hc
    exact insertVersion_error (hbounded.running c op _ hc).of_call.1

end Steps

/-- A second version is about to be inserted. -/
theorem meetsSchema_appending :
    @MeetsSchema sampleSearch ((sampleRun (createRun ⟨0, 0⟩ 1 7 "alpha" ++
      (appendRun ⟨1, 0⟩ 2 7 "beta").take 6)).get (by decide +kernel)) :=
  @meetsSchema_of_reachable sampleSha256 sampleSearch _ (reachable_sampleRun _)

end Librarian.Store
