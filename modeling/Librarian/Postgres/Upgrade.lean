import Librarian.Postgres.Migrations

/-! # What the migrations make of a database

Starts of this and of earlier releases, failed ones among them, leave a catalog that the next
start completes. Because the statements look at names only, the result is the schema of the
migrations exactly when nothing else bore one of its names before.
-/
namespace Librarian.Postgres
open Foundation

/-- What a statement makes is there. -/
def Done : Ddl → Catalog → Prop
  | .createTable name _, c => (c name).isSome
  | .createIndex name i, c =>
    (c name).isSome ∧ ∃ t, c.table i.table = some t ∧ i.keys.columns.all t.hasColumn
  | .addColumn name column, c => ∃ t, c.table name = some t ∧ t.hasColumn column.name

/-- All a statement can do. -/
inductive Executes (c : Catalog) : Ddl → Catalog → Prop
  | skip {s : Ddl} (h : Done s c) : Executes c s c
  | table {name : String} {t : Table} (h : c name = none) :
      Executes c (.createTable name t) (c.set name (.table t))
  | index {name : String} {i : Index} {t : Table} (ht : c.table i.table = some t)
      (hkeys : i.keys.columns.all t.hasColumn) (h : c name = none) :
      Executes c (.createIndex name i) (c.set name (.index i))
  | column {name : String} {column : Column} {t : Table} (ht : c.table name = some t)
      (h : t.hasColumn column.name = false) :
      Executes c (.addColumn name column) (c.set name (.table (t.add column)))

section Statements
variable {c c' : Catalog} {s : Ddl} {name other : String} {t : Table} {column : Column}

theorem Catalog.table_eq_some : c.table name = some t ↔ c name = some (.table t) := by
  cases h : c name with
  | none => simp [Catalog.table, h]
  | some r => cases r <;> simp [Catalog.table, h]

theorem Catalog.set_self (r : Relation) : c.set name r name = some r := Function.update_self _ _ _

theorem Catalog.isSome_set (r : Relation) : (c.set name r name).isSome := by
  rw [set_self]
  rfl

theorem Catalog.set_other (r : Relation) (h : other ≠ name) : c.set name r other = c other :=
  Function.update_of_ne h _ _

theorem Table.hasColumn_add (h : t.hasColumn name) : (t.add column).hasColumn name := by
  simp only [hasColumn, typeOf, add, List.find?_append] at h ⊢
  cases hfind : t.columns.find? fun c => c.name = name with
  | none =>
    rw [hfind] at h
    cases h
  | some x => simp

theorem Table.hasColumn_added (t : Table) (column : Column) :
    (t.add column).hasColumn column.name := by
  simp only [hasColumn, typeOf, add, List.find?_append]
  cases t.columns.find? fun c => c.name = column.name <;> simp

theorem exec_executes (h : c.exec s = some c') : Executes c s c' := by
  cases s with
  | createTable name t =>
    simp only [Catalog.exec] at h
    split at h
    · rename_i hsome
      cases h
      exact .skip hsome
    · rename_i hnone
      split at h
      · cases h
        exact .table (by simpa using hnone)
      · cases h
  | createIndex name i =>
    simp only [Catalog.exec] at h
    split at h
    · rename_i t ht
      split at h
      · cases h
      · rename_i hkeys
        split at h
        · rename_i hsome
          cases h
          exact .skip ⟨hsome, t, ht, by simpa using hkeys⟩
        · rename_i hnone
          cases h
          exact .index ht (by simpa using hkeys) (by simpa using hnone)
    · cases h
  | addColumn name column =>
    simp only [Catalog.exec] at h
    split at h
    · rename_i t ht
      split at h
      · rename_i hcolumn
        cases h
        exact .skip ⟨t, ht, hcolumn⟩
      · rename_i hcolumn
        split at h
        · cases h
        · cases h
          exact .column ht (by simpa using hcolumn)
    · cases h

theorem exec_done (h : Done s c) : c.exec s = some c := by
  cases s with
  | createTable name t => exact if_pos h
  | createIndex name i =>
    rcases h with ⟨hsome, t, ht, hkeys⟩
    simp only [Catalog.exec, ht, hkeys, hsome, not_true_eq_false, if_false, if_true]
  | addColumn name column =>
    rcases h with ⟨t, ht, hcolumn⟩
    simp only [Catalog.exec, ht, hcolumn, if_true]

/-- Relations stay, and tables keep their columns. -/
theorem Executes.stays (h : Executes c s c') (hsome : (c name).isSome) : (c' name).isSome := by
  have hset : ∀ name' r, ((c.set name' r) name).isSome := by
    intro name' r
    by_cases hname : name = name'
    · rw [hname]
      exact Catalog.isSome_set r
    · rwa [Catalog.set_other r hname]
  cases h with
  | skip => exact hsome
  | _ => exact hset _ _

theorem Executes.columns (h : Executes c s c') (ht : c.table name = some t) :
    ∃ t', c'.table name = some t' ∧ ∀ column, t.hasColumn column → t'.hasColumn column := by
  have hfresh : ∀ other r, c other = none → (c.set other r).table name = some t := by
    intro other r hnone
    have hne : name ≠ other := by
      rintro rfl
      rw [Catalog.table_eq_some, hnone] at ht
      cases ht
    rw [Catalog.table_eq_some, Catalog.set_other r hne]
    exact Catalog.table_eq_some.mp ht
  cases h with
  | skip => exact ⟨t, ht, fun _ h => h⟩
  | table hnone => exact ⟨t, hfresh _ _ hnone, fun _ h => h⟩
  | index _ _ hnone => exact ⟨t, hfresh _ _ hnone, fun _ h => h⟩
  | @column other column t' ht' =>
    by_cases hne : name = other
    · subst hne
      rw [ht] at ht'
      cases ht'
      exact ⟨t.add column, Catalog.table_eq_some.mpr (Catalog.set_self _),
        fun _ h => Table.hasColumn_add h⟩
    · refine ⟨t, ?_, fun _ h => h⟩
      rw [Catalog.table_eq_some, Catalog.set_other _ hne]
      exact Catalog.table_eq_some.mp ht

theorem Executes.done (h : Executes c s c') : Done s c' := by
  cases h with
  | skip h => exact h
  | table => exact Catalog.isSome_set _
  | @index name i t ht hkeys hnone =>
    refine ⟨Catalog.isSome_set _, t, ?_, hkeys⟩
    have hne : i.table ≠ name := by
      rintro heq
      rw [Catalog.table_eq_some, heq, hnone] at ht
      cases ht
    rw [Catalog.table_eq_some, Catalog.set_other _ hne]
    exact Catalog.table_eq_some.mp ht
  | @column name column t =>
    exact ⟨_, Catalog.table_eq_some.mpr (Catalog.set_self _), t.hasColumn_added column⟩

theorem Executes.keep (h : Executes c s c') {x : Ddl} (hx : Done x c) : Done x c' := by
  cases x with
  | createTable name t => exact h.stays hx
  | createIndex name i =>
    rcases hx with ⟨hsome, t, ht, hkeys⟩
    rcases h.columns ht with ⟨t', ht', hcolumns⟩
    refine ⟨h.stays hsome, t', ht', ?_⟩
    rw [List.all_eq_true] at hkeys ⊢
    exact fun column hmem => hcolumns column (hkeys column hmem)
  | addColumn name column =>
    rcases hx with ⟨t, ht, hcolumn⟩
    rcases h.columns ht with ⟨t', ht', hcolumns⟩
    exact ⟨t', ht', hcolumns _ hcolumn⟩

theorem guarded : Guarded Catalog.exec Done where
  after h := (exec_executes h).done
  skip h := exec_done h
  keep hx h := (exec_executes h).keep hx

end Statements

/-- The tables and indexes as the migrations declare them. -/
def schema : List (String × Relation) :=
  [("documents", .table documents), ("document_versions", .table (documentVersions.add searchVector)),
    ("document_versions_latest_idx", .index documentVersionsLatestIdx),
    ("put_operations", .table putOperations),
    ("document_versions_search_idx", .index documentVersionsSearchIdx)]

def Conforms (c : Catalog) : Prop := ∀ p ∈ schema, c p.1 = some p.2

/-- No name is taken by anything else, but for the versions without their search column. -/
def Compatible (c : Catalog) : Prop :=
  ∀ p ∈ schema, c p.1 = none ∨ c p.1 = some p.2 ∨
    p.1 = "document_versions" ∧ c p.1 = some (.table documentVersions)

section Exactness
variable {c c' : Catalog} {name : String} {t : Table} {r : Relation}

theorem Table.add_inj {t' : Table} {column : Column} (h : t.add column = t'.add column) : t = t' := by
  rcases t with ⟨columns, checks, primaryKey, foreignKeys⟩
  rcases t' with ⟨columns', checks', primaryKey', foreignKeys'⟩
  simpa [Table.add] using h

/-- A run of the migrations changes no relation that was there, but for the search column. -/
theorem relation_of_run {xs : List Ddl}
    (hxs : ∀ n column, .addColumn n column ∈ xs → n = "document_versions" ∧ column = searchVector)
    (hr : System.run Catalog.exec c xs = some c') (h : c name = some r) :
    c' name = some r ∨ ∃ t, r = .table t ∧ t.hasColumn searchVector.name = false ∧
      name = "document_versions" ∧ c' name = some (.table (t.add searchVector)) := by
  induction xs generalizing c r with
  | nil =>
    cases hr
    exact .inl h
  | cons s xs ih =>
    rw [System.run_cons] at hr
    rcases Option.bind_eq_some_iff.mp hr with ⟨c₁, hs, hrest⟩
    have hlater := fun n column hmem => hxs n column (List.mem_cons_of_mem s hmem)
    have hother : ∀ n r', c n = none → (c.set n r') name = some r := by
      intro n r' hnone
      have hne : name ≠ n := by
        rintro rfl
        rw [hnone] at h
        cases h
      rwa [Catalog.set_other r' hne]
    cases exec_executes hs with
    | skip => exact ih hlater hrest h
    | table hnone => exact ih hlater hrest (hother _ _ hnone)
    | index _ _ hnone => exact ih hlater hrest (hother _ _ hnone)
    | @column n column t ht hmissing =>
      rcases hxs n column List.mem_cons_self with ⟨rfl, rfl⟩
      by_cases hne : name = "document_versions"
      · subst hne
        rw [Catalog.table_eq_some, h] at ht
        cases ht
        rcases ih hlater hrest (Catalog.set_self _) with hsame | ⟨t', heq, hmissing', -⟩
        · exact .inr ⟨t, rfl, hmissing, rfl, hsame⟩
        · cases heq
          rw [t.hasColumn_added searchVector] at hmissing'
          cases hmissing'
      · exact ih hlater hrest (by rwa [Catalog.set_other _ hne])

theorem compatible_of_migrate (hr : c.migrate = some c') (h : Conforms c') : Compatible c := by
  intro p hp
  cases hc : c p.1 with
  | none => exact .inl rfl
  | some r =>
    have hxs : ∀ n column, .addColumn n column ∈ migrations →
        n = "document_versions" ∧ column = searchVector := by
      simp [migrations, documentsSql, searchSqlMigration]
    have hconforms := h p hp
    rcases relation_of_run hxs hr hc with hsame | ⟨t, rfl, -, hname, hadded⟩
    · rw [hconforms] at hsame
      exact .inr (.inl hsame.symm)
    · refine .inr (.inr ⟨hname, ?_⟩)
      have hversions := h ("document_versions", _) (List.mem_cons_of_mem _ List.mem_cons_self)
      rw [hname, hversions] at hadded
      have htable := Option.some.inj hadded
      rw [Relation.table.injEq] at htable
      rw [Table.add_inj htable]

theorem admits_of {key : ForeignKey} {parent : Table} (hc : c key.table = some (.table parent))
    (h : parent.primaryKey = key.referenced ∧ key.columns.all t.hasColumn ∧
      key.columns.map t.typeOf = key.referenced.map parent.typeOf) : c.admits t key = true := by
  rw [← Catalog.table_eq_some] at hc
  simpa [Catalog.admits, hc] using h

/-- `c'` is `c` but for one relation. -/
structure Sets (c : Catalog) (name : String) (r : Relation) (c' : Catalog) : Prop where
  self : c' name = some r
  other : ∀ n, n ≠ name → c' n = c n

theorem sets_set (c : Catalog) (name : String) (r : Relation) : Sets c name r (c.set name r) :=
  ⟨Catalog.set_self r, fun _ hn => Catalog.set_other r hn⟩

theorem sets_refl (h : c name = some r) : Sets c name r c := ⟨h, fun _ _ => rfl⟩

theorem exec_createTable (hc : c name = none ∨ c name = some (.table t))
    (hkeys : t.foreignKeys.all (c.admits t)) :
    ∃ c', c.exec (.createTable name t) = some c' ∧ Sets c name (.table t) c' := by
  rcases hc with hc | hc
  · refine ⟨c.set name (.table t), ?_, sets_set c name _⟩
    simp [Catalog.exec, hc, hkeys]
  · refine ⟨c, exec_done ?_, sets_refl hc⟩
    rw [Done, hc]
    rfl

theorem exec_createIndex {i : Index} (ht : c i.table = some (.table t))
    (hkeys : i.keys.columns.all t.hasColumn) (hc : c name = none ∨ c name = some (.index i)) :
    ∃ c', c.exec (.createIndex name i) = some c' ∧ Sets c name (.index i) c' := by
  rw [← Catalog.table_eq_some] at ht
  rcases hc with hc | hc
  · refine ⟨c.set name (.index i), ?_, sets_set c name _⟩
    simp [Catalog.exec, ht, hkeys, hc]
  · refine ⟨c, exec_done ⟨?_, t, ht, hkeys⟩, sets_refl hc⟩
    rw [hc]
    rfl

/-- The table of versions may be there with its search column, or will get it. -/
theorem exec_createVersions (hdocuments : c "documents" = some (.table documents))
    (hc : c "document_versions" = none ∨
      c "document_versions" = some (.table (documentVersions.add searchVector)) ∨
      c "document_versions" = some (.table documentVersions)) :
    ∃ t c', (t = documentVersions ∨ t = documentVersions.add searchVector) ∧
      c.exec (.createTable "document_versions" documentVersions) = some c' ∧
      Sets c "document_versions" (.table t) c' := by
  have hkeys : documentVersions.foreignKeys.all (c.admits documentVersions) := by
    rw [List.all_eq_true]
    intro key hkey
    rw [List.mem_singleton.mp hkey]
    exact admits_of hdocuments (by decide)
  rcases hc with hc | hc | hc
  · rcases exec_createTable (.inl hc) hkeys with ⟨c', hs, hset⟩
    exact ⟨_, c', .inl rfl, hs, hset⟩
  · refine ⟨_, c, .inr rfl, exec_done ?_, sets_refl hc⟩
    rw [Done, hc]
    rfl
  · rcases exec_createTable (.inr hc) hkeys with ⟨c', hs, hset⟩
    exact ⟨_, c', .inl rfl, hs, hset⟩

theorem exec_addSearchVector (hc : c "document_versions" = some (.table t))
    (ht : t = documentVersions ∨ t = documentVersions.add searchVector) :
    ∃ c', c.exec (.addColumn "document_versions" searchVector) = some c' ∧
      Sets c "document_versions" (.table (documentVersions.add searchVector)) c' := by
  have htable := Catalog.table_eq_some.mpr hc
  rcases ht with rfl | rfl
  · refine ⟨c.set "document_versions" (.table (documentVersions.add searchVector)), ?_,
      sets_set c _ _⟩
    simp only [Catalog.exec, htable]
    rw [if_neg (by decide), if_neg (by decide)]
  · exact ⟨c, exec_done ⟨_, htable, by decide⟩, sets_refl hc⟩

theorem migrate_of_compatible (h : Compatible c) : ∃ c', c.migrate = some c' ∧ Conforms c' := by
  simp only [Compatible, schema, List.forall_mem_cons, List.not_mem_nil, false_imp_iff, implies_true,
    and_true, String.reduceEq, false_and, or_false, true_and] at h
  rcases h with ⟨h1, h2, h3, h4, h5⟩
  -- each statement finds what it needs and leaves the relations of the others
  rcases exec_createTable h1 (t := documents) rfl with ⟨c1, hs1, hset1⟩
  rw [← hset1.other _ (by decide)] at h2 h3 h4 h5
  rcases exec_createVersions hset1.self h2 with ⟨t, c2, ht, hs2, hset2⟩
  rw [← hset2.other _ (by decide)] at h3 h4 h5
  have hlatest : documentVersionsLatestIdx.keys.columns.all t.hasColumn := by
    rcases ht with rfl | rfl <;> decide
  rcases exec_createIndex hset2.self hlatest h3 with ⟨c3, hs3, hset3⟩
  rw [← hset3.other _ (by decide)] at h4 h5
  have hversions : c3 "document_versions" = some (.table t) :=
    (hset3.other _ (by decide)).trans hset2.self
  have hdocuments : c3 "documents" = some (.table documents) :=
    (hset3.other _ (by decide)).trans ((hset2.other _ (by decide)).trans hset1.self)
  have hkeys : putOperations.foreignKeys.all (c3.admits putOperations) := by
    rw [List.all_eq_true]
    intro key hkey
    simp only [putOperations, List.mem_cons, List.not_mem_nil, or_false] at hkey
    rcases hkey with rfl | rfl
    · exact admits_of hdocuments (by decide)
    · exact admits_of hversions (by rcases ht with rfl | rfl <;> decide)
  rcases exec_createTable h4 hkeys with ⟨c4, hs4, hset4⟩
  rw [← hset4.other _ (by decide)] at h5
  rcases exec_addSearchVector ((hset4.other _ (by decide)).trans hversions) ht with
    ⟨c5, hs5, hset5⟩
  rw [← hset5.other _ (by decide)] at h5
  rcases exec_createIndex hset5.self (i := documentVersionsSearchIdx) (by decide) h5 with
    ⟨c6, hs6, hset6⟩
  have hrun : c.migrate = some c6 := by
    simp only [Catalog.migrate, migrations, documentsSql, searchSqlMigration, List.cons_append,
      List.nil_append, System.run_cons, hs1, hs2, hs3, hs4, hs5, hs6, Option.bind_some]
    rfl
  refine ⟨c6, hrun, ?_⟩
  simp only [Conforms, schema, List.forall_mem_cons, List.not_mem_nil, false_imp_iff, implies_true,
    and_true]
  refine ⟨?_, (hset6.other _ (by decide)).trans hset5.self, ?_, ?_, hset6.self⟩
  · rw [hset6.other _ (by decide), hset5.other _ (by decide), hset4.other _ (by decide)]
    exact hdocuments
  · rw [hset6.other _ (by decide), hset5.other _ (by decide), hset4.other _ (by decide)]
    exact hset3.self
  · rw [hset6.other _ (by decide), hset5.other _ (by decide)]
    exact hset4.self

/-- A start of a release that ran the first statements only, and whether it succeeded. A batch that
fails is rolled back. -/
def afterStart (c : Catalog) (start : ℕ × Bool) : Catalog :=
  if start.2 then (System.run Catalog.exec c (migrations.take start.1)).getD c else c

def afterStarts (c : Catalog) (starts : List (ℕ × Bool)) : Catalog := starts.foldl afterStart c

theorem migrate_afterStart (c : Catalog) (start : ℕ × Bool) :
    (afterStart c start).migrate = c.migrate := by
  rw [afterStart]
  split
  · cases hrun : System.run Catalog.exec c (migrations.take start.1) with
    | none => rfl
    | some c₁ =>
      rw [Option.getD_some, Catalog.migrate, Catalog.migrate,
        ← List.take_append_drop start.1 migrations]
      exact guarded.run_append hrun
  · rfl

theorem migrate_afterStarts (c : Catalog) (starts : List (ℕ × Bool)) :
    (afterStarts c starts).migrate = c.migrate := by
  induction starts generalizing c with
  | nil => rfl
  | cons start starts ih => exact (ih _).trans (migrate_afterStart c start)

/-- What the next start makes of a catalog. -/
structure Upgrades (c : Catalog) (starts : List (ℕ × Bool)) : Prop where
  exact : (∃ c', (afterStarts c starts).migrate = some c' ∧ Conforms c') ↔ Compatible c
  again : ∀ c', (afterStarts c starts).migrate = some c' →
    c.migrate = some c' ∧ c'.migrate = some c'
  others : ∀ c', (afterStarts c starts).migrate = some c' →
    ∀ name ∉ schema.map (·.1), c' name = c name

theorem others_of_run {xs : List Ddl} (hxs : ∀ n, n ∉ schema.map (·.1) → ∀ s ∈ xs,
      (∀ t, s ≠ .createTable n t) ∧ (∀ i, s ≠ .createIndex n i) ∧ ∀ column, s ≠ .addColumn n column)
    (hr : System.run Catalog.exec c xs = some c') (hname : name ∉ schema.map (·.1)) :
    c' name = c name := by
  induction xs generalizing c with
  | nil =>
    cases hr
    rfl
  | cons s xs ih =>
    rw [System.run_cons] at hr
    rcases Option.bind_eq_some_iff.mp hr with ⟨c₁, hs, hrest⟩
    have hfirst := hxs name hname s List.mem_cons_self
    refine (ih (fun n hn s hs => hxs n hn s (List.mem_cons_of_mem _ hs)) hrest).trans ?_
    cases exec_executes hs with
    | skip => rfl
    | table => exact Catalog.set_other _ fun heq => hfirst.1 _ (by rw [heq])
    | index => exact Catalog.set_other _ fun heq => hfirst.2.1 _ (by rw [heq])
    | column => exact Catalog.set_other _ fun heq => hfirst.2.2 _ (by rw [heq])

theorem upgrades (c : Catalog) (starts : List (ℕ × Bool)) : Upgrades c starts := by
  constructor
  · rw [migrate_afterStarts]
    constructor
    · rintro ⟨c', hr, h⟩
      exact compatible_of_migrate hr h
    · exact migrate_of_compatible
  · intro c' hr
    rw [migrate_afterStarts] at hr
    exact ⟨hr, guarded.run_again hr⟩
  · intro c' hr name hname
    rw [migrate_afterStarts] at hr
    refine others_of_run ?_ hr hname
    intro n hn s hs
    simp only [schema, List.map_cons, List.map_nil, List.mem_cons, List.not_mem_nil, not_or] at hn
    simp only [migrations, documentsSql, searchSqlMigration, List.cons_append, List.nil_append,
      List.mem_cons, List.not_mem_nil, or_false] at hs
    rcases hs with rfl | rfl | rfl | rfl | rfl | rfl <;>
      simp [Ne.symm hn.1, Ne.symm hn.2.1, Ne.symm hn.2.2.1, Ne.symm hn.2.2.2.1,
        Ne.symm hn.2.2.2.2.1]

end Exactness
end Librarian.Postgres
