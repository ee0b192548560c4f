import WalFlux.Bootstrap
import WalFlux.ConfigFile.TargetTables

/-! The names of a configuration, and of all SQL made from it, against the language of
identifiers. -/

namespace WalFlux.Sql

/-! ### The identifiers of a statement -/

def TableName.idents (t : TableName) : List Ident := [t.schema, t.name]

def ColumnDef.idents : ColumnDef → List Ident
  | .stored name _ => [name]
  | .generated name total nn _ => [name, total, nn]

def Ddl.idents : Ddl → List Ident
  | .dropTable table => table.idents
  | .createTable table columns => table.idents ++ columns.flatMap ColumnDef.idents
  | .createUniqueIndex table keys => table.idents ++ keys

def SelectExpr.idents : SelectExpr → List Ident
  | .column c => [c]
  | .count c => [c]
  | .coalesceSum c => [c]
  | .constTrue => []
  | .countAll => []

def InsertSelect.idents (q : InsertSelect) : List Ident :=
  q.target.idents ++ q.columns ++ q.exprs.flatMap SelectExpr.idents ++ q.source.idents ++ q.groupBy

def Upsert.idents (u : Upsert) : List Ident := u.target.idents ++ u.columns ++
    u.conflict ++ u.updates

def Dml.idents {F : Type} : Dml F → List Ident
  | .deleteAll table => table.idents
  | .upsert sql _ => sql.idents
  | .deleteEmpty table rows => table.idents ++ [rows]

end WalFlux.Sql

namespace WalFlux.ConfigFile

open Aggregates Sql Python

/-! ### The validators -/

def Identifier (name : String) : Prop := Word name ∧ name.utf8ByteSize ≤ maxIdentBytes

/-- Both validators accept the name if it is an identifier and raise otherwise. -/
structure Validated (name : String) : Prop where
  quoted : (∃ i, quoteIdent name = .ok i) ↔ Identifier name
  quote_raises : ¬ Identifier name → ∃ msg, quoteIdent name = .error (.walflux msg)
  checked : ∀ what, checkIdent (.str name) what = .ok name ↔ Identifier name
  check_raises : ∀ what, ¬ Identifier name → ∃ msg, checkIdent (.str name) what =
    .error (.config msg)

def WordLine (name : String) : Prop :=
  (∃ w, Word w ∧ name = w ++ "\n") ∧ name.utf8ByteSize ≤ maxIdentBytes

theorem quotable_cases {name : String} : Quotable name ↔ Identifier name ∨ WordLine name := by
  rw [quotable_iff, identRe_iff, or_and_right]
  rfl

theorem WordLine.not_identifier {name : String} (h : WordLine name) : ¬ Identifier name := by
  obtain ⟨⟨w, -, rfl⟩, -⟩ := h
  exact fun hident => hident.1.not_endsInNewline (endsInNewline_append w)

theorem identifier_iff {name : String} (h : Quotable name) :
    Identifier name ↔ ¬ EndsInNewline name := by
  obtain ⟨hre, hsize⟩ := quotable_iff.mp h
  rw [Identifier, and_iff_left hsize, word_iff hre]

theorem not_wordLine_iff {name : String} (h : Quotable name) : Identifier name ↔
    ¬ WordLine name := by
  constructor
  · exact fun hident hline => hline.not_identifier hident
  · exact (quotable_cases.mp h).resolve_right

theorem quoteIdent_raises {name : String} (h : ¬ Quotable name) :
    ∃ msg, quoteIdent name = .error (.walflux msg) := by
  rw [quotable_iff] at h
  exact ⟨_, by rw [quoteIdent, dif_neg h]⟩

theorem checkIdent_cases (name what : String) :
    checkIdent (.str name) what = .ok name ∧ Quotable name ∨
      (∃ msg, checkIdent (.str name) what = .error (.config msg)) ∧ ¬ Quotable name := by
  rw [quotable_iff, checkIdent]
  split_ifs with hre hsize
  · exact .inr ⟨⟨_, rfl⟩, fun h => by simp [h.1] at hre⟩
  · exact .inr ⟨⟨_, rfl⟩, fun h => absurd h.2 (not_le.mpr hsize)⟩
  · exact .inl ⟨rfl, Bool.eq_true_of_not_eq_false hre, not_lt.mp hsize⟩

theorem checkIdent_ok_iff {name what : String} :
    checkIdent (.str name) what = .ok name ↔ Quotable name := by
  obtain ⟨hok, hq⟩ | ⟨⟨msg, hraise⟩, hq⟩ := checkIdent_cases name what
  · exact ⟨fun _ => hq, fun _ => hok⟩
  · exact ⟨fun hok => (by cases hok.symm.trans hraise), fun h => absurd h hq⟩

theorem validated_iff {name : String} : Validated name ↔ ¬ WordLine name := by
  constructor
  · intro h hline
    exact hline.not_identifier (h.quoted.mp (quotable_cases.mpr (.inr hline)))
  · intro hline
    have hq : Quotable name ↔ Identifier name := by rw [quotable_cases, or_iff_left hline]
    refine ⟨hq, fun hnot => quoteIdent_raises (hq.not.mpr hnot), fun what => ?_,
      fun what hnot => ?_⟩
    · rw [checkIdent_ok_iff, hq]
    · obtain ⟨-, h⟩ | ⟨hraise, -⟩ := checkIdent_cases name what
      · exact absurd (hq.mp h) hnot
      · exact hraise

theorem sql_injective {i j : Ident} (h : i.sql = j.sql) : i = j := by
  have hlist := congrArg String.toList h
  simp only [Ident.sql, String.toList_append, List.append_left_inj, List.append_right_inj] at hlist
  exact Ident.ext (String.toList_injective hlist)

/-! ### The names of a configuration -/

def aggregateNames (agg : AggSpec) : List String := agg.as :: agg.column.toList

def viewNames (view : ViewSpec) : List String :=
  [view.name, view.sourceSchema, view.sourceTable] ++ view.groupBy ++
    view.aggregates.flatMap aggregateNames

def configNames (config : Config) : List String :=
  [config.slot, config.publication] ++ config.views.flatMap viewNames

def bootstrapNames (config : Config) : List String :=
  [config.slot, config.publication] ++ (Bootstrap.sourceTables config).flatMap fun t => [t.1, t.2]

/-- All names are identifiers, and so is everything that gets into SQL text. -/
structure WellNamed (config : Config) : Prop where
  names : ∀ name ∈ configNames config, Identifier name
  ddl : ∀ view ∈ config.views, ∀ types ddl, targetDdl view types = .ok ddl →
    ∀ i ∈ ddl.flatMap Ddl.idents, Identifier i.name
  backfill : ∀ view ∈ config.views, ∀ q, backfillSql view = .ok q →
    ∀ i ∈ q.idents, Identifier i.name
  batch : ∀ (F : Type) [PyFloat F] (ops : List (Op F)) (b : DeltaBatch F),
    foldOps config.views ops = .ok b → ∀ i ∈ b.statements.flatMap Dml.idents, Identifier i.name
  bootstrap : ∀ name ∈ bootstrapNames config, ∃ i, quoteIdent name = .ok i ∧ Identifier i.name

def statementNames (view : ViewSpec) : List String :=
  [targetSchema, view.name, view.sourceSchema, view.sourceTable] ++ targetNames view ++
    view.aggregates.flatMap aggregateNames

theorem target_idents {view : ViewSpec} {t : TableName} (h : target view = .ok t) :
    ∀ i ∈ t.idents, i.name ∈ statementNames view := by
  obtain ⟨hschema, hname⟩ := Prod.mk.inj (target_key h)
  refine List.forall_mem_cons.mpr ⟨?_, List.forall_mem_singleton.mpr ?_⟩
  · simp [hschema, statementNames]
  · simp [hname, statementNames]

theorem mem_statementNames {view : ViewSpec} {name : String} (h : name ∈ targetNames view) :
    name ∈ statementNames view :=
  List.mem_append_left _ (List.mem_append_right _ h)

theorem quoted_targetNames {view : ViewSpec} {names : List String} {idents : List Ident}
    (h : names.mapM quoteIdent = .ok idents) (hsub : names ⊆ targetNames view) :
    ∀ i ∈ idents, i.name ∈ statementNames view := by
  intro i hi
  refine mem_statementNames (hsub ?_)
  rw [← mapM_quoteIdent h]
  exact List.mem_map_of_mem hi

/-! ### Table definitions -/

theorem plain_idents {names : List String} {defs : List ColumnDef} (h : Plain names defs) :
    ∀ i ∈ defs.flatMap ColumnDef.idents, i.name ∈ names := by
  intro i hi
  obtain ⟨def', hdef, hi⟩ := List.mem_flatMap.mp hi
  obtain ⟨name, hname, i', type, rfl, hi'⟩ := List.Forall₂.exists_of_mem_right h hdef
  cases List.mem_singleton.mp hi
  exact hi' ▸ hname

theorem aggDefs_idents {agg : AggSpec} {defs : List ColumnDef} (h : aggDefs agg = .ok defs) :
    ∀ i ∈ defs.flatMap ColumnDef.idents, i.name ∈ aggNames agg := by
  obtain ⟨stored, hplain, ⟨-, rfl⟩ | ⟨hfn, name, total, nn, hname, htotal, hnn, rfl⟩⟩ :=
    aggDefs_ok h
  · exact fun i hi => List.mem_append_left _ (plain_idents hplain i hi)
  · rw [List.flatMap_append]
    refine List.forall_mem_append.mpr ⟨fun i hi => List.mem_append_left _
      (plain_idents hplain i hi), ?_⟩
    simp [ColumnDef.idents, mem_aggNames, hfn, hname, htotal, hnn]

theorem keyColumns_subset (view : ViewSpec) : keyColumns view ⊆ targetNames view :=
  List.subset_append_left _ _

theorem targetDdl_idents {view : ViewSpec} {types : Dict String String} {ddl : List Ddl}
    (h : targetDdl view types = .ok ddl) :
    ∀ i ∈ ddl.flatMap Ddl.idents, i.name ∈ statementNames view := by
  obtain ⟨table, htable, h⟩ := Except.bind_eq_ok.mp h
  obtain ⟨keys, hkeys, h⟩ := Except.bind_eq_ok.mp h
  obtain ⟨rows, hrows, h⟩ := Except.bind_eq_ok.mp h
  obtain ⟨aggs, haggs, h⟩ := Except.bind_eq_ok.mp h
  obtain ⟨index, hindex, h⟩ := Except.bind_eq_ok.mp h
  cases Except.pure_eq_ok.mp h
  have htable := target_idents htable
  have hcolumns : ∀ i ∈ (keys ++ .stored rows .bigint :: aggs.flatten).flatMap ColumnDef.idents,
      i.name ∈ targetNames view := by
    rw [List.flatMap_append, List.flatMap_cons]
    refine List.forall_mem_append.mpr ⟨fun i hi => List.mem_append_left _
      (plain_idents (keyDefs_plain hkeys) i hi),
      List.forall_mem_append.mpr ⟨List.forall_mem_singleton.mpr ?_, fun i hi => ?_⟩⟩
    · rw [quoteIdent_ok hrows]
      exact List.mem_append_right _ List.mem_cons_self
    · obtain ⟨def', hdef, hi⟩ := List.mem_flatMap.mp hi
      obtain ⟨defs, hdefs, hdef⟩ := List.mem_flatten.mp hdef
      obtain ⟨agg, hagg, hok⟩ := (Except.mapM_eq_ok.mp haggs).exists_of_mem_right hdefs
      refine List.mem_append_right _ (List.mem_cons_of_mem _ (List.mem_flatMap.mpr ⟨agg, hagg, ?_⟩))
      exact aggDefs_idents hok i (List.mem_flatMap.mpr ⟨def', hdef, hi⟩)
  simp only [List.flatMap_cons, List.flatMap_nil, List.append_nil, Ddl.idents,
    List.forall_mem_append]
  exact ⟨htable, ⟨htable, fun i hi => mem_statementNames (hcolumns i hi)⟩, htable,
    quoted_targetNames hindex (keyColumns_subset view)⟩

/-! ### The backfill and the batches -/

theorem groupBy_subset (view : ViewSpec) : view.groupBy ⊆ targetNames view := by
  intro c hc
  refine keyColumns_subset view ?_
  rw [keyColumns, if_pos (List.ne_nil_of_mem hc)]
  exact hc

theorem storage_subset {view : ViewSpec} {storage : List Storage}
    (h : viewStorage view = .ok storage) :
    rowsColumn :: storage.map Storage.name ⊆ targetNames view := by
  rw [(viewStorage_own h).1]
  refine List.subset_append_of_subset_right _ (List.cons_subset_cons _ fun name hname => ?_)
  obtain ⟨agg, hagg, hname⟩ := List.mem_flatMap.mp hname
  exact List.mem_flatMap.mpr ⟨agg, hagg, List.mem_append_left _ hname⟩

theorem insertColumns_subset {view : ViewSpec} {storage : List Storage}
    (h : viewStorage view = .ok storage) : insertColumns view storage ⊆ targetNames view :=
  List.append_subset.mpr ⟨keyColumns_subset view, storage_subset h⟩

theorem OwnExpr.idents {agg : AggSpec} {name : String} {e : SelectExpr} (h : OwnExpr agg name e) :
    ∀ i ∈ e.idents, i.name ∈ aggregateNames agg := by
  cases h <;> simp [SelectExpr.idents, aggregateNames]

theorem backfillSql_idents {view : ViewSpec} {q : InsertSelect} (h : backfillSql view = .ok q) :
    ∀ i ∈ q.idents, i.name ∈ statementNames view := by
  obtain ⟨storage, hstorage, h⟩ := Except.bind_eq_ok.mp h
  obtain ⟨groupBy, hgroupBy, h⟩ := Except.bind_eq_ok.mp h
  obtain ⟨schema, hschema, h⟩ := Except.bind_eq_ok.mp h
  obtain ⟨table, htable, h⟩ := Except.bind_eq_ok.mp h
  obtain ⟨name, hname, h⟩ := Except.bind_eq_ok.mp h
  obtain ⟨columns, hcolumns, h⟩ := Except.bind_eq_ok.mp h
  cases Except.pure_eq_ok.mp h
  have hgroup := quoted_targetNames hgroupBy (groupBy_subset view)
  have hkeys : ∀ e ∈ (if view.groupBy ≠ [] then groupBy.map SelectExpr.column else [.constTrue]),
      ∀ i ∈ e.idents, i.name ∈ statementNames view := by
    split_ifs
    · refine List.forall_mem_map.mpr fun c hc i hi => ?_
      cases List.mem_singleton.mp hi
      exact hgroup c hc
    · exact List.forall_mem_singleton.mpr fun i hi => (by cases hi)
  have hexprs : ∀ e ∈ storage.map Storage.backfillExpr, ∀ i ∈ e.idents,
      i.name ∈ statementNames view := by
    refine List.forall_mem_map.mpr fun s hs i hi => ?_
    obtain ⟨agg, hagg, hown⟩ := (viewStorage_own hstorage).2.2 s hs
    exact List.mem_append_right _ (List.mem_flatMap.mpr ⟨agg, hagg, OwnExpr.idents hown i hi⟩)
  have hsource : ∀ i ∈ (TableName.mk schema table).idents, i.name ∈ statementNames view := by
    simp [TableName.idents, statementNames, quoteIdent_ok hschema, quoteIdent_ok htable]
  simp only [InsertSelect.idents, List.forall_mem_append]
  refine ⟨⟨⟨⟨target_idents hname, quoted_targetNames hcolumns (insertColumns_subset hstorage)⟩, ?_⟩,
    hsource⟩, hgroup⟩
  rintro i hi
  obtain ⟨e, he, hi⟩ := List.mem_flatMap.mp hi
  rcases List.mem_append.mp he with he | he
  · exact hkeys e he i hi
  · rcases List.mem_cons.mp he with rfl | he
    · cases hi
    · exact hexprs e he i hi

theorem named_targetNames {view : ViewSpec} {names : List String} {idents : List Ident}
    (h : idents.map Ident.name = names) (hsub : names ⊆ targetNames view) :
    ∀ i ∈ idents, i.name ∈ statementNames view :=
  fun _ hi => mem_statementNames (hsub (h ▸ List.mem_map_of_mem hi))

theorem plan_idents {view : ViewSpec} {plan : Plan} (h : buildPlan view = .ok plan) :
    (∀ i ∈ plan.upsert.target.idents, i.name ∈ statementNames view) ∧
      ∀ i ∈ plan.upsert.idents, i.name ∈ statementNames view := by
  obtain ⟨storage, hp⟩ := buildPlan_ok h
  have htarget := target_idents hp.target_ok
  simp only [Upsert.idents, List.forall_mem_append]
  exact ⟨htarget, ⟨⟨htarget, named_targetNames hp.columns_eq (insertColumns_subset hp.storage_ok)⟩,
    named_targetNames hp.conflict_eq (keyColumns_subset view)⟩,
    named_targetNames hp.updates_eq (storage_subset hp.storage_ok)⟩

theorem statements_idents {F : Type} [PyFloat F] {views : List ViewSpec} {ops : List (Op F)}
    {b : DeltaBatch F} (h : foldOps views ops = .ok b) :
    ∀ i ∈ b.statements.flatMap Dml.idents, ∃ view ∈ views, i.name ∈ statementNames view := by
  intro i hi
  obtain ⟨s, hs, hi⟩ := List.mem_flatMap.mp hi
  obtain ⟨view, hview, plan, hbuild, hs⟩ := foldOps_statements h hs
  obtain ⟨htarget, hupsert⟩ := plan_idents hbuild
  refine ⟨view, hview, ?_⟩
  rcases hs with rfl | ⟨params, rfl⟩ | rfl
  · exact htarget i hi
  · exact hupsert i hi
  · rcases List.mem_append.mp hi with hi | hi
    · exact htarget i hi
    · cases List.mem_singleton.mp hi
      exact mem_statementNames (List.mem_append_right _ List.mem_cons_self)

/-! ### Identifiers everywhere -/

theorem AcceptedView.statementNames_word {view : ViewSpec} (h : AcceptedView view)
    (hend : ∀ name ∈ viewNames view, ¬ EndsInNewline name) :
    ∀ name ∈ statementNames view, ¬ EndsInNewline name := by
  obtain ⟨hfront, haggs⟩ := List.forall_mem_append.mp hend
  obtain ⟨hnames, hgroup⟩ := List.forall_mem_append.mp hfront
  have haliases : ∀ name ∈ view.aggregates.map AggSpec.as, ¬ EndsInNewline name :=
    List.forall_mem_map.mpr fun agg hagg => haggs _
      (List.mem_flatMap.mpr ⟨agg, hagg, List.mem_cons_self⟩)
  have hwords := h.words_iff.mpr (List.forall_mem_append.mpr ⟨hgroup, haliases⟩)
  refine List.forall_mem_append.mpr ⟨List.forall_mem_append.mpr ⟨?_, ?_⟩, haggs⟩
  · exact List.forall_mem_cons.mpr ⟨by decide, hnames⟩
  · exact fun name hname => (hwords name hname).not_endsInNewline

theorem ident_identifier {i : Ident} (h : ¬ EndsInNewline i.name) : Identifier i.name :=
  (identifier_iff (quotable_iff.mpr i.accepted)).mpr h

theorem AcceptedConfig.quotable {config : Config} (h : AcceptedConfig config) :
    ∀ name ∈ configNames config, Quotable name := by
  refine List.forall_mem_append.mpr ⟨List.forall_mem_cons.mpr ⟨h.slot,
    List.forall_mem_singleton.mpr h.publication⟩, fun name hname => ?_⟩
  obtain ⟨view, hview, hname⟩ := List.mem_flatMap.mp hname
  have hv := h.views view hview
  rcases List.mem_append.mp hname with hname | hname
  · rcases List.mem_append.mp hname with hname | hname
    · exact hv.names name hname
    · exact (hv.groupBy name hname).1
  · obtain ⟨agg, hagg, hname⟩ := List.mem_flatMap.mp hname
    rcases List.mem_cons.mp hname with rfl | hname
    · exact (hv.aggregates agg hagg).as_quotable
    · exact (hv.aggregates agg hagg).column_quotable name (Option.mem_toList.mp hname)

theorem bootstrapNames_subset (config : Config) : bootstrapNames config ⊆ configNames config := by
  refine List.append_subset.mpr ⟨List.subset_append_left _ _, fun name hname => ?_⟩
  obtain ⟨t, ht, hname⟩ := List.mem_flatMap.mp hname
  rw [Bootstrap.sourceTables, List.mem_eraseDups] at ht
  obtain ⟨view, hview, rfl⟩ := List.mem_map.mp ht
  refine List.mem_append_right _ (List.mem_flatMap.mpr ⟨view, hview, ?_⟩)
  refine List.mem_append_left _ (List.mem_append_left _ ?_)
  exact List.mem_cons_of_mem _ hname

theorem AcceptedConfig.wellNamed_iff {config : Config} (h : AcceptedConfig config) :
    WellNamed config ↔ ∀ name ∈ configNames config, ¬ EndsInNewline name := by
  constructor
  · intro hnamed name hname
    exact (identifier_iff (h.quotable name hname)).mp (hnamed.names name hname)
  · intro hend
    have hnames : ∀ name ∈ configNames config, Identifier name := fun name hname =>
      (identifier_iff (h.quotable name hname)).mpr (hend name hname)
    have hstatement : ∀ view ∈ config.views, ∀ name ∈ statementNames view, ¬ EndsInNewline name :=
      fun view hview => (h.views view hview).statementNames_word fun name hname => hend name
        (List.mem_append_right _ (List.mem_flatMap.mpr ⟨view, hview, hname⟩))
    refine ⟨hnames, ?_, ?_, ?_, fun name hname => ?_⟩
    · intro view hview types ddl hddl i hi
      exact ident_identifier (hstatement view hview _ (targetDdl_idents hddl i hi))
    · intro view hview q hq i hi
      exact ident_identifier (hstatement view hview _ (backfillSql_idents hq i hi))
    · intro F _ ops b hb i hi
      obtain ⟨view, hview, hname⟩ := statements_idents hb i hi
      exact ident_identifier (hstatement view hview _ hname)
    · have hname := bootstrapNames_subset config hname
      obtain ⟨i, hi⟩ := h.quotable name hname
      exact ⟨i, hi, quoteIdent_ok hi ▸ hnames name hname⟩

/-- The validators accept exactly the identifiers, except for a word with a line feed behind it; so
the names of an accepted configuration and of the SQL made from it are identifiers unless one of
them ends in a line feed, and names that differ are quoted differently. -/
theorem validators_iff (name path : String) (env : Option String) (opened : Opened) :
    (Validated name ↔ ¬ WordLine name) ∧
    (∀ config : LoadedConfig, loadConfig path env opened = .ok config →
      (WellNamed config.toConfig ↔ ∀ n ∈ configNames config.toConfig, ¬ EndsInNewline n)) ∧
    ∀ other i j, quoteIdent name = .ok i → quoteIdent other = .ok j → name ≠ other →
      ((Identifier name ∧ Identifier other) ↔ ¬ WordLine name ∧ ¬ WordLine other) ∧
      i.sql ≠ j.sql := by
  refine ⟨validated_iff, fun config hload => ?_, fun other i j hi hj hne => ?_⟩
  · exact (loadConfig_ok hload).wellNamed_iff
  · refine ⟨and_congr (not_wordLine_iff ⟨i, hi⟩) (not_wordLine_iff ⟨j, hj⟩), fun hsql => hne ?_⟩
    rw [← quoteIdent_ok hi, ← quoteIdent_ok hj, sql_injective hsql]

theorem validators_shop : Validated "orders" ∧
    ∃ config, loadConfig "walflux.yaml" none (.doc shopDoc) = .ok config ∧
      WellNamed config.toConfig := by
  obtain ⟨config, hload, hnames⟩ := Except.map_eq_ok.mp (show
    (loadConfig "walflux.yaml" none (.doc shopDoc)).map (configNames ·.toConfig) = .ok ["walflux",
      "walflux", "totals", "public", "orders", "status", "paid", "amount"] by decide +kernel)
  obtain ⟨hvalidated, hwell, -⟩ := validators_iff "orders" "walflux.yaml" none (.doc shopDoc)
  refine ⟨hvalidated.mpr ?_, config, hload, (hwell config hload).mpr ?_⟩
  · rintro ⟨⟨w, -, heq⟩, -⟩
    have hend : EndsInNewline "orders" := heq ▸ endsInNewline_append w
    revert hend
    decide
  · rw [hnames]
    decide

def lineDoc : Doc :=
  configDoc [viewDoc "totals" "orders" ["status", "status\n"] [aggDoc "count" "amount" "paid"]]

theorem accepted_line_feed : (∃ i, quoteIdent "status\n" = .ok i) ∧ ¬ Validated "status\n" ∧
    ∃ config, loadConfig "walflux.yaml" none (.doc lineDoc) = .ok config ∧
      "status\n" ∈ configNames config.toConfig ∧ ¬ WellNamed config.toConfig := by
  have hline : ¬ Identifier "status\n" := by
    rintro ⟨hword, -⟩
    have hend := hword.not_endsInNewline
    revert hend
    decide
  have hquoted : ∃ i, quoteIdent "status\n" = .ok i := ⟨_, rfl⟩
  obtain ⟨config, hload, hmem⟩ := Except.map_eq_ok.mp (show
    (loadConfig "walflux.yaml" none (.doc lineDoc)).map
      (fun config => decide ("status\n" ∈ configNames config.toConfig)) =
        .ok true by decide +kernel)
  have hmem := of_decide_eq_true hmem
  exact ⟨hquoted, fun h => hline (h.quoted.mp hquoted), config, hload, hmem,
    fun h => hline (h.names _ hmem)⟩

end WalFlux.ConfigFile
