import WalFlux.Aggregates.Maintenance
import WalFlux.Aggregates.Parameters
import WalFlux.Sql.Reading

/-! The SQL text of a configuration's views: what is generated is read back as it was meant, and a
batch executed as text does to the target tables what its statements do. -/

namespace WalFlux.Aggregates

open Sql Python

variable {F : Type} [PyFloat F]

/-! ### Setup -/

theorem keyColumns_ne_nil (view : ViewSpec) : keyColumns view ≠ [] := by
  rw [keyColumns]
  split_ifs with hnil
  · exact hnil
  · exact List.cons_ne_nil _ _

theorem mapM_ne_nil {names : List String} {idents : List Ident}
    (h : names.mapM quoteIdent = .ok idents) (hne : names ≠ []) : idents ≠ [] := by
  rintro rfl
  exact hne (mapM_quoteIdent h).symm

theorem insertColumns_ne_nil (view : ViewSpec) (storage : List Storage) :
    insertColumns view storage ≠ [] := List.append_ne_nil_of_right_ne_nil _ (List.cons_ne_nil _ _)

def TypesSelfContained (view : ViewSpec) (types : Dict String String) : Prop :=
  ∀ c ∈ view.groupBy, ∀ text, Dict.get? types c = some text → SelfContained text

theorem keyDefs_selfContained {view : ViewSpec} {types : Dict String String} {defs : List ColumnDef}
    (h : keyDefs view types = .ok defs) (htypes : TypesSelfContained view types) :
    ∀ d ∈ defs, d.SelfContained := by
  rw [keyDefs] at h
  split_ifs at h
  · intro d hd
    obtain ⟨c, hc, hdef⟩ := (Except.mapM_eq_ok.mp h).exists_of_mem_right hd
    cases htype : Dict.get? types c with
    | none =>
      rw [htype] at hdef
      cases hdef
    | some text =>
      rw [htype] at hdef
      obtain ⟨i, -, hdef⟩ := Except.bind_eq_ok.mp hdef
      cases Except.pure_eq_ok.mp hdef
      exact htypes c hc text htype
  · obtain ⟨i, -, h⟩ := Except.bind_eq_ok.mp h
    cases Except.pure_eq_ok.mp h
    exact List.forall_mem_singleton.mpr trivial

theorem aggDefs_selfContained {agg : AggSpec} {defs : List ColumnDef} (h : aggDefs agg = .ok defs) :
    ∀ d ∈ defs, d.SelfContained := by
  obtain ⟨storage, hstorage, h⟩ := Except.bind_eq_ok.mp h
  obtain ⟨stored, hstored, h⟩ := Except.bind_eq_ok.mp h
  have hplain : ∀ d ∈ stored, d.SelfContained := by
    intro d hd
    obtain ⟨s, hs, hdef⟩ := (Except.mapM_eq_ok.mp hstored).exists_of_mem_right hd
    obtain ⟨i, -, hdef⟩ := Except.bind_eq_ok.mp hdef
    cases Except.pure_eq_ok.mp hdef
    obtain ⟨slot, -, hslot⟩ := (aggStorage_slots hstorage).exists_of_mem_right hs
    change s.ddlType.SelfContained
    rw [hslot.ddlType_eq]
    split_ifs <;> trivial
  split_ifs at h
  · cases Except.pure_eq_ok.mp h
    exact hplain
  · obtain ⟨total, -, h⟩ := Except.bind_eq_ok.mp h
    obtain ⟨nn, -, h⟩ := Except.bind_eq_ok.mp h
    obtain ⟨name, -, h⟩ := Except.bind_eq_ok.mp h
    cases Except.pure_eq_ok.mp h
    exact List.forall_mem_append.mpr ⟨hplain, List.forall_mem_singleton.mpr trivial⟩

theorem targetDdl_readable {view : ViewSpec} {types : Dict String String} {ddl : List Ddl}
    (h : targetDdl view types = .ok ddl) (htypes : TypesSelfContained view types) :
    ∀ d ∈ ddl, d.Listed ∧ d.SelfContained := by
  obtain ⟨table, -, h⟩ := Except.bind_eq_ok.mp h
  obtain ⟨keys, hkeys, h⟩ := Except.bind_eq_ok.mp h
  obtain ⟨rows, -, h⟩ := Except.bind_eq_ok.mp h
  obtain ⟨aggs, haggs, h⟩ := Except.bind_eq_ok.mp h
  obtain ⟨index, hindex, h⟩ := Except.bind_eq_ok.mp h
  cases Except.pure_eq_ok.mp h
  have hcolumns : ∀ c ∈ keys ++ .stored rows .bigint :: aggs.flatten, c.SelfContained := by
    refine List.forall_mem_append.mpr ⟨keyDefs_selfContained hkeys htypes,
      List.forall_mem_cons.mpr ⟨trivial, fun c hc => ?_⟩⟩
    obtain ⟨defs, hdefs, hc⟩ := List.mem_flatten.mp hc
    obtain ⟨agg, -, hagg⟩ := (Except.mapM_eq_ok.mp haggs).exists_of_mem_right hdefs
    exact aggDefs_selfContained hagg c hc
  have hlist : keys ++ .stored rows .bigint :: aggs.flatten ≠ [] :=
    List.append_ne_nil_of_right_ne_nil _ (List.cons_ne_nil _ _)
  exact List.forall_mem_cons.mpr ⟨⟨trivial, trivial⟩, List.forall_mem_cons.mpr ⟨⟨hlist, hcolumns⟩,
    List.forall_mem_singleton.mpr ⟨mapM_ne_nil hindex (keyColumns_ne_nil view), trivial⟩⟩⟩

theorem backfillSql_listed {view : ViewSpec} {q : InsertSelect} (h : backfillSql view = .ok q) :
    q.Listed := by
  obtain ⟨storage, hstorage, h⟩ := Except.bind_eq_ok.mp h
  obtain ⟨groupBy, hgroupBy, h⟩ := Except.bind_eq_ok.mp h
  obtain ⟨schema, hschema, h⟩ := Except.bind_eq_ok.mp h
  obtain ⟨table, htable, h⟩ := Except.bind_eq_ok.mp h
  obtain ⟨name, hname, h⟩ := Except.bind_eq_ok.mp h
  obtain ⟨columns, hcolumns, h⟩ := Except.bind_eq_ok.mp h
  cases Except.pure_eq_ok.mp h
  exact ⟨mapM_ne_nil hcolumns (insertColumns_ne_nil view storage),
    List.append_ne_nil_of_right_ne_nil _ (List.cons_ne_nil _ _)⟩

/-- Whatever the names of a view, the texts that setup executes for it are read back as the
statements they were made from, column by column and expression by expression. -/
theorem setup_texts_read {view : ViewSpec} {types : Dict String String} {ddl : List Ddl}
    {q : InsertSelect} (hddl : targetDdl view types = .ok ddl) (hq : backfillSql view = .ok q)
    (htypes : TypesSelfContained view types) :
    ddl.map (fun d => readDefinition d.sql) = ddl.map (fun d => some d.declared) ∧
      readInsertSelect q.sql = some q := by
  refine ⟨List.map_congr_left fun d hd => ?_, readInsertSelect_sql (backfillSql_listed hq)⟩
  obtain ⟨hlisted, hself⟩ := targetDdl_readable hddl htypes d hd
  exact readDefinition_sql hlisted hself

theorem setup_texts_read_orderTotals : ∃ ddl q,
    targetDdl sampleView [("status", "text")] = .ok ddl ∧ backfillSql sampleView = .ok q ∧
    ddl.map (fun d => readDefinition d.sql) = ddl.map (fun d => some d.declared) ∧
    readInsertSelect q.sql = some q := by
  obtain ⟨ddl, q, plan, hddl, hq, -⟩ := generators_succeed sampleView_valid
  refine ⟨ddl, q, hddl, hq, setup_texts_read hddl hq ?_⟩
  refine List.forall_mem_singleton.mpr fun text htext => ?_
  cases htext
  exact ⟨[.word "text"], by decide, rfl, by decide⟩

example : (backfillSql sampleView).map InsertSelect.sql = .ok (
    "INSERT INTO \"walflux\".\"order_totals\" (\"status\", \"__walflux_rows\", " ++
    "\"revenue__sum\", \"revenue__nn\")\nSELECT \"status\", count(*), " ++
    "coalesce(sum(\"amount\"), 0), count(\"amount\")\n" ++
    "FROM \"public\".\"orders\"\nGROUP BY \"status\"") := by
  decide +kernel

/-! ### Batches -/

theorem buildPlan_listed {view : ViewSpec} {plan : Plan} (h : buildPlan view = .ok plan) :
    plan.upsert.Listed := by
  obtain ⟨storage, hp⟩ := buildPlan_ok h
  refine ⟨fun hnil => ?_, fun hnil => ?_, fun hnil => ?_⟩
  · have hcolumns := hp.columns_eq
    rw [hnil] at hcolumns
    exact insertColumns_ne_nil view storage hcolumns.symm
  · have hconflict := hp.conflict_eq
    rw [hnil] at hconflict
    exact keyColumns_ne_nil view hconflict.symm
  · have hupdates := hp.updates_eq
    rw [hnil] at hupdates
    cases hupdates

theorem statements_filled {views : List ViewSpec} {ops : List (Op F)} {b : DeltaBatch F}
    (h : foldOps views ops = .ok b) : ∀ s ∈ b.statements, s.Listed ∧ s.Filled := by
  intro s hs
  obtain ⟨view, -, plan, hbuild, rfl | ⟨params, rfl⟩ | rfl⟩ := foldOps_statements h hs
  · exact ⟨trivial, trivial⟩
  · rw [foldOps_eq] at h
    obtain ⟨-, -, -, -, -, hlen, -⟩ := (foldEvents_collected h).placed hs
    exact ⟨buildPlan_listed hbuild, hlen⟩
  · exact ⟨trivial, trivial⟩

theorem texts_execute {K : Type} [DecidableEq K] (read : String → Value F → K)
    {views : List ViewSpec} {ops : List (Op F)} {b : DeltaBatch F} (h : foldOps views ops = .ok b)
    (db : Tables K) : (b.statements.map Dml.sql).foldlM (fun db s => execText read s db) db =
      execAll read b.statements db := by
  have hall := statements_filled h
  rw [execAll]
  generalize b.statements = statements at hall
  induction statements generalizing db with
  | nil => rfl
  | cons s statements ih =>
    obtain ⟨⟨hlisted, hfilled⟩, hall⟩ := List.forall_mem_cons.mp hall
    rw [List.map_cons, List.foldlM_cons, List.foldlM_cons, execText_sql read hlisted hfilled]
    exact bind_congr fun db => ih db hall

def runTexts {K : Type} [DecidableEq K] (read : String → Value F → K) (views : List ViewSpec)
    (batches : List (List (Op F))) (db : Tables K) : Except Error (Tables K) :=
  batches.foldlM (fun db ops => do
    let b ← foldOps views ops
    (b.statements.map Dml.sql).foldlM (fun db s => execText read s db) db) db

/-- Batch after batch, the texts with their parameters do to the target tables what the statements
are meant to do: every text is read back as its statement and has a placeholder for each of its
parameters. -/
theorem runTexts_eq {K : Type} [DecidableEq K] (read : String → Value F → K) (views : List ViewSpec)
    (batches : List (List (Op F))) (db : Tables K) :
    runTexts read views batches db = runBatches read views batches db := by
  rw [runTexts, runBatches]
  congr 1
  funext db ops
  cases hfold : foldOps views ops with
  | error e => rfl
  | ok b => exact texts_execute read hfold db

end WalFlux.Aggregates
