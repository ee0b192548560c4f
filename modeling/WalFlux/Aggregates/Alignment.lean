import WalFlux.Aggregates.Target

/-! The statements of a view name the same columns in the same order, and every expression and every
parameter stands at the column of its own aggregate. -/

namespace WalFlux.Aggregates

open Sql Python

/-! ### Names and storage -/

def storageNames (agg : AggSpec) : List String :=
  match agg.fn with
  | .count => [agg.as]
  | _ => [agg.as ++ "__sum", agg.as ++ "__nn"]

inductive OwnExpr : AggSpec → String → SelectExpr → Prop
  | countAll (as : String) : OwnExpr ⟨.count, none, as⟩ as .countAll
  | count (c : Ident) (as : String) : OwnExpr ⟨.count, some c.name, as⟩ as (.count c)
  | sum {fn : AggFn} (hfn : fn ≠ .count) (c : Ident) (as : String) :
      OwnExpr ⟨fn, some c.name, as⟩ (as ++ "__sum") (.coalesceSum c)
  | nonNull {fn : AggFn} (hfn : fn ≠ .count) (c : Ident) (as : String) :
      OwnExpr ⟨fn, some c.name, as⟩ (as ++ "__nn") (.count c)

def ownZeros (agg : AggSpec) : List Num :=
  match agg.fn with
  | .count => [.int 0]
  | _ => [.dec (.ofInt 0), .int 0]

theorem aggStorage_own {agg : AggSpec} {storage : List Storage} (h : aggStorage agg = .ok storage) :
    storage.map Storage.name = storageNames agg ∧ storage.map Storage.zero = ownZeros agg ∧
      ∀ s ∈ storage, OwnExpr agg s.name s.backfillExpr := by
  rcases agg with ⟨fn, column, as⟩
  have hpair {fn : AggFn} (hfn : fn ≠ .count) {c : String} {storage : List Storage}
      (h : (do
        let src ← quoteIdent c
        return [⟨as ++ "__sum", .numeric, .coalesceSum src, .dec (Decimal.ofInt 0)⟩,
          ⟨as ++ "__nn", .bigint, .count src, .int 0⟩] : Except Error (List Storage)) =
            .ok storage) :
      storage.map Storage.name = [as ++ "__sum", as ++ "__nn"] ∧
        storage.map Storage.zero = [.dec (.ofInt 0), .int 0] ∧
        ∀ s ∈ storage, OwnExpr ⟨fn, some c, as⟩ s.name s.backfillExpr := by
    obtain ⟨src, hsrc, h⟩ := Except.bind_eq_ok.mp h
    cases Except.pure_eq_ok.mp h
    cases quoteIdent_ok hsrc
    refine ⟨rfl, rfl, List.forall_mem_cons.mpr ⟨.sum hfn src as, List.forall_mem_singleton.mpr ?_⟩⟩
    exact .nonNull hfn src as
  cases fn with
  | count =>
    cases column with
    | none =>
      cases h
      exact ⟨rfl, rfl, List.forall_mem_singleton.mpr (.countAll as)⟩
    | some c =>
      obtain ⟨src, hsrc, h⟩ := Except.bind_eq_ok.mp h
      cases Except.pure_eq_ok.mp h
      cases quoteIdent_ok hsrc
      exact ⟨rfl, rfl, List.forall_mem_singleton.mpr (.count src as)⟩
  | sum =>
    cases column with
    | none => cases h
    | some c => exact hpair (by simp) h
  | avg =>
    cases column with
    | none => cases h
    | some c => exact hpair (by simp) h

theorem viewStorage_own {view : ViewSpec} {storage : List Storage}
    (h : viewStorage view = .ok storage) :
    storage.map Storage.name = view.aggregates.flatMap storageNames ∧
      storage.map Storage.zero = view.aggregates.flatMap ownZeros ∧
      ∀ s ∈ storage, ∃ agg ∈ view.aggregates, OwnExpr agg s.name s.backfillExpr := by
  obtain ⟨parts, hparts, h⟩ := Except.bind_eq_ok.mp h
  cases Except.pure_eq_ok.mp h
  have hparts := Except.mapM_eq_ok.mp hparts
  refine ⟨?_, ?_, fun s hs => ?_⟩
  · rw [List.map_flatten, List.flatMap_def]
    exact congrArg List.flatten (hparts.map_eq fun agg part hpart =>
      (aggStorage_own hpart).1.symm).symm
  · rw [List.map_flatten, List.flatMap_def]
    exact congrArg List.flatten
      (hparts.map_eq fun agg part hpart => (aggStorage_own hpart).2.1.symm).symm
  · -- every column is one of some aggregate's
    obtain ⟨part, hpart, hs⟩ := List.mem_flatten.mp hs
    obtain ⟨agg, hagg, hok⟩ := hparts.exists_of_mem_right hpart
    exact ⟨agg, hagg, (aggStorage_own hok).2.2 s hs⟩

/-! ### The table definition -/

def storedName : ColumnDef → Option Ident
  | .stored name _ => some name
  | .generated .. => none

def storedColumns (defs : List ColumnDef) : List Ident := defs.filterMap storedName

def Plain (names : List String) (defs : List ColumnDef) : Prop :=
  List.Forall₂ (fun name def' => ∃ i type, def' = .stored i type ∧ i.name = name) names defs

theorem Plain.stored {names : List String} {defs : List ColumnDef} (h : Plain names defs) :
    (storedColumns defs).map Ident.name = names := by
  induction h with
  | nil => rfl
  | cons hd _ ih =>
    obtain ⟨i, type, rfl, hi⟩ := hd
    exact congrArg₂ List.cons hi ih

theorem Plain.names {names : List String} {defs : List ColumnDef} (h : Plain names defs) :
    defs.map (Ident.name ∘ ColumnDef.name) = names := by
  induction h with
  | nil => rfl
  | cons hd _ ih =>
    obtain ⟨i, type, rfl, hi⟩ := hd
    exact congrArg₂ List.cons hi ih

theorem keyDefs_plain {view : ViewSpec} {types : Dict String String} {defs : List ColumnDef}
    (h : keyDefs view types = .ok defs) : Plain (keyColumns view) defs := by
  unfold keyDefs at h
  unfold keyColumns
  split_ifs at h ⊢
  · refine (Except.mapM_eq_ok.mp h).imp fun c def' hdef => ?_
    cases htype : Dict.get? types c with
    | none =>
      rw [htype] at hdef
      cases hdef
    | some type =>
      rw [htype] at hdef
      obtain ⟨i, hi, hdef⟩ := Except.bind_eq_ok.mp hdef
      exact ⟨i, _, (Except.pure_eq_ok.mp hdef).symm, quoteIdent_ok hi⟩
  · obtain ⟨i, hi, h⟩ := Except.bind_eq_ok.mp h
    cases Except.pure_eq_ok.mp h
    exact .cons ⟨i, _, rfl, quoteIdent_ok hi⟩ .nil

def shownNames (agg : AggSpec) : List String := if agg.fn = .count then [] else [agg.as]

theorem aggDefs_ok {agg : AggSpec} {defs : List ColumnDef} (h : aggDefs agg = .ok defs) :
    ∃ stored, Plain (storageNames agg) stored ∧ (agg.fn = .count ∧ defs = stored ∨ agg.fn ≠ .count ∧
      ∃ name total nn, name.name = agg.as ∧ total.name = agg.as ++ "__sum" ∧
        nn.name = agg.as ++ "__nn" ∧ defs = stored ++ [.generated name total nn
          (agg.fn = .avg)]) := by
  obtain ⟨storage, hstorage, h⟩ := Except.bind_eq_ok.mp h
  obtain ⟨stored, hstored, h⟩ := Except.bind_eq_ok.mp h
  refine ⟨stored, ?_, ?_⟩
  · rw [← (aggStorage_own hstorage).1, Plain, List.forall₂_map_left_iff]
    refine (Except.mapM_eq_ok.mp hstored).imp fun s def' hdef => ?_
    obtain ⟨i, hi, hdef⟩ := Except.bind_eq_ok.mp hdef
    exact ⟨i, _, (Except.pure_eq_ok.mp hdef).symm, quoteIdent_ok hi⟩
  · split_ifs at h with hfn
    · exact .inl ⟨hfn, (Except.pure_eq_ok.mp h).symm⟩
    · obtain ⟨total, htotal, h⟩ := Except.bind_eq_ok.mp h
      obtain ⟨nn, hnn, h⟩ := Except.bind_eq_ok.mp h
      obtain ⟨name, hname, h⟩ := Except.bind_eq_ok.mp h
      exact .inr ⟨hfn, name, total, nn, quoteIdent_ok hname, quoteIdent_ok htotal,
        quoteIdent_ok hnn, (Except.pure_eq_ok.mp h).symm⟩

theorem aggDefs_plain {agg : AggSpec} {defs : List ColumnDef} (h : aggDefs agg = .ok defs) :
    ∃ stored shown, defs = stored ++ shown ∧ Plain (storageNames agg) stored ∧
      storedColumns shown = [] ∧ shown.map (Ident.name ∘ ColumnDef.name) = shownNames agg := by
  obtain ⟨stored, hplain, ⟨hfn, rfl⟩ | ⟨hfn, name, total, nn, hname, -, -, rfl⟩⟩ := aggDefs_ok h
  · exact ⟨_, [], (List.append_nil _).symm, hplain, rfl, (if_pos hfn).symm⟩
  · refine ⟨stored, _, rfl, hplain, rfl, ?_⟩
    rw [shownNames, if_neg hfn]
    exact congrArg (fun name => [name]) hname

theorem aggDefs_stored {agg : AggSpec} {defs : List ColumnDef} (h : aggDefs agg = .ok defs) :
    (storedColumns defs).map Ident.name = storageNames agg := by
  obtain ⟨stored, shown, rfl, hplain, hshown, -⟩ := aggDefs_plain h
  rw [storedColumns, List.filterMap_append, ← storedColumns, ← storedColumns, hshown,
    List.append_nil, hplain.stored]

/-! ### The three statements -/

inductive ExprAt (view : ViewSpec) (c : Ident) : SelectExpr → Prop
  | key (hc : c.name ∈ view.groupBy) : ExprAt view c (.column c)
  | globalKey (hview : view.groupBy = []) (hc : c.name = globalKeyColumn) : ExprAt view c .constTrue
  | rows (hc : c.name = rowsColumn) : ExprAt view c .countAll
  | own {agg : AggSpec} {e : SelectExpr} (hagg : agg ∈ view.aggregates)
      (he : OwnExpr agg c.name e) : ExprAt view c e

/-- One list of columns, one list of keys, and for every column its own expression. -/
structure StatementsAgree (view : ViewSpec) (ddl : List Ddl) (q : InsertSelect) (plan : Plan) :
    Prop where
  ddl_eq : ∃ defs, ddl = [.dropTable plan.upsert.target, .createTable plan.upsert.target defs,
    .createUniqueIndex plan.upsert.target plan.upsert.conflict] ∧
      storedColumns defs = plan.upsert.columns
  target_eq : q.target = plan.upsert.target
  columns_eq : q.columns = plan.upsert.columns
  groupBy_eq : view.groupBy ≠ [] → q.groupBy = plan.upsert.conflict
  exprs : List.Forall₂ (ExprAt view) q.columns q.exprs

theorem targetDdl_stored {view : ViewSpec} {types : Dict String String} {plan : Plan}
    {storage : List Storage} (hp : PlanFor view plan storage) {ddl : List Ddl}
    (h : targetDdl view types = .ok ddl) :
    ∃ defs, ddl = [.dropTable plan.upsert.target, .createTable plan.upsert.target defs,
      .createUniqueIndex plan.upsert.target plan.upsert.conflict] ∧
        storedColumns defs = plan.upsert.columns := by
  obtain ⟨table, htable, h⟩ := Except.bind_eq_ok.mp h
  obtain ⟨keys, hkeys, h⟩ := Except.bind_eq_ok.mp h
  obtain ⟨rows, hrows, h⟩ := Except.bind_eq_ok.mp h
  obtain ⟨aggs, haggs, h⟩ := Except.bind_eq_ok.mp h
  obtain ⟨index, hindex, h⟩ := Except.bind_eq_ok.mp h
  cases Except.pure_eq_ok.mp h
  rw [hp.target_ok] at htable
  cases htable
  have hindex : index = plan.upsert.conflict :=
    map_name_injective ((mapM_quoteIdent hindex).trans hp.conflict_eq.symm)
  subst hindex
  refine ⟨_, rfl, map_name_injective ?_⟩
  have haggs : (storedColumns aggs.flatten).map Ident.name =
      view.aggregates.flatMap storageNames := by
    rw [storedColumns, List.filterMap_flatten, List.map_flatten, List.map_map, List.flatMap_def]
    exact congrArg List.flatten
      ((Except.mapM_eq_ok.mp haggs).map_eq fun agg defs hdefs => (aggDefs_stored hdefs).symm).symm
  rw [hp.columns_eq, insertColumns, (viewStorage_own hp.storage_ok).1, ← haggs,
    ← (keyDefs_plain hkeys).stored, storedColumns, List.filterMap_append, List.map_append]
  exact congrArg (_ ++ ·) (congrArg (· :: _) (quoteIdent_ok hrows))

theorem exprs_aligned {view : ViewSpec} {plan : Plan} {storage : List Storage}
    (hp : PlanFor view plan storage) {q : InsertSelect} (hq : BackfillFor view plan storage q) :
    List.Forall₂ (ExprAt view) q.columns q.exprs := by
  rw [hq.columns_eq, hp.columns_append, hq.exprs_eq]
  refine List.rel_append ?_ ?_
  · split_ifs with hg
    · have hkeys : plan.upsert.conflict = q.groupBy := by
        refine map_name_injective (hp.conflict_eq.trans ?_)
        rw [keyColumns, if_pos hg, hq.groupBy_eq]
      rw [hkeys, List.forall₂_map_right_iff, List.forall₂_same]
      exact fun c hc => .key (hq.groupBy_eq ▸ List.mem_map_of_mem hc)
    · have hkeys := hp.conflict_eq
      rw [keyColumns, if_neg hg] at hkeys
      obtain ⟨c, hc, hname⟩ := List.map_eq_singleton_iff.mp hkeys
      rw [hc]
      exact .cons (.globalKey (not_not.mp hg) hname) .nil
  · have hupdates := hp.updates_eq
    obtain ⟨rows, rest, hsplit, hrows, hrest⟩ := List.map_eq_cons_iff.mp hupdates
    rw [hsplit]
    have hown := (viewStorage_own hp.storage_ok).2.2
    have hnames := (List.Forall₂.map_eq_iff.mp hrest).flip
    refine .cons (.rows hrows) (List.forall₂_map_right_iff.mpr ?_)
    refine (((List.forall₂_and_left _ _).mpr ⟨hown, hnames⟩).imp ?_).flip
    rintro s c ⟨⟨agg, hagg, hs⟩, hname⟩
    exact .own hagg (hname ▸ hs)

theorem backfillSql_target {view : ViewSpec} {q : InsertSelect} (h : backfillSql view = .ok q) :
    target view = .ok q.target := by
  obtain ⟨storage, -, h⟩ := Except.bind_eq_ok.mp h
  obtain ⟨groupBy, -, h⟩ := Except.bind_eq_ok.mp h
  obtain ⟨schema, -, h⟩ := Except.bind_eq_ok.mp h
  obtain ⟨table, -, h⟩ := Except.bind_eq_ok.mp h
  obtain ⟨name, hname, h⟩ := Except.bind_eq_ok.mp h
  obtain ⟨columns, -, h⟩ := Except.bind_eq_ok.mp h
  cases Except.pure_eq_ok.mp h
  exact hname

theorem statements_agree {view : ViewSpec} {types : Dict String String} {ddl : List Ddl}
    {q : InsertSelect} {plan : Plan} (hddl : targetDdl view types = .ok ddl)
    (hq : backfillSql view = .ok q) (hplan : buildPlan view = .ok plan) :
    StatementsAgree view ddl q plan := by
  obtain ⟨storage, hp⟩ := buildPlan_ok hplan
  have hb := backfillSql_ok hp hq
  refine ⟨targetDdl_stored hp hddl, ?_, hb.columns_eq, fun hg => ?_, exprs_aligned hp hb⟩
  · have htarget := backfillSql_target hq
    rw [hp.target_ok] at htarget
    exact (Except.ok.inj htarget).symm
  · refine map_name_injective (hb.groupBy_eq.trans ?_)
    rw [hp.conflict_eq, keyColumns, if_pos hg]

/-! ### Views of valid identifiers -/

def Quotable (name : String) : Prop := ∃ i, quoteIdent name = .ok i

/-- Every name of the view is an identifier, those derived from aliases included; sums and averages
have a column, and the types of the group columns are known. -/
structure ValidView (view : ViewSpec) (types : Dict String String) : Prop where
  names : ∀ name ∈ view.name :: view.sourceSchema :: view.sourceTable :: view.groupBy, Quotable name
  types : ∀ c ∈ view.groupBy, (Dict.get? types c).isSome
  aliases : ∀ agg ∈ view.aggregates, ∀ name ∈ agg.as :: storageNames agg, Quotable name
  columns : ∀ agg ∈ view.aggregates, ∀ c, agg.column = some c → Quotable c
  hasColumn : ∀ agg ∈ view.aggregates, agg.fn ≠ .count → agg.column.isSome

theorem aggStorage_exists {agg : AggSpec} (hcol : ∀ c, agg.column = some c → Quotable c)
    (hhas : agg.fn ≠ .count → agg.column.isSome) : ∃ storage, aggStorage agg = .ok storage := by
  rcases agg with ⟨fn, column, as⟩
  cases column with
  | none =>
    cases fn with
    | count => exact ⟨_, rfl⟩
    | sum => cases hhas (by simp)
    | avg => cases hhas (by simp)
  | some c =>
    obtain ⟨i, hi⟩ := hcol c rfl
    cases fn <;> exact ⟨_, Except.bind_eq_ok.mpr ⟨i, hi, rfl⟩⟩

theorem aggDefs_exists {agg : AggSpec} (hcol : ∀ c, agg.column = some c → Quotable c)
    (hhas : agg.fn ≠ .count → agg.column.isSome)
    (hnames : ∀ name ∈ agg.as :: storageNames agg, Quotable name) :
    ∃ defs, aggDefs agg = .ok defs := by
  obtain ⟨storage, hstorage⟩ := aggStorage_exists hcol hhas
  obtain ⟨halias, hstored⟩ := List.forall_mem_cons.mp hnames
  obtain ⟨stored, hdefs⟩ : ∃ stored, (storage.mapM fun s => do
      return ColumnDef.stored (← quoteIdent s.name) s.ddlType) = .ok stored := by
    refine Except.exists_mapM_eq_ok fun s hs => ?_
    obtain ⟨i, hi⟩ := hstored s.name ((aggStorage_own hstorage).1 ▸ List.mem_map_of_mem hs)
    exact ⟨_, Except.bind_eq_ok.mpr ⟨i, hi, rfl⟩⟩
  by_cases hfn : agg.fn = .count
  · refine ⟨stored, Except.bind_eq_ok.mpr ⟨storage, hstorage,
      Except.bind_eq_ok.mpr ⟨stored, hdefs, ?_⟩⟩⟩
    rw [if_pos hfn]
    rfl
  · have hpair : storageNames agg = [agg.as ++ "__sum", agg.as ++ "__nn"] := by
      rw [storageNames]
      split
      · contradiction
      · rfl
    rw [hpair] at hstored
    obtain ⟨⟨total, htotal⟩, hstored⟩ := List.forall_mem_cons.mp hstored
    obtain ⟨nn, hnn⟩ := List.forall_mem_singleton.mp hstored
    obtain ⟨shown, hshown⟩ := halias
    refine ⟨stored ++ [.generated shown total nn (agg.fn = .avg)],
      Except.bind_eq_ok.mpr ⟨storage, hstorage, Except.bind_eq_ok.mpr ⟨stored, hdefs, ?_⟩⟩⟩
    rw [if_neg hfn]
    exact Except.bind_eq_ok.mpr ⟨total, htotal, Except.bind_eq_ok.mpr ⟨nn, hnn,
      Except.bind_eq_ok.mpr ⟨shown, hshown, rfl⟩⟩⟩

theorem quotable_reserved : Quotable targetSchema ∧ Quotable rowsColumn ∧
    Quotable globalKeyColumn :=
  ⟨⟨_, rfl⟩, ⟨_, rfl⟩, ⟨_, rfl⟩⟩

theorem generators_succeed {view : ViewSpec} {types : Dict String String}
    (h : ValidView view types) :
    ∃ ddl q plan, targetDdl view types = .ok ddl ∧ backfillSql view = .ok q ∧
      buildPlan view = .ok plan := by
  obtain ⟨⟨schema, hschema⟩, hrowsQ, hglobal⟩ := quotable_reserved
  obtain ⟨⟨name, hname⟩, hnames⟩ := List.forall_mem_cons.mp h.names
  obtain ⟨⟨srcSchema, hsrcSchema⟩, hnames⟩ := List.forall_mem_cons.mp hnames
  obtain ⟨⟨srcTable, hsrcTable⟩, hgroup⟩ := List.forall_mem_cons.mp hnames
  have htarget : target view = .ok ⟨schema, name⟩ :=
    Except.bind_eq_ok.mpr ⟨schema, hschema, Except.bind_eq_ok.mpr ⟨name, hname, rfl⟩⟩
  obtain ⟨parts, hparts⟩ := Except.exists_mapM_eq_ok fun agg hagg =>
    aggStorage_exists (h.columns agg hagg) (h.hasColumn agg hagg)
  have hstorage : viewStorage view = .ok parts.flatten := Except.bind_eq_ok.mpr ⟨parts, hparts, rfl⟩
  have hkeyNames : ∀ c ∈ keyColumns view, Quotable c := by
    unfold keyColumns
    split_ifs
    · exact hgroup
    · exact List.forall_mem_singleton.mpr hglobal
  have hstored : ∀ c ∈ rowsColumn :: parts.flatten.map Storage.name, Quotable c := by
    rw [(viewStorage_own hstorage).1]
    refine List.forall_mem_cons.mpr ⟨hrowsQ, fun c hc => ?_⟩
    obtain ⟨agg, hagg, hc⟩ := List.mem_flatMap.mp hc
    exact h.aliases agg hagg c (List.mem_cons_of_mem _ hc)
  -- every name that is quoted below is one of these
  obtain ⟨groupBy, hgroupBy⟩ := Except.exists_mapM_eq_ok hgroup
  obtain ⟨keys, hkeys⟩ := Except.exists_mapM_eq_ok hkeyNames
  obtain ⟨updates, hupdates⟩ := Except.exists_mapM_eq_ok hstored
  obtain ⟨columns, hcolumns⟩ := Except.exists_mapM_eq_ok (l := insertColumns view parts.flatten)
    (f := quoteIdent) fun c hc => (List.mem_append.mp hc).elim (hkeyNames c) (hstored c)
  obtain ⟨rows, hrows⟩ := hrowsQ
  obtain ⟨aggs, haggs⟩ := Except.exists_mapM_eq_ok fun agg hagg =>
    aggDefs_exists (h.columns agg hagg) (h.hasColumn agg hagg) (h.aliases agg hagg)
  obtain ⟨defs, hdefs⟩ : ∃ defs, keyDefs view types = .ok defs := by
    unfold keyDefs
    split_ifs
    · refine Except.exists_mapM_eq_ok fun c hc => ?_
      obtain ⟨type, htype⟩ := Option.isSome_iff_exists.mp (h.types c hc)
      obtain ⟨i, hi⟩ := hgroup c hc
      rw [htype]
      exact ⟨_, Except.bind_eq_ok.mpr ⟨i, hi, rfl⟩⟩
    · obtain ⟨i, hi⟩ := hglobal
      exact ⟨_, Except.bind_eq_ok.mpr ⟨i, hi, rfl⟩⟩
  have hddl : ∃ ddl, targetDdl view types = .ok ddl :=
    ⟨_, Except.bind_eq_ok.mpr ⟨_, htarget, Except.bind_eq_ok.mpr ⟨defs, hdefs,
      Except.bind_eq_ok.mpr ⟨rows, hrows, Except.bind_eq_ok.mpr ⟨aggs, haggs,
        Except.bind_eq_ok.mpr ⟨keys, hkeys, rfl⟩⟩⟩⟩⟩⟩
  have hq : ∃ q, backfillSql view = .ok q :=
    ⟨_, Except.bind_eq_ok.mpr ⟨_, hstorage, Except.bind_eq_ok.mpr ⟨groupBy, hgroupBy,
      Except.bind_eq_ok.mpr ⟨srcSchema, hsrcSchema, Except.bind_eq_ok.mpr ⟨srcTable, hsrcTable,
        Except.bind_eq_ok.mpr ⟨_, htarget, Except.bind_eq_ok.mpr ⟨columns, hcolumns, rfl⟩⟩⟩⟩⟩⟩⟩
  have hplan : ∃ plan, buildPlan view = .ok plan :=
    ⟨_, Except.bind_eq_ok.mpr ⟨_, hstorage, Except.bind_eq_ok.mpr ⟨_, htarget,
      Except.bind_eq_ok.mpr ⟨updates, hupdates, Except.bind_eq_ok.mpr ⟨keys, hkeys,
        Except.bind_eq_ok.mpr ⟨columns, hcolumns, rfl⟩⟩⟩⟩⟩⟩
  obtain ⟨ddl, hddl⟩ := hddl
  obtain ⟨q, hq⟩ := hq
  obtain ⟨plan, hplan⟩ := hplan
  exact ⟨ddl, q, plan, hddl, hq, hplan⟩

end WalFlux.Aggregates
