import WalFlux.Aggregates.Plan
import WalFlux.Sql.Layout

/-! The target table of a view, as `setup` builds and fills it: its columns carry the plan's upsert,
and its rows are the grouped query over the source. -/

namespace WalFlux.Aggregates

open Sql Python

variable {F K : Type} (read : String → Value F → K)

def typeName (types : Dict String String) (c : String) : String := (Dict.get? types c).getD ""

def sqlKey (types : Dict String String) (view : ViewSpec) (row : Row F) : List (Cell K) :=
  if view.groupBy ≠ [] then view.groupBy.map fun c => .key (read (typeName types c) (row.value c))
  else [.flag true]

def grouping (types : Dict String String) (view : ViewSpec) :
    Grouping (Row F) (List (Cell K)) (ℕ → ℚ) :=
  ⟨sqlKey read types view, fun row i => ((slots view)[i]?.map (·.value row)).getD 0⟩

/-! ### The columns -/

def columnTypes (types : Dict String String) (view : ViewSpec) (storage : List Storage) :
    List ColumnType :=
  (if view.groupBy ≠ [] then view.groupBy.map fun c => .source
    (typeName types c) else [.boolean]) ++
    .bigint :: storage.map Storage.ddlType

def Declared (defs : List ColumnDef) (name : String) (type : ColumnType) : Prop :=
  ∃ i : Ident, i.name = name ∧ .stored i type ∈ defs

theorem Declared.mono {defs defs' : List ColumnDef} {name : String} {type : ColumnType}
    (h : Declared defs name type) (hs : defs ⊆ defs') : Declared defs' name type := by
  obtain ⟨i, hi, hmem⟩ := h
  exact ⟨i, hi, hs hmem⟩

theorem Declared.mem {defs : List ColumnDef} {c : Ident} {type : ColumnType}
    (h : Declared defs c.name type) : .stored c type ∈ defs := by
  obtain ⟨i, hi, hmem⟩ := h
  exact Ident.ext hi ▸ hmem

theorem typeOf_eq_some {t : Table K} (ht : (t.columns.map ColumnDef.name).Nodup) {c : Ident}
    {type : ColumnType} (h : .stored c type ∈ t.columns) : t.typeOf c = some type := by
  rw [Table.typeOf]
  generalize t.columns = defs at ht h
  induction defs with
  | nil => cases h
  | cons d defs ih =>
    rw [List.map_cons, List.nodup_cons] at ht
    rcases List.mem_cons.mp h with rfl | hmem
    · simp
    · have hne : d.name ≠ c := fun e =>
        ht.1 (List.mem_map.mpr ⟨_, hmem, e.symm⟩)
      rw [List.findSome?_cons]
      cases d with
      | stored name _ =>
        have hne : name ≠ c := hne
        simpa [hne] using ih ht.2 hmem
      | generated => simpa using ih ht.2 hmem

theorem keyDefs_declared {view : ViewSpec} {types : Dict String String} {defs : List ColumnDef}
    (h : keyDefs view types = .ok defs) :
    List.Forall₂ (Declared defs) (keyColumns view) (if view.groupBy ≠ [] then
      view.groupBy.map fun c => .source (typeName types c) else [.boolean]) := by
  rw [keyDefs] at h
  rw [keyColumns]
  split_ifs at h ⊢ with hg
  · rw [List.forall₂_map_right_iff, List.forall₂_same]
    intro c hc
    obtain ⟨d, hd, hcol⟩ := (Except.mapM_eq_ok.mp h).exists_of_mem_left hc
    cases htype : Dict.get? types c with
    | none =>
      rw [htype] at hcol
      cases hcol
    | some type =>
      rw [htype] at hcol
      obtain ⟨i, hi, hcol⟩ := Except.bind_eq_ok.mp hcol
      cases Except.pure_eq_ok.mp hcol
      refine ⟨i, quoteIdent_ok hi, ?_⟩
      rw [typeName, htype]
      exact hd
  · obtain ⟨i, hi, h⟩ := Except.bind_eq_ok.mp h
    cases Except.pure_eq_ok.mp h
    exact .cons ⟨i, quoteIdent_ok hi, List.mem_singleton_self _⟩ .nil

theorem aggDefs_declared {agg : AggSpec} {defs : List ColumnDef} (h : aggDefs agg = .ok defs)
    {storage : List Storage} (hs : aggStorage agg = .ok storage) :
    ∀ s ∈ storage, Declared defs s.name s.ddlType := by
  rw [aggDefs, hs] at h
  obtain ⟨_, ⟨⟩, h⟩ := Except.bind_eq_ok.mp h
  obtain ⟨stored, hstored, h⟩ := Except.bind_eq_ok.mp h
  have hmem : ∀ s ∈ storage, Declared stored s.name s.ddlType := by
    intro s hs
    obtain ⟨d, hd, hcol⟩ := (Except.mapM_eq_ok.mp hstored).exists_of_mem_left hs
    obtain ⟨i, hi, hcol⟩ := Except.bind_eq_ok.mp hcol
    cases Except.pure_eq_ok.mp hcol
    exact ⟨i, quoteIdent_ok hi, hd⟩
  split_ifs at h
  · cases Except.pure_eq_ok.mp h
    exact hmem
  · obtain ⟨total, -, h⟩ := Except.bind_eq_ok.mp h
    obtain ⟨nn, -, h⟩ := Except.bind_eq_ok.mp h
    obtain ⟨name, -, h⟩ := Except.bind_eq_ok.mp h
    cases Except.pure_eq_ok.mp h
    exact fun s hs => (hmem s hs).mono (List.subset_append_left _ _)

def ShownIn (columns : List ColumnDef) (agg : AggSpec) : Prop :=
  ∃ shown total nn : Ident, shown.name = agg.as ∧ total.name = agg.as ++ "__sum" ∧
    nn.name = agg.as ++ "__nn" ∧ .generated shown total nn (agg.fn = .avg) ∈ columns

theorem aggDefs_shown {agg : AggSpec} {defs : List ColumnDef} (h : aggDefs agg = .ok defs)
    (hfn : agg.fn ≠ .count) : ShownIn defs agg := by
  obtain ⟨storage, -, h⟩ := Except.bind_eq_ok.mp h
  obtain ⟨stored, -, h⟩ := Except.bind_eq_ok.mp h
  rw [if_neg hfn] at h
  obtain ⟨total, htotal, h⟩ := Except.bind_eq_ok.mp h
  obtain ⟨nn, hnn, h⟩ := Except.bind_eq_ok.mp h
  obtain ⟨shown, hshown, h⟩ := Except.bind_eq_ok.mp h
  cases Except.pure_eq_ok.mp h
  exact ⟨shown, total, nn, quoteIdent_ok hshown, quoteIdent_ok htotal, quoteIdent_ok hnn,
    List.mem_append_right _ (List.mem_singleton_self _)⟩

/-- What `target_ddl` leaves: an empty table with the unique index, a typed column for every column
of the upsert, and the generated columns. -/
theorem targetDdl_run {view : ViewSpec} {types : Dict String String} {plan : Plan}
    {storage : List Storage} (hp : PlanFor view plan storage) {ddl : List Ddl}
    (hddl : targetDdl view types = .ok ddl) {slot : Option (Table K)}
    (hrun : ddl.foldlM (fun t s => s.run t) none = .ok slot) :
    ∃ columns, slot = some ⟨columns, some plan.upsert.conflict, 0⟩ ∧
      (columns.map ColumnDef.name).Nodup ∧
      List.Forall₂ (fun c type => .stored c type ∈ columns) plan.upsert.columns
        (columnTypes types view storage) ∧
      ∀ agg ∈ view.aggregates, agg.fn ≠ .count → ShownIn columns agg := by
  obtain ⟨table, -, hddl⟩ := Except.bind_eq_ok.mp hddl
  obtain ⟨keys, hkeys, hddl⟩ := Except.bind_eq_ok.mp hddl
  obtain ⟨rows, hrows, hddl⟩ := Except.bind_eq_ok.mp hddl
  obtain ⟨aggs, haggs, hddl⟩ := Except.bind_eq_ok.mp hddl
  obtain ⟨index, hindex, hddl⟩ := Except.bind_eq_ok.mp hddl
  cases Except.pure_eq_ok.mp hddl
  have hconflict : index = plan.upsert.conflict :=
    map_name_injective ((mapM_quoteIdent hindex).trans hp.conflict_eq.symm)
  subst hconflict
  refine ⟨keys ++ .stored rows .bigint :: aggs.flatten, ?_⟩
  simp only [List.foldlM_cons, List.foldlM_nil, bind, Except.bind, Ddl.run] at hrun
  split_ifs at hrun with hnodup
  · simp only at hrun
    split_ifs at hrun with hindexed
    · refine ⟨(Except.ok.inj hrun).symm, hnodup, ?_, fun agg hagg hfn => ?_⟩
      swap
      · obtain ⟨defs, hdefs, hdok⟩ := (Except.mapM_eq_ok.mp haggs).exists_of_mem_left hagg
        obtain ⟨shown, total, nn, hs, ht, hn, hmem⟩ := aggDefs_shown hdok hfn
        exact ⟨shown, total, nn, hs, ht, hn, List.mem_append_right _
          (List.mem_cons_of_mem _ (List.mem_flatten.mpr ⟨defs, hdefs, hmem⟩))⟩
      -- the same aggregate makes the definition and the storage column
      have hdeclared : List.Forall₂ (Declared (keys ++ .stored rows .bigint :: aggs.flatten))
          (plan.upsert.columns.map Ident.name) (columnTypes types view storage) := by
        rw [hp.columns_eq, insertColumns, columnTypes]
        refine List.rel_append ((keyDefs_declared hkeys).imp fun _ _ h =>
          h.mono (List.subset_append_left _ _)) (.cons ?_ ?_)
        · exact ⟨rows, quoteIdent_ok hrows, by simp⟩
        · rw [List.forall₂_map_left_iff, List.forall₂_map_right_iff, List.forall₂_same]
          intro s hs
          obtain ⟨parts, hparts, hst⟩ := Except.bind_eq_ok.mp hp.storage_ok
          cases Except.pure_eq_ok.mp hst
          obtain ⟨part, hpart, hs⟩ := List.mem_flatten.mp hs
          obtain ⟨agg, hagg, hok⟩ := (Except.mapM_eq_ok.mp hparts).exists_of_mem_right hpart
          obtain ⟨defs, hdefs, hdok⟩ := (Except.mapM_eq_ok.mp haggs).exists_of_mem_left hagg
          refine (aggDefs_declared hdok hok s hs).mono fun d hd => ?_
          exact List.mem_append_right _ (List.mem_cons_of_mem _
            (List.mem_flatten.mpr ⟨defs, hdefs, hd⟩))
      exact (List.forall₂_map_left_iff.mp hdeclared).imp fun _ _ h => h.mem

/-! ### The layout -/

theorem PlanFor.columns_append {view : ViewSpec} {plan : Plan} {storage : List Storage}
    (h : PlanFor view plan storage) :
    plan.upsert.columns = plan.upsert.conflict ++ plan.upsert.updates := by
  refine map_name_injective ?_
  rw [List.map_append, h.columns_eq, h.conflict_eq, h.updates_eq, insertColumns]

structure TargetOf (types : Dict String String) (view : ViewSpec) (plan : Plan)
    (storage : List Storage) (t : Table K) : Prop where
  unique_eq : t.unique = some plan.upsert.conflict
  typeOf_eq : List.Forall₂ (fun c type => t.typeOf c = some type) plan.upsert.columns
    (columnTypes types view storage)
  nodup : (plan.upsert.conflict ++ plan.upsert.updates).Nodup
  nodup_names : (t.columns.map ColumnDef.name).Nodup
  shown : ∀ agg ∈ view.aggregates, agg.fn ≠ .count → ShownIn t.columns agg

structure BackfillFor (view : ViewSpec) (plan : Plan) (storage : List Storage) (q : InsertSelect) :
    Prop where
  columns_eq : q.columns = plan.upsert.columns
  groupBy_eq : q.groupBy.map Ident.name = view.groupBy
  exprs_eq : q.exprs = (if view.groupBy ≠ [] then q.groupBy.map .column else [.constTrue]) ++
    .countAll :: storage.map Storage.backfillExpr

theorem backfillSql_ok {view : ViewSpec} {plan : Plan} {storage : List Storage}
    (hp : PlanFor view plan storage) {q : InsertSelect} (h : backfillSql view = .ok q) :
    BackfillFor view plan storage q := by
  rw [backfillSql, hp.storage_ok] at h
  obtain ⟨_, ⟨⟩, h⟩ := Except.bind_eq_ok.mp h
  obtain ⟨groupBy, hg, h⟩ := Except.bind_eq_ok.mp h
  obtain ⟨schema, -, h⟩ := Except.bind_eq_ok.mp h
  obtain ⟨table, -, h⟩ := Except.bind_eq_ok.mp h
  obtain ⟨target, -, h⟩ := Except.bind_eq_ok.mp h
  obtain ⟨columns, hc, h⟩ := Except.bind_eq_ok.mp h
  cases Except.pure_eq_ok.mp h
  exact ⟨map_name_injective ((mapM_quoteIdent hc).trans hp.columns_eq.symm),
    mapM_quoteIdent hg, rfl⟩

def TargetOf.layout {types : Dict String String} {view : ViewSpec} {plan : Plan}
    {storage : List Storage} {t : Table K} (h : TargetOf types view plan storage t) : Layout :=
  ⟨plan.upsert.conflict, plan.upsert.updates, h.nodup⟩

/-! ### The rows -/

theorem eval_exprFor {slot : Slot} {e : SelectExpr} (h : ExprFor slot e)
    (key : List (Ident × Cell K)) (rows : Multiset (Row F)) :
    e.eval exactSum key rows = some (.num (rows.map (Slot.value · slot)).sum) := by
  have hcount : ∀ c : Ident, ((rows.filter fun r => isNull (valueAt r c) = false).card : ℚ) =
      (rows.map fun r : Row F => if isNull (r.value c.name) then (0 : ℚ) else 1).sum := by
    intro c
    induction rows using Multiset.induction_on with
    | empty => simp
    | cons r rows ih =>
      rw [Multiset.map_cons, Multiset.sum_cons, ← ih]
      by_cases hn : isNull (r.value c.name) = true
      · rw [Multiset.filter_cons_of_neg _ (by simpa [valueAt] using hn), if_pos hn, zero_add]
      · rw [Multiset.filter_cons_of_pos _ (by simpa [valueAt] using hn), if_neg hn,
          Multiset.card_cons, Nat.cast_succ, add_comm]
  cases h with
  | rows => simp [SelectExpr.eval, Slot.value]
  | countAll => simp [SelectExpr.eval, Slot.value]
  | count c => rw [SelectExpr.eval, hcount]; rfl
  | sum c =>
    change some (Cell.num ((rows.map fun r => valueAt r c).map _).sum) = _
    rw [Multiset.map_map]
    rfl
  | nonNull c => rw [SelectExpr.eval, hcount]; rfl

namespace PlanFor

variable {view : ViewSpec} {plan : Plan} {storage : List Storage}

theorem exprs (h : PlanFor view plan storage) :
    List.Forall₂ ExprFor (slots view) (.countAll :: storage.map Storage.backfillExpr) :=
  .cons .rows (List.forall₂_map_right_iff.mpr ((viewStorage_slots h.storage_ok).imp fun _ _ hs =>
    hs.expr))

theorem length_updates (h : PlanFor view plan storage) :
    plan.upsert.updates.length = (slots view).length := by
  have hlen := congrArg List.length h.updates_eq
  rw [List.length_map] at hlen
  rw [hlen, h.exprs.length_eq, List.length_cons, List.length_cons, List.length_map, List.length_map]

theorem length_sqlKey (h : PlanFor view plan storage) (types : Dict String String) (row : Row F) :
    (sqlKey read types view row).length = plan.upsert.conflict.length := by
  have hlen := congrArg List.length h.conflict_eq
  rw [List.length_map] at hlen
  rw [hlen, sqlKey, keyColumns]
  split_ifs <;> simp

end PlanFor

theorem weight_sum_apply (types : Dict String String) (view : ViewSpec)
    (rows : Multiset (Row F)) {i : ℕ} (hi : i < (slots view).length) :
    (rows.map (grouping read types view).weight).sum i =
      (rows.map (Slot.value · (slots view)[i])).sum := by
  rw [Pi.multiset_sum_apply, Multiset.map_map]
  refine congrArg Multiset.sum (Multiset.map_congr rfl fun r _ => ?_)
  simp [grouping, List.getElem?_eq_getElem hi]

variable {types : Dict String String} {view : ViewSpec} {plan : Plan} {storage : List Storage}
  {q : InsertSelect} {t : Table K}

theorem row_eq (hp : PlanFor view plan storage) (hb : BackfillFor view plan storage q)
    (ht : TargetOf types view plan storage t) {k : List (Cell K)}
    (hk : k.length = plan.upsert.conflict.length)
    (hkey : view.groupBy = [] → k = [.flag true]) (rows : Multiset (Row F)) :
    mkRow q.columns (q.exprs.map (·.eval exactSum (q.groupBy.zip k) rows)) =
      ht.layout.row k (rows.map (grouping read types view).weight).sum := by
  rw [Layout.row, hb.columns_eq, hp.columns_append]
  refine congrArg (mkRow _) ?_
  rw [hb.exprs_eq, List.map_append, Layout.cells, List.map_append]
  refine congrArg₂ (· ++ ·) ?_ ?_
  · split_ifs with hg
    · have hgroup : q.groupBy = plan.upsert.conflict := by
        refine map_name_injective ?_
        rw [hb.groupBy_eq, hp.conflict_eq, keyColumns, if_pos hg]
      have hnodup : q.groupBy.Nodup := hgroup ▸ (List.nodup_append.mp ht.nodup).1
      refine List.ext_getElem (by simp [hgroup, hk]) fun i hi hi' => ?_
      simp only [List.length_map] at hi hi'
      simp only [List.getElem_map, SelectExpr.eval]
      exact lookup_zip hnodup hi hi'
    · rw [hkey (not_not.mp hg)]
      rfl
  · have hlen : ht.layout.numbers.length = (slots view).length := hp.length_updates
    rw [(hp.exprs.map_eq (f := fun slot => some (Cell.num (rows.map (Slot.value · slot)).sum))
      fun slot e h => (eval_exprFor h _ _).symm).symm, hlen, List.map_map]
    refine List.ext_getElem (by simp) fun i hi hi' => ?_
    simp only [List.length_map] at hi
    simp only [List.getElem_map, List.getElem_range, Function.comp_apply]
    rw [weight_sum_apply read types view rows hi]

theorem BackfillFor.slot_of_expr (hb : BackfillFor view plan storage q)
    (hp : PlanFor view plan storage) {c : Ident} (hc : .coalesceSum c ∈ q.exprs) :
    .sum c.name ∈ slots view := by
  rw [hb.exprs_eq] at hc
  rcases List.mem_append.mp hc with hc | hc
  · split_ifs at hc <;> simp at hc
  · obtain ⟨slot, hslot, hexpr⟩ := hp.exprs.exists_of_mem_right hc
    cases hexpr
    exact hslot

theorem keyCells_eq (hb : BackfillFor view plan storage q) (hg : view.groupBy ≠ []) :
    keyCells read types q.groupBy = sqlKey read types view := by
  funext row
  rw [keyCells, sqlKey, if_pos hg, ← hb.groupBy_eq, List.map_map]
  rfl

/-! ### Filling the table -/

variable [DecidableEq K]

/-- The table `target_ddl` creates, filled by `backfill_sql`. -/
def rebuiltBy (sum : SumOf F) (view : ViewSpec) (source : Source F) : Except Error (Table K) := do
  let ddl ← targetDdl view source.types
  match ← ddl.foldlM (fun t s => s.run t) none with
  | some t => (← backfillSql view).run sum read source t
  | none => .error (.database "relation does not exist")

def rebuilt (view : ViewSpec) (source : Source F) : Except Error (Table K) :=
  rebuiltBy read exactSum view source

/-- The query of the view: grouped, or a single row where there are no group columns. -/
def query (types : Dict String String) (view : ViewSpec) (S : Multiset (Row F)) :
    KeyedTable (List (Cell K)) (ℕ → ℚ) :=
  if h : view.groupBy ≠ [] then (grouping read types view).table S
  else (grouping read types view).pinned [.flag true] (fun _ => if_neg h) S

theorem query_value (view : ViewSpec) (S : Multiset (Row F)) :
    (query read types view S).value = (grouping read types view).sums S := by
  rw [query]
  split_ifs <;> rfl

theorem fills_query (hp : PlanFor view plan storage) (ht : TargetOf types view plan storage t)
    (S : Multiset (Row F)) : ht.layout.Fills (query read types view S) := by
  intro k hk
  have hrow : ∀ row : Row F, (sqlKey read types view row).length = ht.layout.keys.length :=
    hp.length_sqlKey read types
  rw [query] at hk
  split_ifs at hk with hg
  · obtain ⟨row, -, rfl⟩ := Multiset.mem_map.mp (Multiset.mem_toFinset.mp hk)
    exact hrow row
  · rw [Finset.mem_singleton.mp hk]
    have := hrow []
    rwa [sqlKey, if_neg hg] at this

theorem groups_eq (hp : PlanFor view plan storage) (hb : BackfillFor view plan storage q)
    (ht : TargetOf types view plan storage t) (S : Multiset (Row F)) :
    q.groups exactSum read ⟨types, S⟩ = ht.layout.rows (query read types view S) := by
  have hgroup : q.groupBy = [] ↔ view.groupBy = [] := by
    rw [← hb.groupBy_eq, List.map_eq_nil_iff]
  have hfill := fills_query read hp ht S
  rw [InsertSelect.groups, Layout.rows, query] at *
  by_cases hg : view.groupBy = []
  · rw [if_pos (hgroup.mpr hg), dif_neg (not_not.mpr hg)]
    rw [dif_neg (not_not.mpr hg)] at hfill
    have hzip : q.groupBy.zip ([] : List (Cell K)) = q.groupBy.zip [.flag true] := by
      rw [hgroup.mpr hg]
      rfl
    simp only [hzip]
    rw [row_eq read hp hb ht (hfill _ (Finset.mem_singleton_self _)) (fun _ => rfl)]
    refine congrArg (fun w => {ht.layout.row [.flag true] w}) ?_
    change _ = (grouping read types view).sums S [.flag true]
    rw [Grouping.sums_apply, Multiset.filter_eq_self.mpr]
    intro row _
    exact if_neg (not_not.mpr hg)
  · rw [if_neg (mt hgroup.mp hg), dif_pos hg]
    rw [dif_pos hg] at hfill
    rw [keyCells_eq read hb hg]
    change _ = Multiset.map _ (S.map (sqlKey read types view)).toFinset.val
    rw [Multiset.toFinset_val]
    refine Multiset.map_congr rfl fun k hk => ?_
    have hlen := hfill k (Multiset.mem_toFinset.mpr (Multiset.mem_dedup.mp hk))
    refine (row_eq read hp hb ht hlen (fun h => absurd h hg) _).trans ?_
    exact congrArg (ht.layout.row k) (Grouping.sums_apply _ S k).symm

theorem rebuilt_eq {view : ViewSpec} {plan : Plan} {storage : List Storage}
    (hp : PlanFor view plan storage) {types : Dict String String}
    {S : Multiset (Row F)} {t : Table K} (h : rebuilt read view ⟨types, S⟩ = .ok t) :
    ∃ q, BackfillFor view plan storage q ∧ TargetOf types view plan storage t ∧
      t.rows = q.groups exactSum read ⟨types, S⟩ ∧ q.Valid exactSum ⟨types, S⟩ (t.withRows 0) ∧
      ∀ S' : Multiset (Row F), rebuilt read view ⟨types, S'⟩ =
        q.run exactSum read ⟨types, S'⟩ (t.withRows 0) := by
  obtain ⟨ddl, hddl, h⟩ := Except.bind_eq_ok.mp h
  obtain ⟨slot, hslot, h⟩ := Except.bind_eq_ok.mp h
  obtain ⟨columns, rfl, hnodup, hcolumns, hshown⟩ := targetDdl_run hp hddl hslot
  obtain ⟨q, hq, h⟩ := Except.bind_eq_ok.mp h
  have hb := backfillSql_ok hp hq
  have hrebuilt : ∀ S' : Multiset (Row F), rebuilt read view ⟨types, S'⟩ =
      q.run exactSum read ⟨types, S'⟩ ⟨columns, some plan.upsert.conflict, 0⟩ := by
    intro S'
    rw [rebuilt, rebuiltBy, hddl]
    simp only [bind, Except.bind]
    rw [hslot]
    simp only [hq]
  rw [InsertSelect.run] at h
  split_ifs at h with hvalid
  cases h
  refine ⟨q, hb, ⟨rfl, hcolumns.imp fun _ _ h => typeOf_eq_some hnodup h, ?_, hnodup, hshown⟩,
    zero_add _, hvalid, hrebuilt⟩
  rw [← hp.columns_append, ← hb.columns_eq]
  exact hvalid.1.1

theorem slot_sum_mem {view : ViewSpec} {c : String} (h : Slot.sum c ∈ slots view) :
    ∃ agg ∈ view.aggregates, agg.fn ≠ .count ∧ agg.column = some c := by
  rcases List.mem_cons.mp h with h | h
  · cases h
  · obtain ⟨⟨fn, column, as⟩, hagg, hslot⟩ := List.mem_flatMap.mp h
    refine ⟨_, hagg, ?_⟩
    cases fn <;> cases column <;> simp_all [aggSlots]

def SumsNumbers (view : ViewSpec) (S : Multiset (Row F)) : Prop :=
  ∀ row ∈ S, ∀ c, Slot.sum c ∈ slots view →
    isNull (row.value c) = true ∨ (numberOf (row.value c)).isSome

theorem rebuilt_numeric (hp : PlanFor view plan storage) {S : Multiset (Row F)}
    (h : rebuilt read view ⟨types, S⟩ = .ok t) : SumsNumbers view S := by
  intro row hrow c hc
  obtain ⟨q, hb, -, -, hvalid, -⟩ := rebuilt_eq read hp h
  obtain ⟨e, he, hexpr⟩ := hp.exprs.exists_of_mem_left hc
  have hmem : e ∈ q.exprs := hb.exprs_eq ▸ List.mem_append_right _ he
  cases hexpr with
  | sum i => exact exactSum_takes.mp ((hvalid.2.2.1 _ hmem).2 row hrow)

theorem rebuilt_contents (hp : PlanFor view plan storage) {S S' : Multiset (Row F)}
    (h : rebuilt read view ⟨types, S⟩ = .ok t)
    (hS' : SumsNumbers view S') :
    ∃ ht : TargetOf types view plan storage t, t.rows = ht.layout.rows (query read types view S) ∧
      rebuilt read view ⟨types, S'⟩ =
        .ok (t.withRows (ht.layout.rows (query read types view S'))) := by
  obtain ⟨q, hb, ht, hrows, hvalid, hrebuilt⟩ := rebuilt_eq read hp h
  refine ⟨ht, hrows.trans (groups_eq read hp hb ht S), ?_⟩
  obtain ⟨haccepts, hlen, hdefined, hgroup⟩ := hvalid
  have hvalid' : q.Valid exactSum ⟨types, S'⟩ (t.withRows 0) := by
    refine ⟨haccepts, hlen, fun e he => ?_, hgroup⟩
    have hdef := hdefined e he
    cases e with
    | coalesceSum c => exact ⟨hdef.1, fun row hrow =>
        exactSum_takes.mpr (hS' row hrow c.name (hb.slot_of_expr hp he))⟩
    | _ => exact hdef
  have hdistinct : (t.withRows 0).Distinct (0 + q.groups exactSum read ⟨types, S'⟩) := by
    intro keys hkeys
    have hunique : t.unique = some keys := hkeys
    rw [ht.unique_eq, Option.some.injEq] at hunique
    rw [zero_add, groups_eq read hp hb ht, ← hunique]
    exact Layout.nodup_rows (fills_query read hp ht S')
  rw [hrebuilt, InsertSelect.run, if_pos hvalid']
  refine (if_pos hdistinct).trans ?_
  change Except.ok (t.withRows (0 + q.groups exactSum read ⟨types, S'⟩)) = _
  rw [zero_add, groups_eq read hp hb ht]

/-! ### Columns without floating point -/

omit [DecidableEq K] in
theorem eval_eq_exactSum (sum : SumOf F) (key : List (Ident × Cell K)) {rows : Multiset (Row F)}
    {e : SelectExpr} (h : ∀ c, e = .coalesceSum c → ∀ r ∈ rows,
      isNull (valueAt r c) = true ∨ (numberOf (valueAt r c)).isSome) :
    e.eval sum key rows = e.eval exactSum key rows := by
  cases e with
  | coalesceSum c =>
    have hnumbers : ∀ v ∈ rows.map fun r => valueAt r c, isNull v = true ∨ (numberOf v).isSome := by
      intro v hv
      obtain ⟨r, hr, rfl⟩ := Multiset.mem_map.mp hv
      exact h c rfl r hr
    exact congrArg (fun q => some (Cell.num q)) (sum.total_numbers _ hnumbers)
  | _ => rfl

/-- Every `sum` of a server agrees with the exact one where there are numbers only. -/
theorem run_eq_exactSum (sum : SumOf F) {source : Source F} {t : Table K}
    (h : ∀ c, .coalesceSum c ∈ q.exprs → ∀ r ∈ source.rows,
      isNull (valueAt r c) = true ∨ (numberOf (valueAt r c)).isSome) :
    q.run sum read source t = q.run exactSum read source t := by
  have hcells : ∀ (key : List (Ident × Cell K)) (rows : Multiset (Row F)), rows ≤ source.rows →
      q.exprs.map (·.eval sum key rows) = q.exprs.map (·.eval exactSum key rows) :=
    fun key rows hrows => List.map_congr_left fun e he => eval_eq_exactSum sum key fun c hc r hr =>
      h c (hc ▸ he) r (Multiset.mem_of_le hrows hr)
  have hgroups : q.groups sum read source = q.groups exactSum read source := by
    rw [InsertSelect.groups, InsertSelect.groups]
    split_ifs
    · exact congrArg (fun cells => ({mkRow q.columns cells} : Multiset (TableRow K)))
        (hcells _ _ le_rfl)
    · exact Multiset.map_congr rfl fun key _ =>
        congrArg (mkRow q.columns) (hcells _ _ (Multiset.filter_le _ _))
  have hdefined : ∀ e ∈ q.exprs, e.Defined sum source.types source.rows ↔
      e.Defined exactSum source.types source.rows := by
    intro e he
    cases e with
    | coalesceSum c =>
      refine and_congr_right fun _ => forall₂_congr fun r hr => ?_
      have hnumber := h c he r hr
      exact iff_of_true (sum.takes_number _ hnumber) (exactSum.takes_number _ hnumber)
    | _ => exact Iff.rfl
  have hvalid : q.Valid sum source t ↔ q.Valid exactSum source t :=
    and_congr_right fun _ => and_congr_right fun _ => and_congr_left fun _ => forall₂_congr hdefined
  rw [InsertSelect.run, InsertSelect.run, hgroups]
  exact if_congr hvalid rfl rfl

end WalFlux.Aggregates
