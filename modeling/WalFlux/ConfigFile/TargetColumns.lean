import WalFlux.ConfigFile.Accepted

/-! The columns of the target tables of an accepted configuration, and the names its checks let
through although two columns clash or a derived name is no identifier. -/

namespace WalFlux.ConfigFile

open Aggregates Sql Python

/-! ### The columns a table definition places -/

def placedColumns : Ddl → List ColumnDef
  | .createTable _ columns => columns
  | _ => []

def createdColumns (ddl : List Ddl) : List Ident := (ddl.flatMap placedColumns).map ColumnDef.name

def aggNames (agg : AggSpec) : List String := storageNames agg ++ shownNames agg

def targetNames (view : ViewSpec) : List String :=
  keyColumns view ++ rowsColumn :: view.aggregates.flatMap aggNames

theorem aggDefs_names {agg : AggSpec} {defs : List ColumnDef} (h : aggDefs agg = .ok defs) :
    defs.map (Ident.name ∘ ColumnDef.name) = aggNames agg := by
  obtain ⟨stored, shown, rfl, hplain, -, hshown⟩ := aggDefs_plain h
  rw [List.map_append, hplain.names, hshown, aggNames]

theorem targetDdl_names {view : ViewSpec} {types : Dict String String} {ddl : List Ddl}
    (h : targetDdl view types = .ok ddl) :
    (createdColumns ddl).map Ident.name = targetNames view := by
  obtain ⟨table, -, h⟩ := Except.bind_eq_ok.mp h
  obtain ⟨keys, hkeys, h⟩ := Except.bind_eq_ok.mp h
  obtain ⟨rows, hrows, h⟩ := Except.bind_eq_ok.mp h
  obtain ⟨aggs, haggs, h⟩ := Except.bind_eq_ok.mp h
  obtain ⟨index, -, h⟩ := Except.bind_eq_ok.mp h
  cases Except.pure_eq_ok.mp h
  have hcreated : createdColumns [.dropTable table,
      .createTable table (keys ++ .stored rows .bigint :: aggs.flatten),
      .createUniqueIndex table index] =
        (keys ++ .stored rows .bigint :: aggs.flatten).map ColumnDef.name :=
    congrArg (List.map ColumnDef.name) (List.append_nil _)
  have haggs : aggs.flatten.map (Ident.name ∘ ColumnDef.name) =
      view.aggregates.flatMap aggNames := by
    rw [List.map_flatten, List.flatMap_def]
    exact congrArg List.flatten
      ((Except.mapM_eq_ok.mp haggs).map_eq fun agg defs hdefs => (aggDefs_names hdefs).symm).symm
  rw [hcreated, List.map_map, List.map_append, (keyDefs_plain hkeys).names, List.map_cons, haggs,
    targetNames]
  exact congrArg (_ ++ ·) (congrArg (· :: _) (quoteIdent_ok hrows))

theorem mem_aggNames {agg : AggSpec} {c : String} : c ∈ aggNames agg ↔
    c = agg.as ∨ agg.fn ≠ .count ∧ (c = agg.as ++ "__sum" ∨ c = agg.as ++ "__nn") := by
  unfold aggNames storageNames shownNames
  cases agg.fn <;> simp [or_assoc, or_comm]

/-! ### Distinct names -/

theorem append_suffix_ne {name base suffix : String} (h : ¬ suffix.toList <:+ name.toList) :
    name ≠ base ++ suffix := by
  rintro rfl
  rw [String.toList_append] at h
  exact h (List.suffix_append _ _)

theorem sum_ne_nn (a b : String) : a ++ "__sum" ≠ b ++ "__nn" := by
  intro h
  have hlast := congrArg (fun s => s.toList.getLast?) h
  simp only [String.toList_append] at hlast
  rw [List.getLast?_append_of_ne_nil _ (by decide), List.getLast?_append_of_ne_nil _ (by decide)]
    at hlast
  revert hlast
  decide

theorem append_cancel {a b suffix : String} (h : a ++ suffix = b ++ suffix) : a = b := by
  have hlist := congrArg String.toList h
  rw [String.toList_append, String.toList_append, List.append_left_inj] at hlist
  exact String.toList_injective hlist

variable {view : ViewSpec} {groupBy : List String} {agg agg' : AggSpec} {c : String}

theorem AcceptedAgg.ne_sum (h : AcceptedAgg groupBy agg) (base : String) :
    agg.as ≠ base ++ "__sum" :=
  append_suffix_ne (h.as_suffix "__sum" (by decide))

theorem AcceptedAgg.ne_nn (h : AcceptedAgg groupBy agg) (base : String) : agg.as ≠ base ++ "__nn" :=
  append_suffix_ne (h.as_suffix "__nn" (by decide))

theorem AcceptedAgg.as_eq (h : AcceptedAgg groupBy agg) (h' : AcceptedAgg groupBy agg')
    (hc : c ∈ aggNames agg) (hc' : c ∈ aggNames agg') : agg.as = agg'.as := by
  rcases mem_aggNames.mp hc with rfl | ⟨-, rfl | rfl⟩
  · rcases mem_aggNames.mp hc' with heq | ⟨-, heq | heq⟩
    · exact heq
    · exact absurd heq (h.ne_sum _)
    · exact absurd heq (h.ne_nn _)
  · rcases mem_aggNames.mp hc' with heq | ⟨-, heq | heq⟩
    · exact absurd heq.symm (h'.ne_sum _)
    · exact append_cancel heq
    · exact absurd heq (sum_ne_nn _ _)
  · rcases mem_aggNames.mp hc' with heq | ⟨-, heq | heq⟩
    · exact absurd heq.symm (h'.ne_nn _)
    · exact absurd heq.symm (sum_ne_nn _ _)
    · exact append_cancel heq

theorem AcceptedAgg.nodup_names (h : AcceptedAgg groupBy agg) : (aggNames agg).Nodup := by
  unfold aggNames storageNames shownNames
  have hsum := (h.ne_sum agg.as).symm
  have hnn := (h.ne_nn agg.as).symm
  have hne := sum_ne_nn agg.as agg.as
  cases agg.fn <;> simp [hsum, hnn, hne]

/-- No group column is a storage column, and no alias the key of a global view. -/
structure NoClash (view : ViewSpec) : Prop where
  groupBy : ∀ agg ∈ view.aggregates, agg.fn ≠ .count →
    agg.as ++ "__sum" ∉ view.groupBy ∧ agg.as ++ "__nn" ∉ view.groupBy
  globalKey : view.groupBy = [] → ∀ agg ∈ view.aggregates, agg.as ≠ globalKeyColumn

theorem AcceptedView.rows_notMem (h : AcceptedView view) :
    rowsColumn ∉ view.aggregates.flatMap aggNames := by
  intro hmem
  obtain ⟨agg, hagg, hmem⟩ := List.mem_flatMap.mp hmem
  rcases mem_aggNames.mp hmem with heq | ⟨-, heq | heq⟩
  · exact (h.aggregates agg hagg).as_ne_rows heq.symm
  · exact append_suffix_ne (by decide) heq
  · exact append_suffix_ne (by decide) heq

theorem AcceptedView.nodup_aggNames (h : AcceptedView view) :
    (view.aggregates.flatMap aggNames).Nodup := by
  refine List.nodup_flatMap.mpr ⟨fun agg hagg => (h.aggregates agg hagg).nodup_names, ?_⟩
  refine (List.pairwise_map.mp h.nodup_aliases).imp_of_mem fun {a b} ha hb hne c hca hcb => ?_
  exact hne ((h.aggregates a ha).as_eq (h.aggregates b hb) hca hcb)

theorem AcceptedView.keys_disjoint_iff (h : AcceptedView view) :
    (∀ c ∈ keyColumns view, c ∉ view.aggregates.flatMap aggNames) ↔ NoClash view := by
  unfold keyColumns
  constructor
  · intro hdisjoint
    refine ⟨fun agg hagg hfn => ⟨fun hc => ?_, fun hc => ?_⟩, fun hg agg hagg heq => ?_⟩
    · rw [if_pos (List.ne_nil_of_mem hc)] at hdisjoint
      exact hdisjoint _ hc (List.mem_flatMap.mpr ⟨agg, hagg,
        mem_aggNames.mpr (.inr ⟨hfn, .inl rfl⟩)⟩)
    · rw [if_pos (List.ne_nil_of_mem hc)] at hdisjoint
      exact hdisjoint _ hc (List.mem_flatMap.mpr ⟨agg, hagg,
        mem_aggNames.mpr (.inr ⟨hfn, .inr rfl⟩)⟩)
    · rw [if_neg (not_not.mpr hg), List.forall_mem_singleton] at hdisjoint
      exact hdisjoint (List.mem_flatMap.mpr ⟨agg, hagg, mem_aggNames.mpr (.inl heq.symm)⟩)
  · intro hclear c hc hmem
    obtain ⟨agg, hagg, hmem⟩ := List.mem_flatMap.mp hmem
    split_ifs at hc with hg
    · rcases mem_aggNames.mp hmem with rfl | ⟨hfn, rfl | rfl⟩
      · exact (h.aggregates agg hagg).as_notMem hc
      · exact (hclear.groupBy agg hagg hfn).1 hc
      · exact (hclear.groupBy agg hagg hfn).2 hc
    · rw [List.mem_singleton] at hc
      subst hc
      rcases mem_aggNames.mp hmem with heq | ⟨-, heq | heq⟩
      · exact hclear.globalKey (not_not.mp hg) agg hagg heq.symm
      · exact append_suffix_ne (by decide) heq
      · exact append_suffix_ne (by decide) heq

theorem AcceptedView.nodup_keys (h : AcceptedView view) : (keyColumns view).Nodup := by
  unfold keyColumns
  split_ifs
  · exact h.nodup_groupBy
  · exact List.nodup_singleton _

theorem AcceptedView.rows_ne_key (h : AcceptedView view) : rowsColumn ∉ keyColumns view := by
  unfold keyColumns
  split_ifs
  · exact fun hmem => (h.groupBy _ hmem).2 rfl
  · decide

theorem AcceptedView.nodup_iff (h : AcceptedView view) : (targetNames view).Nodup ↔
    NoClash view := by
  rw [← h.keys_disjoint_iff, targetNames, List.nodup_append']
  constructor
  · rintro ⟨-, -, hdisjoint⟩ c hc hmem
    exact hdisjoint hc (List.mem_cons_of_mem _ hmem)
  · intro hdisjoint
    refine ⟨h.nodup_keys, List.nodup_cons.mpr ⟨h.rows_notMem, h.nodup_aggNames⟩,
      fun c hc hmem => ?_⟩
    rcases List.mem_cons.mp hmem with rfl | hmem
    · exact h.rows_ne_key hc
    · exact hdisjoint c hc hmem

/-! ### Identifiers -/

theorem reservedSuffixes_chars : ∀ s ∈ reservedSuffixes, s.toList ≠ [] ∧
    s.toList.all identChar = true ∧ s.utf8ByteSize ≤ storageSuffixBytes := by
  decide

theorem AcceptedAgg.quotable_append (h : AcceptedAgg groupBy agg) (hfn : agg.fn ≠ .count)
    {suffix : String} (hsuffix : suffix ∈ reservedSuffixes) :
    Quotable (agg.as ++ suffix) ↔ ¬ EndsInNewline agg.as := by
  have hre := (quotable_iff.mp h.as_quotable).1
  obtain ⟨hne, hident, hsize⟩ := reservedSuffixes_chars suffix hsuffix
  rw [quotable_iff, identRe_append_iff hre hne (List.all_eq_true.mp hident), and_iff_left_iff_imp]
  intro _
  rw [String.utf8ByteSize_append]
  exact (Nat.add_le_add_left hsize _).trans (h.as_room hfn)

theorem storageNames_eq (hfn : agg.fn ≠ .count) :
    storageNames agg = [agg.as ++ "__sum", agg.as ++ "__nn"] := by
  unfold storageNames
  split
  · contradiction
  · rfl

theorem AcceptedAgg.quotable_iff (h : AcceptedAgg groupBy agg) :
    (∀ name ∈ agg.as :: storageNames agg, Quotable name) ↔
      (agg.fn ≠ .count → ¬ EndsInNewline agg.as) := by
  constructor
  · intro hnames hfn
    rw [storageNames_eq hfn] at hnames
    have hsuffix : "__sum" ∈ reservedSuffixes := by decide
    refine (h.quotable_append hfn hsuffix).mp (hnames _ ?_)
    exact List.mem_cons_of_mem _ List.mem_cons_self
  · intro hend
    refine List.forall_mem_cons.mpr ⟨h.as_quotable, ?_⟩
    by_cases hfn : agg.fn = .count
    · rw [storageNames, hfn]
      exact List.forall_mem_singleton.mpr h.as_quotable
    · rw [storageNames_eq hfn]
      refine List.forall_mem_cons.mpr ⟨?_, List.forall_mem_singleton.mpr ?_⟩
      · exact (h.quotable_append hfn (by decide)).mpr (hend hfn)
      · exact (h.quotable_append hfn (by decide)).mpr (hend hfn)

theorem AcceptedView.words_iff (h : AcceptedView view) : (∀ name ∈ targetNames view, Word name) ↔
    ∀ name ∈ view.groupBy ++ view.aggregates.map AggSpec.as, ¬ EndsInNewline name := by
  constructor
  · intro hwords name hname
    refine (hwords name ?_).not_endsInNewline
    rcases List.mem_append.mp hname with hgroup | has
    · refine List.mem_append_left _ ?_
      rw [keyColumns, if_pos (List.ne_nil_of_mem hgroup)]
      exact hgroup
    · obtain ⟨agg, hagg, rfl⟩ := List.mem_map.mp has
      refine List.mem_append_right _ (List.mem_cons_of_mem _ (List.mem_flatMap.mpr ⟨agg, hagg, ?_⟩))
      exact mem_aggNames.mpr (.inl rfl)
  · intro hend
    obtain ⟨hgroup, haliases⟩ := List.forall_mem_append.mp hend
    refine List.forall_mem_append.mpr ⟨?_, List.forall_mem_cons.mpr ⟨?_, fun c hc => ?_⟩⟩
    · unfold keyColumns
      split_ifs
      · intro c hc
        exact (word_iff (quotable_iff.mp (h.groupBy c hc).1).1).mpr (hgroup c hc)
      · exact List.forall_mem_singleton.mpr ((word_iff (by decide)).mpr (by decide))
    · exact (word_iff (by decide)).mpr (by decide)
    · obtain ⟨agg, hagg, hc⟩ := List.mem_flatMap.mp hc
      have has : Word agg.as := (word_iff (quotable_iff.mp
        (h.aggregates agg hagg).as_quotable).1).mpr
        (haliases _ (List.mem_map_of_mem hagg))
      rcases mem_aggNames.mp hc with rfl | ⟨-, rfl | rfl⟩
      · exact has
      · exact has.append (List.all_eq_true.mp (reservedSuffixes_chars "__sum" (by decide)).2.1)
      · exact has.append (List.all_eq_true.mp (reservedSuffixes_chars "__nn" (by decide)).2.1)

/-! ### The generators -/

/-- Every statement of the view is generated and none names a column twice. -/
structure TargetFor (view : ViewSpec) (types : Dict String String) (ddl : List Ddl)
    (q : InsertSelect) (plan : Plan) : Prop where
  ddl_ok : targetDdl view types = .ok ddl
  backfill_ok : backfillSql view = .ok q
  plan_ok : buildPlan view = .ok plan
  created : (createdColumns ddl).Nodup
  backfilled : q.columns.Nodup
  upserted : plan.upsert.columns.Nodup

def NamesOnce (view : ViewSpec) (types : Dict String String) : Prop :=
  ∃ ddl q plan, TargetFor view types ddl q plan

def WellFormedTarget (view : ViewSpec) (types : Dict String String) : Prop :=
  ∃ ddl q plan, TargetFor view types ddl q plan ∧
    ∀ i ∈ createdColumns ddl, Word i.name ∧ i.name.utf8ByteSize ≤ maxIdentBytes

theorem AcceptedView.valid (h : AcceptedView view) {types : Dict String String}
    (htypes : ∀ c ∈ view.groupBy, (Dict.get? types c).isSome)
    (hend : ∀ agg ∈ view.aggregates, agg.fn ≠ .count → ¬ EndsInNewline agg.as) :
    ValidView view types where
  names := by
    change ∀ name ∈ [view.name, view.sourceSchema, view.sourceTable] ++ view.groupBy, Quotable name
    exact List.forall_mem_append.mpr ⟨h.names, fun c hc => (h.groupBy c hc).1⟩
  types := htypes
  aliases agg hagg := (h.aggregates agg hagg).quotable_iff.mpr (hend agg hagg)
  columns agg hagg := (h.aggregates agg hagg).column_quotable
  hasColumn agg hagg := (h.aggregates agg hagg).column_isSome

theorem nodup_names_iff {ddl : List Ddl} {types : Dict String String}
    (hddl : targetDdl view types = .ok ddl) :
    (createdColumns ddl).Nodup ↔ (targetNames view).Nodup := by
  rw [← targetDdl_names hddl, List.nodup_map_iff fun _ _ => Ident.ext]

theorem TargetFor.not_endsInNewline {types : Dict String String} {ddl : List Ddl} {q : InsertSelect}
    {plan : Plan} (h : TargetFor view types ddl q plan) (hview : AcceptedView view) :
    ∀ agg ∈ view.aggregates, agg.fn ≠ .count → ¬ EndsInNewline agg.as := by
  intro agg hagg
  refine (hview.aggregates agg hagg).quotable_iff.mp (List.forall_mem_cons.mpr
    ⟨(hview.aggregates agg hagg).as_quotable, fun name hname => ?_⟩)
  -- a storage column of the table is an identifier
  have hmem : name ∈ targetNames view := List.mem_append_right _ (List.mem_cons_of_mem _
    (List.mem_flatMap.mpr ⟨agg, hagg, List.mem_append_left _ hname⟩))
  rw [← targetDdl_names h.ddl_ok] at hmem
  obtain ⟨i, -, rfl⟩ := List.mem_map.mp hmem
  exact ConfigFile.quotable_iff.mpr i.accepted

theorem storedColumns_sublist (defs : List ColumnDef) :
    List.Sublist (storedColumns defs) (defs.map ColumnDef.name) := by
  induction defs with
  | nil => exact .slnil
  | cons d defs ih =>
    cases d with
    | stored name type => exact ih.cons_cons name
    | generated name total nn average => exact ih.cons name

theorem targetFor {types : Dict String String} {ddl : List Ddl} {q : InsertSelect} {plan : Plan}
    (hddl : targetDdl view types = .ok ddl) (hq : backfillSql view = .ok q)
    (hplan : buildPlan view = .ok plan) (hnodup : (targetNames view).Nodup) :
    TargetFor view types ddl q plan := by
  have hcreated := (nodup_names_iff hddl).mpr hnodup
  have hagree := statements_agree hddl hq hplan
  obtain ⟨defs, rfl, hstored⟩ := hagree.ddl_eq
  have hupsert : plan.upsert.columns.Nodup := by
    rw [← hstored]
    refine (storedColumns_sublist defs).nodup ?_
    rw [createdColumns] at hcreated
    simpa only [List.flatMap_cons, List.flatMap_nil, placedColumns, List.nil_append,
      List.append_nil] using hcreated
  exact ⟨hddl, hq, hplan, hcreated, hagree.columns_eq ▸ hupsert, hupsert⟩

theorem AcceptedView.namesOnce_iff (h : AcceptedView view) {types : Dict String String}
    (htypes : ∀ c ∈ view.groupBy, (Dict.get? types c).isSome) : NamesOnce view types ↔
      NoClash view ∧ ∀ agg ∈ view.aggregates, agg.fn ≠ .count → ¬ EndsInNewline agg.as := by
  constructor
  · rintro ⟨ddl, q, plan, ht⟩
    exact ⟨h.nodup_iff.mp ((nodup_names_iff ht.ddl_ok).mp ht.created), ht.not_endsInNewline h⟩
  · rintro ⟨hclear, hend⟩
    obtain ⟨ddl, q, plan, hddl, hq, hplan⟩ := generators_succeed (h.valid htypes hend)
    exact ⟨ddl, q, plan, targetFor hddl hq hplan (h.nodup_iff.mpr hclear)⟩

/-- For a view of an accepted configuration the target table is well formed exactly when no group
column is a storage column, no alias is the key of a global view, and no group column and no alias
ends in a line feed. Identifiers in the sense of `quote_ident` are enough for the statements: there
the line feed only matters after an alias that is extended. -/
theorem wellFormedTarget_iff {path : String} {env : Option String} {opened : Opened}
    {config : LoadedConfig} (hload : loadConfig path env opened = .ok config) {view : ViewSpec}
    (hview : view ∈ config.views) {types : Dict String String}
    (htypes : ∀ c ∈ view.groupBy, (Dict.get? types c).isSome) :
    (WellFormedTarget view types ↔ NoClash view ∧
      ∀ name ∈ view.groupBy ++ view.aggregates.map AggSpec.as, ¬ EndsInNewline name) ∧
    (NamesOnce view types ↔ NoClash view ∧
      ∀ agg ∈ view.aggregates, agg.fn ≠ .count → ¬ EndsInNewline agg.as) := by
  have h := (loadConfig_accepted hload).1 view hview
  refine ⟨?_, h.namesOnce_iff htypes⟩
  rw [← h.words_iff]
  constructor
  · rintro ⟨ddl, q, plan, ht, hwords⟩
    refine ⟨h.nodup_iff.mp ((nodup_names_iff ht.ddl_ok).mp ht.created), fun name hname => ?_⟩
    rw [← targetDdl_names ht.ddl_ok] at hname
    obtain ⟨i, hi, rfl⟩ := List.mem_map.mp hname
    exact (hwords i hi).1
  · rintro ⟨hclear, hwords⟩
    have hend := List.forall_mem_append.mp (h.words_iff.mp hwords)
    obtain ⟨ddl, q, plan, ht⟩ := (h.namesOnce_iff htypes).mpr
      ⟨hclear, fun agg hagg _ => hend.2 agg.as (List.mem_map_of_mem hagg)⟩
    refine ⟨ddl, q, plan, ht, fun i hi => ⟨hwords i.name ?_, i.accepted.2⟩⟩
    rw [← targetDdl_names ht.ddl_ok]
    exact List.mem_map_of_mem hi

/-! ### A group column named as a storage column -/

def aggDoc (fn column as : String) : Doc :=
  .dict [(.str "fn", .str fn), (.str "column", .str column), (.str "as", .str as)]

def viewDoc (name source : String) (groupBy : List String) (aggs : List Doc) : Doc :=
  .dict [(.str "name", .str name), (.str "source", .str source),
    (.str "group_by", .list (groupBy.map .str)), (.str "aggregates", .list aggs)]

def configDoc (views : List Doc) : Doc :=
  .dict [(.str "database", .dict [(.str "dsn", .str "postgresql://localhost/shop")]),
    (.str "views", .list views)]

def clashingDoc : Doc :=
  configDoc [viewDoc "totals" "orders" ["paid__sum"] [aggDoc "sum" "amount" "paid"]]

def clashingView : ViewSpec :=
  ⟨"totals", "public", "orders", ["paid__sum"], [⟨.sum, some "amount", "paid"⟩]⟩

theorem clashingDoc_loads : (loadConfig "walflux.yaml" none (.doc clashingDoc)).map
    (·.views) = .ok [clashingView] := by
  decide +kernel

theorem accepted_columns_clash : ∃ config, loadConfig "walflux.yaml" none
    (.doc clashingDoc) = .ok config ∧
    ∃ view ∈ config.views, (∃ ddl, targetDdl view [("paid__sum", "text")] = .ok ddl ∧
      (createdColumns ddl).map Ident.name = ["paid__sum", rowsColumn, "paid__sum",
        "paid__nn", "paid"]) ∧
      ¬ WellFormedTarget view [("paid__sum", "text")] := by
  obtain ⟨config, hload, hviews⟩ := Except.map_eq_ok.mp clashingDoc_loads
  obtain ⟨ddl, hddl⟩ : ∃ ddl, targetDdl clashingView [("paid__sum", "text")] = .ok ddl :=
    Except.exists_of_isOk (by decide +kernel)
  refine ⟨config, hload, clashingView, hviews ▸ List.mem_singleton_self _, ?_, ?_⟩
  · exact ⟨ddl, hddl, targetDdl_names hddl⟩
  · rintro ⟨ddl, q, plan, ht, -⟩
    have hnodup := (nodup_names_iff ht.ddl_ok).mp ht.created
    revert hnodup
    decide

def shopDoc : Doc :=
  configDoc [viewDoc "totals" "orders" ["status"] [aggDoc "sum" "amount" "paid"]]

def shopView : ViewSpec :=
  ⟨"totals", "public", "orders", ["status"], [⟨.sum, some "amount", "paid"⟩]⟩

theorem shopDoc_loads : (loadConfig "walflux.yaml" none (.doc shopDoc)).map (·.views) =
    .ok [shopView] := by
  decide +kernel

theorem wellFormedTarget_shop : WellFormedTarget shopView [("status", "text")] := by
  obtain ⟨config, hload, hviews⟩ := Except.map_eq_ok.mp shopDoc_loads
  have hview : shopView ∈ config.views := hviews ▸ List.mem_singleton_self _
  refine (wellFormedTarget_iff hload hview (List.forall_mem_singleton.mpr rfl)).1.mpr ⟨⟨?_, ?_⟩, ?_⟩
  · decide
  · decide
  · decide

end WalFlux.ConfigFile
