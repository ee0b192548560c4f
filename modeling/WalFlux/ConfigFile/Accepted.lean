import WalFlux.ConfigFile
import WalFlux.Identifiers
import WalFlux.Aggregates.Alignment

/-! What the views of an accepted configuration satisfy. -/

namespace WalFlux.ConfigFile

open Aggregates Python

theorem quotable_iff {name : String} :
    Quotable name ↔ identRe name = true ∧ name.utf8ByteSize ≤ maxIdentBytes := by
  constructor
  · rintro ⟨i, hi⟩
    rw [← quoteIdent_ok hi]
    exact i.accepted
  · intro h
    exact ⟨⟨name, h⟩, by rw [quoteIdent, dif_pos h]⟩

theorem showing_error {α : Type} (value : Doc) (message : String → String) :
    (showing value message : Except Error α) = .error .value ∧ value.repr = none ∨
      ∃ msg, (showing value message : Except Error α) = .error (.config msg) := by
  rw [showing]
  cases value.repr with
  | none => exact .inl ⟨rfl, rfl⟩
  | some text => exact .inr ⟨_, rfl⟩

theorem showing_ne_ok {α : Type} {value : Doc} {message : String → String} {a : α} :
    showing value message ≠ .ok a := by
  intro h
  obtain ⟨hshow, -⟩ | ⟨msg, hshow⟩ := showing_error (α := α) value message
  · cases h.symm.trans hshow
  · cases h.symm.trans hshow

theorem checkIdent_ok {value : Doc} {what s : String} (h : checkIdent value what = .ok s) :
    Quotable s := by
  unfold checkIdent at h
  split at h
  · split_ifs at h with hre hsize
    cases h
    exact quotable_iff.mpr ⟨Bool.eq_true_of_not_eq_false hre, not_lt.mp hsize⟩
  · exact absurd h showing_ne_ok

structure AcceptedAgg (groupBy : List String) (agg : AggSpec) : Prop where
  as_quotable : Quotable agg.as
  column_quotable : ∀ c, agg.column = some c → Quotable c
  column_isSome : agg.fn ≠ .count → agg.column.isSome
  as_notMem : agg.as ∉ groupBy
  as_ne_rows : agg.as ≠ rowsColumn
  as_suffix : ∀ suffix ∈ reservedSuffixes, ¬ suffix.toList <:+ agg.as.toList
  as_room : agg.fn ≠ .count → agg.as.utf8ByteSize + storageSuffixBytes ≤ maxIdentBytes

theorem parseColumn_ok {column : Doc} {viewName : String} {fn : AggFn} {as : String}
    {parsed : Option String} (h : parseColumn column viewName fn as = .ok parsed) :
    (∀ c, parsed = some c → Quotable c) ∧ (fn ≠ .count → parsed.isSome) := by
  unfold parseColumn at h
  split at h
  · split_ifs at h with hfn
    cases h
    exact ⟨fun c hc => (by cases hc), fun hne => absurd hne hfn⟩
  · obtain ⟨c, hc, h⟩ := Except.bind_eq_ok.mp h
    cases Except.pure_eq_ok.mp h
    refine ⟨?_, fun _ => rfl⟩
    rintro _ ⟨⟩
    exact checkIdent_ok hc

theorem checkAlias_ok {fn : AggFn} {as viewName : String} {groupBy seenAliases : List String}
    (h : checkAlias fn as viewName groupBy seenAliases = .ok ()) :
    as ∉ seenAliases ∧ as ∉ groupBy ∧ as ≠ rowsColumn ∧
      (∀ suffix ∈ reservedSuffixes, ¬ suffix.toList <:+ as.toList) ∧
      (fn ≠ .count → as.utf8ByteSize + storageSuffixBytes ≤ maxIdentBytes) := by
  unfold checkAlias at h
  split_ifs at h with hseen hgroup hreserved hroom
  rw [not_or, not_exists] at hreserved
  refine ⟨hseen, hgroup, hreserved.1, fun suffix hs hend => hreserved.2 suffix ⟨hs, hend⟩,
    fun hfn => ?_⟩
  exact not_lt.mp fun hlt => hroom ⟨hfn, hlt⟩

theorem parseAggregate_ok {raw : Doc} {viewName : String} {groupBy seenAliases : List String}
    {agg : AggSpec} (h : parseAggregate raw viewName groupBy seenAliases = .ok agg) :
    AcceptedAgg groupBy agg ∧ agg.as ∉ seenAliases := by
  obtain ⟨items, -, h⟩ := Except.bind_eq_ok.mp h
  obtain ⟨fnRaw, -, h⟩ := Except.bind_eq_ok.mp h
  obtain ⟨fn, -, h⟩ := Except.bind_eq_ok.mp h
  obtain ⟨asRaw, -, h⟩ := Except.bind_eq_ok.mp h
  obtain ⟨as, has, h⟩ := Except.bind_eq_ok.mp h
  obtain ⟨column, hcolumn, h⟩ := Except.bind_eq_ok.mp h
  obtain ⟨_, halias, h⟩ := Except.bind_eq_ok.mp h
  cases Except.pure_eq_ok.mp h
  obtain ⟨hquotable, hsome⟩ := parseColumn_ok hcolumn
  obtain ⟨hseen, hgroup, hrows, hsuffix, hroom⟩ := checkAlias_ok halias
  exact ⟨⟨checkIdent_ok has, hquotable, hsome, hgroup, hrows, hsuffix, hroom⟩, hseen⟩

theorem parseAggregates_ok {viewName : String} {groupBy : List String} {raws : List Doc}
    {seenAliases : List String} {aggs : List AggSpec}
    (h : parseAggregates viewName groupBy raws seenAliases = .ok aggs) :
    (∀ agg ∈ aggs, AcceptedAgg groupBy agg ∧ agg.as ∉ seenAliases) ∧
      (aggs.map AggSpec.as).Nodup := by
  induction raws generalizing seenAliases aggs with
  | nil =>
    cases h
    exact ⟨fun agg hagg => (by cases hagg), List.nodup_nil⟩
  | cons raw raws ih =>
    obtain ⟨agg, hagg, h⟩ := Except.bind_eq_ok.mp h
    obtain ⟨rest, hrest, h⟩ := Except.bind_eq_ok.mp h
    cases Except.pure_eq_ok.mp h
    obtain ⟨haccepted, hnodup⟩ := ih hrest
    refine ⟨List.forall_mem_cons.mpr ⟨parseAggregate_ok hagg, fun a ha => ?_⟩, ?_⟩
    · obtain ⟨hacc, hseen⟩ := haccepted a ha
      exact ⟨hacc, fun hmem => hseen (List.mem_cons_of_mem _ hmem)⟩
    · refine List.nodup_cons.mpr ⟨fun hmem => ?_, hnodup⟩
      obtain ⟨a, ha, heq⟩ := List.mem_map.mp hmem
      exact (haccepted a ha).2 (heq ▸ List.mem_cons_self)

/-! ### Views -/

structure AcceptedView (view : ViewSpec) : Prop where
  names : ∀ name ∈ [view.name, view.sourceSchema, view.sourceTable], Quotable name
  groupBy : ∀ c ∈ view.groupBy, Quotable c ∧ c ≠ rowsColumn
  nodup_groupBy : view.groupBy.Nodup
  aggregates : ∀ agg ∈ view.aggregates, AcceptedAgg view.groupBy agg
  nodup_aliases : (view.aggregates.map AggSpec.as).Nodup

theorem parseGroupBy_ok {viewName : String} {raws : List Doc} {groupBy cols : List String}
    (h : parseGroupBy viewName raws groupBy = .ok cols)
    (hgroup : ∀ c ∈ groupBy, Quotable c ∧ c ≠ rowsColumn) (hnodup : groupBy.Nodup) :
    (∀ c ∈ cols, Quotable c ∧ c ≠ rowsColumn) ∧ cols.Nodup := by
  induction raws generalizing groupBy with
  | nil =>
    cases h
    exact ⟨hgroup, hnodup⟩
  | cons raw raws ih =>
    obtain ⟨col, hcol, h⟩ := Except.bind_eq_ok.mp h
    split_ifs at h with hrows hmem
    refine ih h ?_ ?_
    · exact List.forall_mem_append.mpr ⟨hgroup, List.forall_mem_singleton.mpr
        ⟨checkIdent_ok hcol, hrows⟩⟩
    · rw [← List.concat_eq_append]
      exact hnodup.concat hmem

theorem parseSource_ok {value : Doc} {viewName : String} {source : String × String}
    (h : parseSource value viewName = .ok source) : Quotable source.1 ∧ Quotable source.2 := by
  obtain ⟨⟨schema, table⟩, -, h⟩ := Except.bind_eq_ok.mp h
  obtain ⟨schema, hschema, h⟩ := Except.bind_eq_ok.mp h
  obtain ⟨table, htable, h⟩ := Except.bind_eq_ok.mp h
  cases Except.pure_eq_ok.mp h
  exact ⟨checkIdent_ok hschema, checkIdent_ok htable⟩

theorem parseView_ok {raw : Doc} {seenNames : List String} {view : ViewSpec}
    (h : parseView raw seenNames = .ok view) : AcceptedView view ∧ view.name ∉ seenNames := by
  obtain ⟨items, -, h⟩ := Except.bind_eq_ok.mp h
  obtain ⟨nameRaw, -, h⟩ := Except.bind_eq_ok.mp h
  obtain ⟨name, hname, h⟩ := Except.bind_eq_ok.mp h
  split_ifs at h with hseen
  obtain ⟨sourceRaw, -, h⟩ := Except.bind_eq_ok.mp h
  obtain ⟨⟨schema, table⟩, hsource, h⟩ := Except.bind_eq_ok.mp h
  obtain ⟨groupByRaw, -, h⟩ := Except.bind_eq_ok.mp h
  obtain ⟨groupBy, hgroupBy, h⟩ := Except.bind_eq_ok.mp h
  obtain ⟨aggsRaw, -, h⟩ := Except.bind_eq_ok.mp h
  obtain ⟨aggregates, haggs, h⟩ := Except.bind_eq_ok.mp h
  cases Except.pure_eq_ok.mp h
  obtain ⟨hschema, htable⟩ := parseSource_ok hsource
  obtain ⟨hcols, hnodup⟩ := parseGroupBy_ok hgroupBy (fun c hc => by cases hc) List.nodup_nil
  obtain ⟨haccepted, haliases⟩ := parseAggregates_ok haggs
  refine ⟨⟨?_, hcols, hnodup, fun agg hagg => (haccepted agg hagg).1, haliases⟩, hseen⟩
  exact List.forall_mem_cons.mpr ⟨checkIdent_ok hname, List.forall_mem_cons.mpr ⟨hschema,
    List.forall_mem_singleton.mpr htable⟩⟩

theorem parseViews_ok {raws : List Doc} {seenNames : List String} {views : List ViewSpec}
    (h : parseViews raws seenNames = .ok views) :
    (∀ view ∈ views, AcceptedView view ∧ view.name ∉ seenNames) ∧
      (views.map ViewSpec.name).Nodup := by
  induction raws generalizing seenNames views with
  | nil =>
    cases h
    exact ⟨fun view hview => (by cases hview), List.nodup_nil⟩
  | cons raw raws ih =>
    obtain ⟨view, hview, h⟩ := Except.bind_eq_ok.mp h
    obtain ⟨rest, hrest, h⟩ := Except.bind_eq_ok.mp h
    cases Except.pure_eq_ok.mp h
    obtain ⟨haccepted, hnodup⟩ := ih hrest
    refine ⟨List.forall_mem_cons.mpr ⟨parseView_ok hview, fun v hv => ?_⟩, ?_⟩
    · obtain ⟨hacc, hseen⟩ := haccepted v hv
      exact ⟨hacc, fun hmem => hseen (List.mem_cons_of_mem _ hmem)⟩
    · refine List.nodup_cons.mpr ⟨fun hmem => ?_, hnodup⟩
      obtain ⟨v, hv, heq⟩ := List.mem_map.mp hmem
      exact (haccepted v hv).2 (heq ▸ List.mem_cons_self)

theorem optionalIdent_ok {value : Doc} {what default s : String} (hdefault : Quotable default)
    (h : optionalIdent value what default = .ok s) : Quotable s := by
  unfold optionalIdent at h
  split at h
  · cases h
    exact hdefault
  · exact checkIdent_ok h

structure AcceptedConfig (config : Config) : Prop where
  slot : Quotable config.slot
  publication : Quotable config.publication
  views : ∀ view ∈ config.views, AcceptedView view
  nodup_names : (config.views.map ViewSpec.name).Nodup

theorem loadConfig_ok {path : String} {env : Option String} {opened : Opened}
    {config : LoadedConfig} (h : loadConfig path env opened = .ok config) :
    AcceptedConfig config.toConfig := by
  obtain ⟨raw, -, h⟩ := Except.bind_eq_ok.mp h
  obtain ⟨doc, -, h⟩ := Except.bind_eq_ok.mp h
  obtain ⟨database, -, h⟩ := Except.bind_eq_ok.mp h
  obtain ⟨dsn, -, h⟩ := Except.bind_eq_ok.mp h
  obtain ⟨slot, hslot, h⟩ := Except.bind_eq_ok.mp h
  obtain ⟨publication, hpublication, h⟩ := Except.bind_eq_ok.mp h
  obtain ⟨batch, -, h⟩ := Except.bind_eq_ok.mp h
  obtain ⟨batchMaxMs, -, h⟩ := Except.bind_eq_ok.mp h
  obtain ⟨batchMaxTxns, -, h⟩ := Except.bind_eq_ok.mp h
  obtain ⟨rawViews, -, h⟩ := Except.bind_eq_ok.mp h
  obtain ⟨views, hviews, h⟩ := Except.bind_eq_ok.mp h
  cases Except.pure_eq_ok.mp h
  obtain ⟨haccepted, hnodup⟩ := parseViews_ok hviews
  have hdefault : Quotable "walflux" := ⟨_, rfl⟩
  exact ⟨optionalIdent_ok hdefault hslot, optionalIdent_ok hdefault hpublication,
    fun view hview => (haccepted view hview).1, hnodup⟩

theorem loadConfig_accepted {path : String} {env : Option String} {opened : Opened}
    {config : LoadedConfig} (h : loadConfig path env opened = .ok config) :
    (∀ view ∈ config.views, AcceptedView view) ∧ (config.views.map ViewSpec.name).Nodup :=
  ⟨(loadConfig_ok h).views, (loadConfig_ok h).nodup_names⟩

end WalFlux.ConfigFile
