import WalFlux.ConfigFile.TargetColumns
import WalFlux.Aggregates.Parameters
import WalFlux.Daemon.Relations

/-! The tables setup drops and the daemon writes, against the tables an accepted configuration
reads. -/

namespace WalFlux.ConfigFile

open Aggregates Sql Python

def tableKey (t : TableName) : String × String := (t.schema.name, t.name.name)

def checkpointKey : String × String := (targetSchema, "checkpoint")

def sourceKey (view : ViewSpec) : String × String := (view.sourceSchema, view.sourceTable)

def dropped : Ddl → Option TableName
  | .dropTable table => some table
  | _ => none

theorem targetDdl_dropped {view : ViewSpec} {types : Dict String String} {ddl : List Ddl}
    (h : targetDdl view types = .ok ddl) : ∃ t, target view = .ok t ∧
      ddl.filterMap dropped = [t] := by
  obtain ⟨table, htable, h⟩ := Except.bind_eq_ok.mp h
  obtain ⟨keys, -, h⟩ := Except.bind_eq_ok.mp h
  obtain ⟨rows, -, h⟩ := Except.bind_eq_ok.mp h
  obtain ⟨aggs, -, h⟩ := Except.bind_eq_ok.mp h
  obtain ⟨index, -, h⟩ := Except.bind_eq_ok.mp h
  cases Except.pure_eq_ok.mp h
  exact ⟨table, htable, rfl⟩

theorem target_key {view : ViewSpec} {t : TableName} (h : target view = .ok t) :
    tableKey t = (targetSchema, view.name) := by
  obtain ⟨schema, hschema, h⟩ := Except.bind_eq_ok.mp h
  obtain ⟨name, hname, h⟩ := Except.bind_eq_ok.mp h
  cases Except.pure_eq_ok.mp h
  exact congrArg₂ Prod.mk (quoteIdent_ok hschema) (quoteIdent_ok hname)

theorem AcceptedView.target_exists {view : ViewSpec} (h : AcceptedView view) :
    ∃ t, target view = .ok t := by
  obtain ⟨schema, hschema⟩ := quotable_reserved.1
  obtain ⟨name, hname⟩ := h.names view.name List.mem_cons_self
  exact ⟨_, Except.bind_eq_ok.mpr ⟨schema, hschema, Except.bind_eq_ok.mpr ⟨name, hname, rfl⟩⟩⟩

theorem statements_target {F : Type} [PyFloat F] {views : List ViewSpec} {ops : List (Op F)}
    {b : DeltaBatch F} (h : foldOps views ops = .ok b) :
    ∀ s ∈ b.statements, ∃ view ∈ views, target view = .ok s.table := by
  intro s hs
  obtain ⟨view, hview, plan, hbuild, hs⟩ := foldOps_statements h hs
  obtain ⟨storage, hfor⟩ := buildPlan_ok hbuild
  refine ⟨view, hview, ?_⟩
  rcases hs with rfl | ⟨params, rfl⟩ | rfl
  all_goals exact hfor.target_ok

/-! ### Inputs and state -/

/-- What setup drops is one target for each view, distinct from the others, from the checkpoint
table and from every source; what the daemon writes is nothing it is fed from. -/
structure KeepsInputs (config : Config) : Prop where
  targets : ∃ tables, config.views.mapM target = .ok tables ∧ (tables.map tableKey).Nodup
  drops : ∀ view ∈ config.views, ∀ types ddl, targetDdl view types = .ok ddl →
    ∃ t, target view = .ok t ∧ ddl.filterMap dropped = [t]
  apart : ∀ view ∈ config.views, ∀ t, target view = .ok t →
    tableKey t ≠ checkpointKey ∧ ∀ v ∈ config.views, tableKey t ≠ sourceKey v
  writes : ∀ (F : Type) [PyFloat F] (ops : List (Op F)) (b : DeltaBatch F),
    foldOps config.views ops = .ok b → ∀ s ∈ b.statements, ∀ rel : Protocol.Relation,
      (rel.ns, rel.name) = tableKey s.table → Daemon.viewsOf config rel = []
  checkpoint : ∀ rel : Protocol.Relation, (rel.ns, rel.name) = checkpointKey →
    Daemon.viewsOf config rel = []

structure SourcesApart (config : Config) : Prop where
  name : ∀ view ∈ config.views, view.name ≠ "checkpoint"
  source : ∀ view ∈ config.views, view.sourceSchema = targetSchema →
    view.sourceTable ≠ "checkpoint" ∧ view.sourceTable ∉ config.views.map ViewSpec.name

theorem viewsOf_eq_nil_iff {config : Config} {rel : Protocol.Relation} :
    Daemon.viewsOf config rel = [] ↔ ∀ v ∈ config.views, sourceKey v ≠ (rel.ns, rel.name) := by
  rw [List.eq_nil_iff_forall_not_mem]
  refine forall_congr' fun v => ?_
  rw [Daemon.mem_viewsOf, not_and]
  rfl

theorem SourcesApart.sourceKey_ne {config : Config} (h : SourcesApart config) {v : ViewSpec}
    (hv : v ∈ config.views) {name : String}
    (hname : name = "checkpoint" ∨ name ∈ config.views.map ViewSpec.name) :
    sourceKey v ≠ (targetSchema, name) := by
  intro heq
  obtain ⟨hschema, htable⟩ := Prod.mk.inj heq
  obtain ⟨hcheckpoint, hviews⟩ := h.source v hv hschema
  rcases hname with rfl | hname
  · exact hcheckpoint htable
  · exact hviews (htable ▸ hname)

theorem targets_nodup {views : List ViewSpec} (haccepted : ∀ view ∈ views, AcceptedView view)
    (hnodup : (views.map ViewSpec.name).Nodup) :
    ∃ tables, views.mapM target = .ok tables ∧ (tables.map tableKey).Nodup := by
  obtain ⟨tables, htables⟩ := Except.exists_mapM_eq_ok fun view hview =>
    (haccepted view hview).target_exists
  refine ⟨tables, htables, ?_⟩
  have hkeys : tables.map tableKey = (views.map ViewSpec.name).map fun name =>
      (targetSchema, name) := by
    rw [List.map_map]
    exact ((Except.mapM_eq_ok.mp htables).map_eq fun view t ht => (target_key ht).symm).symm
  rw [hkeys]
  exact hnodup.map fun a b hab => (Prod.mk.inj hab).2

/-- An accepted configuration keeps setup and the daemon off their own inputs and state exactly when
no view is named `checkpoint` and no source is the checkpoint table or the target of a view. -/
theorem keepsInputs_iff {path : String} {env : Option String} {opened : Opened}
    {config : LoadedConfig} (hload : loadConfig path env opened = .ok config) :
    KeepsInputs config.toConfig ↔ SourcesApart config.toConfig := by
  obtain ⟨haccepted, hnodup⟩ := loadConfig_accepted hload
  constructor
  · intro h
    have hname : ∀ view ∈ config.views, view.name ≠ "checkpoint" := by
      intro view hview heq
      obtain ⟨t, ht⟩ := (haccepted view hview).target_exists
      exact (h.apart view hview t ht).1 ((target_key ht).trans (congrArg _ heq))
    refine ⟨hname, fun view hview hschema => ⟨fun heq => ?_, fun hmem => ?_⟩⟩
    · -- a Relation message of the checkpoint table would find the view
      have hnil := h.checkpoint ⟨0, targetSchema, "checkpoint", 'd', []⟩ rfl
      exact viewsOf_eq_nil_iff.mp hnil view hview (congrArg₂ Prod.mk hschema heq)
    · obtain ⟨v, hv, heq⟩ := List.mem_map.mp hmem
      obtain ⟨t, ht⟩ := (haccepted v hv).target_exists
      refine (h.apart v hv t ht).2 view hview ((target_key ht).trans ?_)
      rw [sourceKey, hschema, heq]
  · intro h
    refine ⟨targets_nodup haccepted hnodup, fun view _ types ddl => targetDdl_dropped, ?_, ?_, ?_⟩
    · intro view hview t ht
      rw [target_key ht]
      refine ⟨fun heq => h.name view hview (Prod.mk.inj heq).2, fun v hv heq => ?_⟩
      exact h.sourceKey_ne hv (.inr (List.mem_map_of_mem hview)) heq.symm
    · intro F _ ops b hb s hs rel hrel
      obtain ⟨view, hview, ht⟩ := statements_target hb s hs
      rw [viewsOf_eq_nil_iff, hrel, target_key ht]
      exact fun v hv => h.sourceKey_ne hv (.inr (List.mem_map_of_mem hview))
    · intro rel hrel
      rw [viewsOf_eq_nil_iff, hrel]
      exact fun v hv => h.sourceKey_ne hv (.inl rfl)

theorem keepsInputs_shop : ∃ config, loadConfig "walflux.yaml" none (.doc shopDoc) = .ok config ∧
    KeepsInputs config.toConfig := by
  obtain ⟨config, hload, hviews⟩ := Except.map_eq_ok.mp shopDoc_loads
  refine ⟨config, hload, (keepsInputs_iff hload).mpr ⟨?_, ?_⟩⟩
  · rw [hviews]
    decide
  · rw [hviews]
    decide

def selfReadingDoc : Doc :=
  configDoc [viewDoc "totals" "walflux.totals" ["status"] [aggDoc "sum" "amount" "paid"]]

def selfReadingView : ViewSpec :=
  ⟨"totals", "walflux", "totals", ["status"], [⟨.sum, some "amount", "paid"⟩]⟩

theorem selfReadingDoc_loads :
    (loadConfig "walflux.yaml" none (.doc selfReadingDoc)).map (·.views) =
      .ok [selfReadingView] := by
  decide +kernel

theorem setup_drops_source : ∃ config,
    loadConfig "walflux.yaml" none (.doc selfReadingDoc) = .ok config ∧
      (∃ view ∈ config.views, ∃ t, target view = .ok t ∧ tableKey t = sourceKey view) ∧
      ¬ KeepsInputs config.toConfig := by
  obtain ⟨config, hload, hviews⟩ := Except.map_eq_ok.mp selfReadingDoc_loads
  have hview : selfReadingView ∈ config.views := hviews ▸ List.mem_singleton_self _
  obtain ⟨t, ht⟩ := ((loadConfig_accepted hload).1 _ hview).target_exists
  have hkey : tableKey t = sourceKey selfReadingView := target_key ht
  exact ⟨config, hload, ⟨_, hview, t, ht, hkey⟩, fun h => (h.apart _ hview t ht).2 _ hview hkey⟩

end WalFlux.ConfigFile
