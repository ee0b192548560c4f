import WalFlux.Aggregates.Maintenance
import WalFlux.System.Provision

/-! The system over the real target tables: commands run one after another leave, wherever there are
a slot and a checkpoint, the aggregates of the source as of the checkpoint. -/

namespace WalFlux

open Aggregates Bootstrap Sql Python

variable {ι F K : Type} [PyFloat F] [DecidableEq K] {read : String → Value F → K}
  {types : String × String → Dict String String}
  {contents : List (SealedTxn F) → String × String → Multiset (Row F)} {views : List ViewSpec}

/-! ### The statements -/

def backfillView (read : String → Value F → K) (view : ViewSpec) (source : Source F)
    (db : Tables K) :
    Except Error (Tables K) := do
  let missing := Daemon.missingColumns view (source.types.map Prod.fst)
  let names := ", ".intercalate missing
  if missing ≠ [] then
    .error (.setup (s!"source table {view.sourceSchema}.{view.sourceTable} is missing " ++
      s!"column(s) {names} needed by view {Python.repr view.name}"))
  else
    let ddl ← targetDdl view source.types
    let name ← target view
    match ← ddl.foldlM (fun t s => s.run t) (db name) with
    | some t => return Function.update db name (some (← (← backfillSql view).run exactSum
      read source t))
    | none => .error (.database "relation does not exist")

/-- What the daemon's and setup's statements do to the target tables, where `contents` is what the
sources hold after the transactions of a snapshot. -/
def maintenance (read : String → Value F → K) (views : List ViewSpec)
    (types : String × String → Dict String String)
    (contents : List (SealedTxn F) → String × String → Multiset (Row F)) :
    Effects (Tables K) F where
  flush ops db := do execAll read (← foldOps views ops).statements db
  backfill snapshot db := views.foldlM (fun db view =>
    backfillView read view ⟨types view.source, contents snapshot view.source⟩ db) db
  dropped := fun _ => none

omit [PyFloat F] in
theorem backfillView_ok {view : ViewSpec} {source : Source F} {db db' : Tables K}
    (h : backfillView read view source db = .ok db') : ∃ name t, target view = .ok name ∧
      rebuilt read view source = .ok t ∧ db' = Function.update db name (some t) := by
  rw [backfillView] at h
  split_ifs at h
  obtain ⟨ddl, hddl, h⟩ := Except.bind_eq_ok.mp h
  obtain ⟨name, hname, h⟩ := Except.bind_eq_ok.mp h
  obtain ⟨slot, hslot, h⟩ := Except.bind_eq_ok.mp h
  cases slot with
  | none => cases h
  | some t =>
    obtain ⟨q, hq, h⟩ := Except.bind_eq_ok.mp h
    obtain ⟨t', ht', h⟩ := Except.bind_eq_ok.mp h
    refine ⟨name, t', hname, ?_, (Except.pure_eq_ok.mp h).symm⟩
    refine Except.bind_eq_ok.mpr ⟨ddl, hddl, Except.bind_eq_ok.mpr ⟨some t, ?_, ?_⟩⟩
    · obtain ⟨table, -, hddl⟩ := Except.bind_eq_ok.mp hddl
      obtain ⟨_, -, hddl⟩ := Except.bind_eq_ok.mp hddl
      obtain ⟨_, -, hddl⟩ := Except.bind_eq_ok.mp hddl
      obtain ⟨_, -, hddl⟩ := Except.bind_eq_ok.mp hddl
      obtain ⟨_, -, hddl⟩ := Except.bind_eq_ok.mp hddl
      cases Except.pure_eq_ok.mp hddl
      exact hslot
    · exact Except.bind_eq_ok.mpr ⟨q, hq, ht'⟩

omit [PyFloat F] in
theorem backfill_refreshed (hnames : (views.map ViewSpec.name).Nodup) {source : ViewSpec → Source F}
    {db db' : Tables K} (h : views.foldlM (fun db view =>
      backfillView read view (source view) db) db =
      .ok db') : Refreshed read views source db' := by
  have hkeeps : ∀ (views : List ViewSpec) (db db' : Tables K) (name : TableName),
      views.foldlM (fun db view => backfillView read view (source view) db) db = .ok db' →
      (∀ v ∈ views, target v ≠ .ok name) → db' name = db name := by
    intro views
    induction views with
    | nil =>
      rintro db _ name ⟨⟩ -
      rfl
    | cons view views ih =>
      intro db db' name h hne
      obtain ⟨hview, hne⟩ := List.forall_mem_cons.mp hne
      obtain ⟨db₁, h₁, h⟩ := Except.bind_eq_ok.mp h
      obtain ⟨name', t, hname, -, rfl⟩ := backfillView_ok h₁
      rw [ih _ _ _ h hne, Function.update_of_ne]
      rintro rfl
      exact hview hname
  induction views generalizing db with
  | nil => exact nofun
  | cons view views ih =>
    obtain ⟨db₁, h₁, h⟩ := Except.bind_eq_ok.mp h
    obtain ⟨hnew, hnodup⟩ := List.nodup_cons.mp hnames
    refine List.forall_mem_cons.mpr ⟨?_, ih hnodup h⟩
    obtain ⟨name, t, hname, ht, rfl⟩ := backfillView_ok h₁
    refine ⟨name, t, hname, ?_, ht⟩
    rw [hkeeps views _ _ name h, Function.update_self]
    intro v hv hname'
    -- the targets of two views differ with their names
    refine hnew (List.mem_map.mpr ⟨v, hv, ?_⟩)
    rw [target_injective hnames (List.mem_cons_of_mem _ hv) List.mem_cons_self hname' hname]

/-! ### The sources -/

def rowEvents (txns : List (SealedTxn F)) : List (RowEvent F) :=
  (txns.flatMap SealedTxn.ops).flatMap Op.events

/-- The transactions change the contents of the sources as their row events say, with rows that fit
the views, keys that agree, and sums that no batch of consecutive transactions rounds. -/
structure Fed (read : String → Value F → K) (views : List ViewSpec)
    (types : String × String → Dict String String)
    (contents : List (SealedTxn F) → String × String → Multiset (Row F))
    (history : List (SealedTxn F)) : Prop where
  steps : ∀ past t, past ++ [t] <+: history → ∀ v ∈ views,
    RowChange.Steps (contents past v.source) (changesOf v.name (rowEvents [t]))
      (contents (past ++ [t]) v.source)
  feeds : ∀ e ∈ rowEvents history, Feeds views e
  keys : ∀ v ∈ views, KeysAgree read (types v.source) v (rowsOf v.name (rowEvents history))
  rounds : ∀ batch, batch <:+: history → NotRounded views (rowEvents batch)

omit [PyFloat F] in
theorem rowEvents_append (txns txns' : List (SealedTxn F)) :
    rowEvents (txns ++ txns') = rowEvents txns ++ rowEvents txns' := by
  rw [rowEvents, List.flatMap_append, List.flatMap_append]
  rfl

omit [DecidableEq K] in
theorem Fed.steps_append {history past txns : List (SealedTxn F)}
    (h : Fed read views types contents history) (hpast : past ++ txns <+: history) {v : ViewSpec}
    (hv : v ∈ views) : RowChange.Steps (contents past v.source) (changesOf v.name (rowEvents txns))
      (contents (past ++ txns) v.source) := by
  induction txns generalizing past with
  | nil =>
    rw [List.append_nil]
    exact .nil _
  | cons t txns ih =>
    rw [← List.singleton_append, ← List.append_assoc] at hpast ⊢
    rw [rowEvents_append, changesOf_append, RowChange.Steps.append_iff]
    exact ⟨_, h.steps past t ((List.prefix_append _ _).trans hpast) v hv, ih hpast⟩

theorem Built.refreshed (hnames : (views.map ViewSpec.name).Nodup)
    {history txns : List (SealedTxn F)} (hfed : Fed read views types contents history)
    (hpast : txns <+: history) {db : Tables K} (h : Built (maintenance read views types contents)
      (filledBy (maintenance read views types contents)) txns db) :
    Refreshed read views (fun v => ⟨types v.source, contents txns v.source⟩) db := by
  obtain ⟨first, batches, t₀, ⟨old, hold⟩, rfl, happly⟩ := h
  -- how the transactions were cut into batches does not show in their events
  have hevents : eventsOf (batches.map fun batch => batch.flatMap SealedTxn.ops) =
      rowEvents batches.flatten := by
    rw [eventsOf, rowEvents]
    refine congrArg (List.flatMap Op.events) ?_
    rw [List.flatMap_def, List.map_flatten, List.flatten_flatten, List.map_map]
    rfl
  obtain ⟨mid, rfl⟩ := hpast
  have hsub : ∀ e ∈ rowEvents batches.flatten, e ∈ rowEvents (first ++ batches.flatten ++ mid) := by
    intro e he
    rw [rowEvents_append, rowEvents_append]
    exact List.mem_append_left _ (List.mem_append_right _ he)
  have hmaintained : ∃ db',
      runBatches read views (batches.map fun batch => batch.flatMap SealedTxn.ops) t₀ = .ok db' ∧
      Refreshed read views (fun v => ⟨types v.source, contents (first ++ batches.flatten) v.source⟩)
          db' := by
    refine runBatches_maintained hnames (backfill_refreshed hnames hold) (fun v hv => ?_)
      (fun e he => ?_) (fun v hv => ?_) fun ops hops => ?_
    · rw [hevents]
      exact hfed.steps_append (List.prefix_append _ _) hv
    · rw [hevents] at he
      exact hfed.feeds e (hsub e he)
    · rw [hevents]
      have hkeys := hfed.keys v hv
      rw [rowEvents_append] at hkeys
      exact (keysAgree_append (rowEvents_append first _ ▸ (keysAgree_append hkeys).1)).2
    · obtain ⟨batch, hbatch, rfl⟩ := List.mem_map.mp hops
      obtain ⟨before, after, hcut⟩ := List.append_of_mem hbatch
      refine hfed.rounds batch ⟨first ++ before.flatten, after.flatten ++ mid, ?_⟩
      rw [hcut]
      simp
  obtain ⟨db', hrun, hdb'⟩ := hmaintained
  rw [runBatches, List.foldlM_map] at hrun
  cases happly.symm.trans hrun
  exact hdb'

/-! ### Commands one after another -/

section Commands

variable [DecidableEq F] [DecidableEq ι]

end Commands

/-! ### Samples -/

def sampleContents (txns : List (SealedTxn Empty)) (_ : String × String) : Multiset (Row Empty) :=
  ((txns.flatMap SealedTxn.ops).filterMap fun op => match op with
    | .insert _ row => some row
    | _ => none : List (Row Empty))

def sampleMaintenance : Effects (Tables (Value Empty)) Empty :=
  maintenance sampleRead [sampleView] (fun _ => sampleTypes) sampleContents

def freshServer : Server Unit (Tables (Value Empty)) Empty :=
  ⟨sampleCatalog, [], 0, none, none, none, fun _ => none⟩

theorem freshServer_consistent : Consistent sampleMaintenance freshServer :=
  ⟨.nil, nofun, nofun, nofun⟩

theorem setupActions_run : ∃ s : Sys Unit (Tables (Value Empty)) Empty,
    Sys.Steps sampleConfig sampleMaintenance Sys.Sequential (.init freshServer) s ∧
      s.server.slot.isSome ∧ s.server.row = some 10 := by
  have hrun : (Sys.runAllowed Sys.Sequential sampleConfig sampleMaintenance (.init freshServer)
      (.commitTxn (sampleTxn 5) :: setupActions)).map
        (fun s => (s.server.slot.isSome, s.server.row)) = some (true, some 10) := by decide +kernel
  obtain ⟨s, hs, hserver⟩ := Option.map_eq_some_iff.mp hrun
  obtain ⟨hslot, hrow⟩ := Prod.mk.inj hserver
  exact ⟨s, Sys.steps_of_runAllowed hs, hslot, hrow⟩

end WalFlux
