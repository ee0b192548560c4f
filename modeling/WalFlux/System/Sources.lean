import WalFlux.Daemon.Published
import WalFlux.System.Maintained

/-! What the source tables hold as the log goes on, and that a published log feeds the target
tables: its ops change the rows of each view's source as the transactions did. -/

namespace WalFlux

open Aggregates Daemon Protocol Python

variable {F : Type} [PyFloat F] [DecidableEq F] {config : Config} {tables : Set PublishedTable}

abbrev Contents (F : Type) := String × String → Multiset (Row F)

def PublishedTable.source (t : PublishedTable) : String × String := (t.ns, t.name)

namespace Change

def apply (S : Contents F) : Change F → Contents F
  | insert t new => Function.update S t.source (new.row ::ₘ S t.source)
  | update t u => Function.update S t.source (u.new.row ::ₘ (S t.source).erase u.old.row)
  | delete t old => Function.update S t.source ((S t.source).erase old.row)
  | truncate ts => fun source => if ∃ t ∈ ts.tables, t.source = source then 0 else S source

def Possible (S : Contents F) : Change F → Prop
  | update t u => u.old.row ∈ S t.source
  | delete t old => old.row ∈ S t.source
  | _ => True

end Change

def applyAll (S : Contents F) (changes : List (Change F)) : Contents F :=
    changes.foldl Change.apply S

def changesIn (log : List (SourceTxn F)) : List (Change F) := log.flatMap SourceTxn.changes

def Possible (S : Contents F) (log : List (SourceTxn F)) : Prop :=
  ∀ past c, past ++ [c] <+: changesIn log → c.Possible (applyAll S past)

/-- What the tables hold after as many transactions as were taken in. -/
def contentsAfter (S : Contents F) (log : List (SourceTxn F)) (txns : List (SealedTxn F)) :
    Contents F := applyAll S (changesIn (log.take txns.length))

theorem applyAll_append (S : Contents F) (changes changes' : List (Change F)) :
    applyAll S (changes ++ changes') = applyAll (applyAll S changes) changes' :=
  List.foldl_append

omit [DecidableEq F] in
theorem changesIn_append (log log' : List (SourceTxn F)) :
    changesIn (log ++ log') = changesIn log ++ changesIn log' := List.flatMap_append

omit [DecidableEq F] in
theorem changesIn_singleton (t : SourceTxn F) : changesIn [t] = t.changes :=
    List.flatMap_singleton ..

/-! ### One change -/

omit [PyFloat F] [DecidableEq F] in
theorem flatMap_ite_eq {views : List ViewSpec} (hnodup : views.Nodup) (v : ViewSpec)
    (g : ViewSpec → List (RowEvent F)) :
    (views.flatMap fun u => if u = v then g u else []) = if v ∈ views then g v else [] := by
  induction views with
  | nil => rfl
  | cons u views ih =>
    obtain ⟨hnew, hnodup⟩ := List.nodup_cons.mp hnodup
    rw [List.flatMap_cons, ih hnodup]
    by_cases huv : u = v
    · subst huv
      rw [if_pos rfl, if_neg hnew, if_pos List.mem_cons_self, List.append_nil]
    · rw [if_neg huv, List.nil_append]
      simp [Ne.symm huv]

omit [PyFloat F] [DecidableEq F] in
theorem changesOf_ops (hnames : (config.views.map ViewSpec.name).Nodup) {v : ViewSpec}
    (hv : v ∈ config.views) (t : PublishedTable) {f : ViewSpec → Op F}
    (hf : ∀ u, ∀ e ∈ (f u).events, e.view = u.name) :
    changesOf v.name (((t.views config).map f).flatMap Op.events) =
      if v.source = t.source then (f v).events.map RowEvent.change else [] := by
  have hown : ∀ u ∈ t.views config, (f u).events.filter (fun e => e.view = v.name) =
      if u = v then (f u).events else [] := by
    intro u hu
    have hu : u ∈ config.views := List.mem_of_mem_filter hu
    split_ifs with huv
    · exact List.filter_eq_self.mpr fun e he => decide_eq_true (huv ▸ hf u e he)
    · refine List.filter_eq_nil_iff.mpr fun e he => ?_
      rw [decide_eq_true_iff, hf u e he]
      exact fun heq => huv (eq_of_name_eq hnames hu hv heq)
  have hmem : v ∈ t.views config ↔ v.source = t.source := by
    rw [PublishedTable.views, List.mem_filter, decide_eq_true_iff]
    exact and_iff_right hv
  have hnodup : (t.views config).Nodup := (hnames.of_map _).filter _
  rw [changesOf, List.flatMap_map, List.filter_flatMap, List.flatMap_congr hown,
    flatMap_ite_eq hnodup v fun u => (f u).events]
  simp only [hmem]
  split_ifs <;> rfl

omit [PyFloat F] [DecidableEq F] in
theorem steps_truncate (hnames : (config.views.map ViewSpec.name).Nodup) {v : ViewSpec}
    (hv : v ∈ config.views) (truncated : List PublishedTable) (rows : Multiset (Row F)) :
    RowChange.Steps rows
      (changesOf v.name ((truncated.flatMap fun t => (t.views config).map fun u =>
        (Op.truncate u.name : Op F)).flatMap Op.events))
      (if ∃ t ∈ truncated, t.source = v.source then 0 else rows) := by
  induction truncated generalizing rows with
  | nil => exact .nil _
  | cons t truncated ih =>
    rw [List.flatMap_cons, List.flatMap_append, changesOf_append,
      changesOf_ops hnames hv t (by simp [Op.events, RowEvent.view])]
    by_cases hsource : v.source = t.source
    · have hrest := ih 0
      rw [ite_self] at hrest
      rw [if_pos hsource, if_pos ⟨t, List.mem_cons_self, hsource.symm⟩]
      exact .cons (.truncate _) hrest
    · rw [if_neg hsource]
      simpa [Ne.symm hsource] using ih rows

theorem steps_change (hnames : (config.views.map ViewSpec.name).Nodup) {v : ViewSpec}
    (hv : v ∈ config.views) {S : Contents F} {c : Change F} (hc : c.Possible S) :
    RowChange.Steps (S v.source) (changesOf v.name ((c.ops config).flatMap Op.events))
      (c.apply S v.source) := by
  cases c with
  | insert t new =>
    rw [Change.ops, changesOf_ops hnames hv t (by simp [Op.events, RowEvent.view]), Change.apply]
    split_ifs with hsource
    · rw [hsource, Function.update_self]
      exact .cons (.insert _ _) (.nil _)
    · rw [Function.update_of_ne hsource]
      exact .nil _
  | update t u =>
    rw [Change.ops, changesOf_ops hnames hv t (by simp [Op.events, RowEvent.view]), Change.apply]
    split_ifs with hsource
    · have hmem : u.old.row ∈ S t.source := hc
      rw [hsource, Function.update_self]
      nth_rewrite 1 [← Multiset.cons_erase hmem]
      exact .cons (.delete _ _) (.cons (.insert _ _) (.nil _))
    · rw [Function.update_of_ne hsource]
      exact .nil _
  | delete t old =>
    rw [Change.ops, changesOf_ops hnames hv t (by simp [Op.events, RowEvent.view]), Change.apply]
    split_ifs with hsource
    · have hmem : old.row ∈ S t.source := hc
      rw [hsource, Function.update_self]
      nth_rewrite 1 [← Multiset.cons_erase hmem]
      exact .cons (.delete _ _) (.nil _)
    · rw [Function.update_of_ne hsource]
      exact .nil _
  | truncate ts => exact steps_truncate hnames hv ts.tables (S v.source)

omit [PyFloat F] [DecidableEq F] in
theorem value_ne_unchangedToast (d : SourceField F) : d.value ≠ .unchangedToast := by
  cases d with
  | none => exact nofun
  | some d => cases d <;> exact nofun

omit [DecidableEq F] in
theorem SourceRow.complete (hcompatible : Compatible config tables) {t : PublishedTable}
    (ht : t ∈ tables) (r : SourceRow F t) {v : ViewSpec} (hv : v ∈ t.views config) :
    ∀ c ∈ v.groupBy ++ v.aggregates.filterMap AggSpec.column,
      ∃ value, Dict.get? r.row c = some value ∧ value ≠ .unchangedToast := by
  intro c hc
  have hname : c ∈ t.names := hcompatible.columns t ht v hv c (List.mem_eraseDups.mpr hc)
  have hlen : t.names.length = (r.fields.map SourceField.value).length := by
    rw [PublishedTable.names, List.length_map, List.length_map, r.typed.length_eq]
  have hkeys : c ∈ Dict.keys r.row := by
    rw [Dict.keys, SourceRow.row, List.map_fst_zip hlen.le]
    exact hname
  obtain ⟨value, hvalue⟩ := Option.ne_none_iff_exists'.mp fun hnone =>
    Dict.get?_eq_none_iff.mp hnone hkeys
  refine ⟨value, hvalue, ?_⟩
  have hmem := (List.of_mem_zip (Dict.mem_of_get?_eq_some hvalue)).2
  obtain ⟨d, -, rfl⟩ := List.mem_map.mp hmem
  exact value_ne_unchangedToast d

omit [DecidableEq F] in
theorem Change.mem_ops {c : Change F} {op : Op F} (hop : op ∈ c.ops config) :
    ∃ t ∈ c.tables, ∃ v ∈ t.views config, op.view = v.name ∧
      ∀ row ∈ op.rows, ∃ r : SourceRow F t, r.row = row := by
  cases c with
  | insert t new =>
    obtain ⟨v, hv, rfl⟩ := List.mem_map.mp hop
    exact ⟨t, List.mem_singleton_self t, v, hv, rfl, List.forall_mem_singleton.mpr ⟨new, rfl⟩⟩
  | update t u =>
    obtain ⟨v, hv, rfl⟩ := List.mem_map.mp hop
    exact ⟨t, List.mem_singleton_self t, v, hv, rfl,
      List.forall_mem_cons.mpr ⟨⟨u.old, rfl⟩, List.forall_mem_singleton.mpr ⟨u.new, rfl⟩⟩⟩
  | delete t old =>
    obtain ⟨v, hv, rfl⟩ := List.mem_map.mp hop
    exact ⟨t, List.mem_singleton_self t, v, hv, rfl, List.forall_mem_singleton.mpr ⟨old, rfl⟩⟩
  | truncate ts =>
    obtain ⟨t, ht, hop⟩ := List.mem_flatMap.mp hop
    obtain ⟨v, hv, rfl⟩ := List.mem_map.mp hop
    exact ⟨t, ht, v, hv, rfl, fun row hrow => (by cases hrow)⟩

omit [PyFloat F] [DecidableEq F] in
theorem Op.mem_events {op : Op F} {e : RowEvent F} (he : e ∈ op.events) : e.view = op.view ∧
    ∀ sign row, e.entry = some (sign, row) → row ∈ op.rows := by
  cases op <;> simp only [Op.events, List.mem_cons, List.not_mem_nil, or_false] at he <;>
    rcases he with rfl | rfl <;> refine ⟨rfl, ?_⟩ <;> rintro sign row ⟨⟩ <;> simp [Op.rows]

/-! ### The log -/

/-- The columns that views sum hold finite numbers and NULLs. -/
def Summable (views : List ViewSpec) (events : List (RowEvent F)) : Prop :=
  ∀ v ∈ views, ∀ e ∈ events, e.view = v.name → ∀ sign row, e.entry = some (sign, row) →
    ∀ agg ∈ v.aggregates, agg.fn ≠ .count → ∀ c, agg.column = some c →
      Sql.isNull (row.value c) = true ∨ (Sql.numberOf (row.value c)).isSome

omit [DecidableEq F] in
theorem rowEvents_sealed (config : Config) (log : List (SourceTxn F)) :
    rowEvents (log.map (SourceTxn.sealed config)) = (changesIn log).flatMap fun c =>
      (c.ops config).flatMap Op.events := by
  rw [rowEvents, changesIn, List.flatMap_map, List.flatMap_assoc, List.flatMap_assoc]
  refine List.flatMap_congr fun t _ => ?_
  rw [SourceTxn.sealed, List.flatMap_assoc]

omit [DecidableEq F] in
theorem feeds_sealed (hcompatible : Compatible config tables) {log : List (SourceTxn F)}
    (htables : ∀ t ∈ log, ∀ u ∈ t.tables, u ∈ tables)
    (hnumbers : Summable config.views (rowEvents (log.map (SourceTxn.sealed config)))) :
    ∀ e ∈ rowEvents (log.map (SourceTxn.sealed config)), Feeds config.views e := by
  intro e he
  have hsource := he
  rw [rowEvents_sealed] at hsource
  obtain ⟨c, hc, hsource⟩ := List.mem_flatMap.mp hsource
  obtain ⟨txn, htxn, hc⟩ := List.mem_flatMap.mp hc
  obtain ⟨op, hop, hsource⟩ := List.mem_flatMap.mp hsource
  obtain ⟨t, ht, v, hv, hview, hrows⟩ := Change.mem_ops hop
  obtain ⟨heview, herows⟩ := Op.mem_events hsource
  have hmem : t ∈ tables := htables txn htxn t (List.mem_flatMap.mpr ⟨c, hc, ht⟩)
  have hviews : v ∈ config.views := List.mem_of_mem_filter hv
  refine ⟨v, hviews, (heview.trans hview).symm, fun sign row hentry => ⟨?_, ?_⟩⟩
  · obtain ⟨r, rfl⟩ := hrows row (herows sign row hentry)
    exact r.complete hcompatible hmem hv
  · exact hnumbers v hviews e he (heview.trans hview) sign row hentry

theorem steps_changes (hnames : (config.views.map ViewSpec.name).Nodup) {v : ViewSpec}
    (hv : v ∈ config.views) {S : Contents F} {changes : List (Change F)}
    (hpossible : ∀ past c, past ++ [c] <+: changes → c.Possible (applyAll S past)) :
    RowChange.Steps (S v.source)
      (changesOf v.name (changes.flatMap fun c => (c.ops config).flatMap Op.events))
      (applyAll S changes v.source) := by
  induction changes using List.reverseRecOn with
  | nil => exact .nil _
  | append_singleton changes c ih =>
    rw [List.flatMap_append, changesOf_append, RowChange.Steps.append_iff]
    refine ⟨_, ih fun past c' hpast => hpossible past c' (hpast.trans (List.prefix_append _ _)), ?_⟩
    rw [applyAll_append, List.flatMap_singleton]
    exact steps_change hnames hv (hpossible changes c List.prefix_rfl)

theorem published_fed {K : Type} {read : String → Value F → K}
    {types : String × String → Dict String String}
    (hnames : (config.views.map ViewSpec.name).Nodup) (hcompatible : Compatible config tables)
    {log : List (SourceTxn F)} (htables : ∀ t ∈ log, ∀ u ∈ t.tables, u ∈ tables) {S : Contents F}
    (hpossible : Possible S log)
    (hnumbers : Summable config.views (rowEvents (log.map (SourceTxn.sealed config))))
    (hkeys : ∀ v ∈ config.views, KeysAgree read (types v.source) v
      (rowsOf v.name (rowEvents (log.map (SourceTxn.sealed config)))))
    (hrounds : ∀ batch, batch <:+: log.map (SourceTxn.sealed config) →
      NotRounded config.views (rowEvents batch)) :
    Fed read config.views types (contentsAfter S log) (log.map (SourceTxn.sealed config)) := by
  refine ⟨fun past t hpast v hv => ?_, feeds_sealed hcompatible htables hnumbers, hkeys, hrounds⟩
  obtain ⟨rest, hrest⟩ := hpast
  obtain ⟨taken, later, rfl, htaken, -⟩ := List.map_eq_append_iff.mp hrest.symm
  obtain ⟨before, last, rfl, rfl, hlast⟩ := List.map_eq_append_iff.mp htaken
  obtain ⟨u, rfl, rfl⟩ := List.map_eq_singleton_iff.mp hlast
  have hbefore : contentsAfter S (before ++ [u] ++ later) (before.map (SourceTxn.sealed config)) =
      applyAll S (changesIn before) := by
    rw [contentsAfter, List.length_map, List.append_assoc, List.take_left]
  have hafter : contentsAfter S (before ++ [u] ++ later)
      (before.map (SourceTxn.sealed config) ++ [u.sealed config]) =
        applyAll (applyAll S (changesIn before)) u.changes := by
    have hlen : (before.map (SourceTxn.sealed config) ++ [u.sealed config]).length =
        (before ++ [u]).length := by simp
    rw [contentsAfter, hlen, List.take_left, changesIn_append, applyAll_append, changesIn_singleton]
  have hevents : rowEvents [u.sealed config] =
      u.changes.flatMap fun c => (c.ops config).flatMap Op.events := by
    have hsingle := rowEvents_sealed config [u]
    rwa [changesIn_singleton] at hsingle
  rw [hbefore, hafter, hevents]
  refine steps_changes hnames hv fun past c hpast => ?_
  rw [← applyAll_append]
  refine hpossible _ c ?_
  rw [changesIn_append, changesIn_append, List.append_assoc, List.append_assoc,
    List.prefix_append_right_inj, changesIn_singleton]
  exact hpast.trans (List.prefix_append _ _)

theorem contentsAfter_upTo {S : Contents F} {log : List (SourceTxn F)}
    (hincreasing : Log.Increasing SealedTxn.endLsn (log.map (SourceTxn.sealed config))) (lsn : ℕ) :
    contentsAfter S log (Log.upTo SealedTxn.endLsn (log.map (SourceTxn.sealed config)) lsn) =
      applyAll S (changesIn (Log.upTo SourceTxn.endLsn log lsn)) := by
  have hlog : Log.Increasing SourceTxn.endLsn log := by
    rw [Log.Increasing, List.pairwise_map] at hincreasing
    exact hincreasing
  have hmap : Log.upTo SealedTxn.endLsn (log.map (SourceTxn.sealed config)) lsn =
      (Log.upTo SourceTxn.endLsn log lsn).map (SourceTxn.sealed config) := List.filter_map
  rw [contentsAfter, hmap, List.length_map, ← List.prefix_iff_eq_take.mp (Log.upTo_prefix hlog)]

theorem ordersRow_typed :
    List.Forall₂ (FieldOf (F := Empty)) ordersTable.columns [some (.text "open"),
      some (.numeric 1 1)] :=
  .cons (ordersField_status _ (by decide +kernel)) (.cons
    (ordersField_amount _ _ (by decide +kernel)) .nil)

def ordersRow : SourceRow Empty ordersTable := ⟨_, ordersRow_typed⟩

def ordersLog : List (SourceTxn Empty) := [⟨5, [.insert ordersTable ordersRow], by decide⟩]

def ordersMaintenance : Effects (Sql.Tables (Value Empty)) Empty :=
  maintenance sampleRead [sampleView] (fun _ => sampleTypes) (contentsAfter (fun _ => 0) ordersLog)

theorem ordersLog_sealed : ordersLog.map (SourceTxn.sealed Bootstrap.sampleConfig) =
    [sampleTxn 5] := by
  decide +kernel

theorem ordersLog_events : rowEvents (ordersLog.map (SourceTxn.sealed Bootstrap.sampleConfig)) =
    [.insert "order_totals" (sampleRow 1 (-1))] := by
  rw [ordersLog_sealed]
  rfl

theorem ordersLog_possible : Possible (fun _ => 0) ordersLog := by
  intro past c hpast
  have hmem : c ∈ changesIn ordersLog := hpast.subset (List.mem_append_right _
    (List.mem_singleton_self c))
  rw [ordersLog, changesIn_singleton, List.mem_singleton] at hmem
  subst hmem
  trivial

theorem ordersSetup_run : ∃ s : Sys Unit (Sql.Tables (Value Empty)) Empty,
    Sys.Steps Bootstrap.sampleConfig ordersMaintenance Sys.Guarded (.init freshServer) s ∧
      s.server.history = [sampleTxn 5] ∧ s.server.row = some 10 := by
  have hrun : (Sys.runAllowed Sys.Guarded Bootstrap.sampleConfig ordersMaintenance
      (.init freshServer) (.commitTxn (sampleTxn 5) :: setupActions)).map
        (fun s => (s.server.history, s.server.row)) = some ([sampleTxn 5], some 10) := by
    decide +kernel
  obtain ⟨s, hs, hserver⟩ := Option.map_eq_some_iff.mp hrun
  obtain ⟨hhistory, hrow⟩ := Prod.mk.inj hserver
  exact ⟨s, Sys.steps_of_runAllowed hs, hhistory, hrow⟩

theorem ordersLog_notRounded : ∀ batch, batch <:+: ordersLog.map
    (SourceTxn.sealed Bootstrap.sampleConfig) →
    NotRounded [sampleView] (rowEvents batch) := by
  intro batch hbatch
  have hnil : NotRounded [sampleView] ([] : List (RowEvent Empty)) := by
    intro p e hp
    simp at hp
  have hsum : ∀ c, Slot.sum c ∈ slots sampleView → c = "amount" := by
    simp [slots, sampleView, aggSlots]
  rw [ordersLog_sealed, List.infix_singleton_iff] at hbatch
  rcases hbatch with rfl | rfl
  · exact hnil
  · refine notRounded_append.mpr ⟨hnil, ?_⟩
    simp only [List.forall_mem_singleton]
    rintro - sign row ⟨⟩ c hc
    rw [hsum c hc]
    decide +kernel

end WalFlux
