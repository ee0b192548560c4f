import WalFlux.Aggregates.Shown
import WalFlux.Aggregates.Statements

/-! Incremental maintenance equals recomputation: the statements of a batch turn the query over the
old contents of the sources into the query over the new ones. -/

namespace WalFlux.Aggregates

open Sql Python

variable {F K : Type} [PyFloat F] [DecidableEq K] {read : String → Value F → K}
  {types : Dict String String}

/-! ### One view -/

omit [PyFloat F] [DecidableEq K] in
theorem rowCount_weight (view : ViewSpec) (row : Row F) :
    rowCount ((grouping read types view).weight row) = 1 := rfl

omit [PyFloat F] in
/-- The old query, maintained by the differences of a run of changes, is the new query. -/
theorem maintain_query {view : ViewSpec} {S S' : Multiset (Row F)} {es : List (RowChange (Row F))}
    (hsteps : RowChange.Steps S es S') {us : List (List (Cell K) × (ℕ → ℚ))}
    (hus : (us.map fun p => Pi.single p.1 p.2).sum = ((grouping read types view).change es).add)
    (hkey : view.groupBy = [] → ∀ u ∈ us, u.1 = [.flag true])
    (hseed : view.groupBy = [] → ((grouping read types view).change es).reset = true → us ≠ []) :
    maintain (view.groupBy ≠ []) ((grouping read types view).change es).reset us
      (query read types view S) = query read types view S' := by
  have hvalue := (grouping read types view).value_upserts_change hsteps
    (query_value read view S) hus
  generalize (grouping read types view).change es = c at *
  -- a global view always has its one row
  by_cases hg : view.groupBy = []
  · rw [maintain, if_neg (by simp [hg])]
    refine KeyedTable.ext ?_ (hvalue.trans (query_value read view S').symm)
    have hkeys : ∀ S : Multiset (Row F), (query read types view S).keys = {[.flag true]} := by
      intro S
      rw [query, dif_neg (not_not.mpr hg)]
      rfl
    rw [KeyedTable.keys_upserts, hkeys]
    have hsub : (us.map Prod.fst).toFinset ⊆ {[.flag true]} := by
      intro k hk
      obtain ⟨u, hu, rfl⟩ := List.mem_map.mp (List.mem_toFinset.mp hk)
      exact Finset.mem_singleton.mpr (hkey hg u hu)
    split_ifs with hr
    · obtain ⟨u, hu⟩ := List.exists_mem_of_ne_nil us (hseed hg hr)
      have hmem : [.flag true] ∈ (us.map Prod.fst).toFinset :=
        List.mem_toFinset.mpr (List.mem_map.mpr ⟨u, hu, hkey hg u hu⟩)
      exact Finset.Subset.antisymm (Finset.union_subset (Finset.empty_subset _) hsub)
        (Finset.singleton_subset_iff.mpr (Finset.mem_union_right _ hmem))
    · rw [hkeys]
      exact Finset.union_eq_left.mpr hsub
  · have hquery : ∀ S : Multiset (Row F), query read types view S =
        (grouping read types view).table S :=
      fun S => dif_pos hg
    rw [hquery] at hvalue
    rw [hquery, hquery, maintain]
    by_cases ht : c.reset = true ∨ us ≠ []
    · rw [if_pos ⟨decide_eq_true hg, ht⟩]
      exact (grouping read types view).prune_upserts rowCount (rowCount_weight view) hvalue
    · -- nothing was emitted, so the sums are the old ones
      rw [if_neg fun h => ht h.2]
      obtain ⟨hr, rfl⟩ : ¬ c.reset = true ∧ us = [] := by simpa using ht
      rw [if_neg hr] at hvalue ⊢
      exact (grouping read types view).table_eq_of_sums_eq rowCount (rowCount_weight view) hvalue

theorem ledger_ne_nil {view : ViewSpec} (hg : view.groupBy = []) {events : List (RowEvent F)}
    (h : .truncate view.name ∈ events) : ledger view events ≠ [] := by
  induction events using List.reverseRecOn with
  | nil => cases h
  | append_singleton events e ih =>
    by_cases hname : view.name = e.view
    · cases hentry : e.entry with
      | none =>
        rw [ledger_truncate hname hentry, if_neg (not_not.mpr hg)]
        exact List.cons_ne_nil _ _
      | some entry =>
        rw [ledger_row hname hentry]
        exact Dict.set_ne_nil _ _ _
    · rw [ledger_other hname]
      refine ih ((List.mem_append.mp h).resolve_right fun he => ?_)
      rw [← List.mem_singleton.mp he] at hname
      exact hname rfl

variable {views : List ViewSpec} {events : List (RowEvent F)} {b : DeltaBatch F} {view : ViewSpec}
  {plan : Plan} {storage : List Storage} {t : Table K}

theorem view_maintained (hb : Tracks views events b) (hs : InStep views events b)
    (hview : view ∈ views) (hp : PlanFor view plan storage)
    (ht : TargetOf types view plan storage t) (hkeys : KeysAgree read types view
      (rowsOf view.name events)) {S S' : Multiset (Row F)}
    (hsteps : RowChange.Steps S (changesOf view.name events) S') :
    (viewStatements plan (b.groups view.name) (view.name ∈ b.truncated)).foldlM
        (fun t s => s.run read t) (t.withRows (ht.layout.rows (query read types view S))) =
      .ok (t.withRows (ht.layout.rows (query read types view S'))) := by
  have hmatch := hb.groups view hview
  obtain ⟨hadd, hreset⟩ := change_ledger read types view events
  obtain ⟨hentries, -⟩ := ledger_paramKey read types hkeys
  have htrunc : decide (view.name ∈ b.truncated) =
      ((grouping read types view).change (changesOf view.name events)).reset := by
    rw [Bool.eq_iff_iff, decide_eq_true_iff, hb.truncated, hreset]
  have hnums : ∀ g ∈ b.groups view.name, KindsOf (slots view) g.2 := by
    intro g hg
    obtain ⟨_, -, -, hkinds⟩ := hmatch.exists_of_mem_right hg
    exact hkinds
  rw [run_viewStatements hp ht (hb.key_length hview) hnums (fills_query read hp ht S), htrunc]
  refine congrArg (fun kt => Except.ok (t.withRows (ht.layout.rows kt)))
    (maintain_query hsteps ?_ ?_ ?_)
  · rw [hadd]
    exact sum_upsertsOf (hs view hview) hentries
  · intro hg u hu
    obtain ⟨g, -, rfl⟩ := List.mem_map.mp hu
    exact if_neg (not_not.mpr hg)
  · intro hg hr
    have hlen := hmatch.length_eq
    have hne := List.length_pos_iff.mpr (ledger_ne_nil hg (hreset.mp hr))
    rw [hlen] at hne
    exact List.length_pos_iff.mp (by rwa [upsertsOf, List.length_map])

/-! ### Batches -/

def RefreshedBy (sum : SumOf F) (read : String → Value F → K) (views : List ViewSpec)
    (source : ViewSpec → Source F) (db : Tables K) : Prop :=
  ∀ view ∈ views, ∃ name t, target view = .ok name ∧ db name = some t ∧
    rebuiltBy read sum view (source view) = .ok t

def Refreshed (read : String → Value F → K) (views : List ViewSpec) (source : ViewSpec → Source F)
    (db : Tables K) : Prop :=
  RefreshedBy exactSum read views source db

def runBatches (read : String → Value F → K) (views : List ViewSpec) (batches : List (List (Op F)))
    (db : Tables K) : Except Error (Tables K) :=
  batches.foldlM (fun db ops => do execAll read (← foldOps views ops).statements db) db

theorem buildPlan_isOk {view : ViewSpec} {q : InsertSelect} (h : backfillSql view = .ok q) :
    ∃ plan, buildPlan view = .ok plan := by
  obtain ⟨storage, hstorage, h⟩ := Except.bind_eq_ok.mp h
  obtain ⟨_, -, h⟩ := Except.bind_eq_ok.mp h
  obtain ⟨_, -, h⟩ := Except.bind_eq_ok.mp h
  obtain ⟨_, -, h⟩ := Except.bind_eq_ok.mp h
  obtain ⟨table, htable, h⟩ := Except.bind_eq_ok.mp h
  obtain ⟨columns, hcolumns, -⟩ := Except.bind_eq_ok.mp h
  have hall := hcolumns
  -- the conflict and update columns are the two parts of the insert columns
  rw [insertColumns, List.mapM_append] at hcolumns
  obtain ⟨keys, hkeys, hcolumns⟩ := Except.bind_eq_ok.mp hcolumns
  obtain ⟨updates, hupdates, -⟩ := Except.bind_eq_ok.mp hcolumns
  exact ⟨⟨view, _, _, ⟨table, columns, keys, updates⟩⟩, Except.bind_eq_ok.mpr ⟨storage, hstorage,
    Except.bind_eq_ok.mpr ⟨table, htable, Except.bind_eq_ok.mpr ⟨updates, hupdates,
      Except.bind_eq_ok.mpr ⟨keys, hkeys, Except.bind_eq_ok.mpr ⟨columns, hall, rfl⟩⟩⟩⟩⟩⟩

omit [PyFloat F] in
theorem rebuilt_plan {sum : SumOf F} {view : ViewSpec} {source : Source F} {t : Table K}
    (h : rebuiltBy read sum view source = .ok t) : ∃ plan, buildPlan view = .ok plan := by
  obtain ⟨ddl, -, h⟩ := Except.bind_eq_ok.mp h
  obtain ⟨slot, -, h⟩ := Except.bind_eq_ok.mp h
  cases slot with
  | none => cases h
  | some t' =>
    obtain ⟨q, hq, -⟩ := Except.bind_eq_ok.mp h
    exact buildPlan_isOk hq

omit [PyFloat F] in
/-- The target of a view that sums numbers does not depend on what the server does with floats. -/
theorem rebuiltBy_eq (sum : SumOf F) {view : ViewSpec} {S : Multiset (Row F)}
    (hS : SumsNumbers view S) :
    rebuiltBy read sum view ⟨types, S⟩ = rebuilt read view ⟨types, S⟩ := by
  have hfill : ∀ t : Table K, (backfillSql view >>= fun q => q.run sum read ⟨types, S⟩ t) =
      backfillSql view >>= fun q => q.run exactSum read ⟨types, S⟩ t := by
    intro t
    cases hq : backfillSql view with
    | error e => rfl
    | ok q =>
      obtain ⟨plan, hplan⟩ := buildPlan_isOk hq
      obtain ⟨storage, hp⟩ := buildPlan_ok hplan
      refine run_eq_exactSum read sum fun c hc row hrow => hS row hrow c.name ?_
      exact (backfillSql_ok hp hq).slot_of_expr hp hc
  refine bind_congr fun ddl => bind_congr fun slot => ?_
  cases slot with
  | none => rfl
  | some t => exact hfill t

omit [PyFloat F] in
theorem refreshedBy_iff (sum : SumOf F) {types : ViewSpec → Dict String String}
    {S : ViewSpec → Multiset (Row F)} (hS : ∀ view ∈ views, SumsNumbers view (S view))
    {db : Tables K} :
    RefreshedBy sum read views (fun v => ⟨types v, S v⟩) db ↔
      Refreshed read views (fun v => ⟨types v, S v⟩) db := by
  refine forall₂_congr fun view hview => exists₂_congr fun name t => ?_
  rw [rebuiltBy_eq sum (hS view hview)]
  rfl

omit [PyFloat F] in
theorem init_isOk {source : ViewSpec → Source F} {db : Tables K}
    (h : Refreshed read views source db) :
    ∃ b : DeltaBatch F, DeltaBatch.init views = .ok b := by
  have hplans : ∀ view ∈ views, ∃ p : String × Plan,
      (do return (view.name, ← buildPlan view) : Except Error (String × Plan)) = .ok p := by
    intro view hview
    obtain ⟨_, t, -, -, ht⟩ := h view hview
    obtain ⟨plan, hplan⟩ := rebuilt_plan ht
    exact ⟨(view.name, plan), Except.bind_eq_ok.mpr ⟨plan, hplan, rfl⟩⟩
  obtain ⟨items, hitems⟩ := Except.exists_mapM_eq_ok hplans
  exact ⟨_, Except.bind_eq_ok.mpr ⟨items, hitems, rfl⟩⟩

theorem target_injective (hnames : (views.map ViewSpec.name).Nodup) {v v' : ViewSpec}
    (hv : v ∈ views) (hv' : v' ∈ views) {name : TableName} (h : target v = .ok name)
    (h' : target v' = .ok name) :
    v = v' := by
  refine eq_of_name_eq hnames hv hv' ?_
  obtain ⟨schema, -, h⟩ := Except.bind_eq_ok.mp h
  obtain ⟨i, hi, h⟩ := Except.bind_eq_ok.mp h
  obtain ⟨schema', -, h'⟩ := Except.bind_eq_ok.mp h'
  obtain ⟨i', hi', h'⟩ := Except.bind_eq_ok.mp h'
  rw [← quoteIdent_ok hi, ← quoteIdent_ok hi']
  exact congrArg (fun t : TableName => t.name.name)
    ((Except.pure_eq_ok.mp h).trans (Except.pure_eq_ok.mp h').symm)

omit [PyFloat F] [DecidableEq K] in
theorem fits_of_feeds (hnames : (views.map ViewSpec.name).Nodup) {v : ViewSpec} (hv : v ∈ views)
    (hfeeds : ∀ e ∈ events, Feeds views e) {row : Row F}
    (hrow : .insert row ∈ changesOf v.name events) :
    Fits v row := by
  obtain ⟨e, he, hchange⟩ := List.mem_map.mp hrow
  obtain ⟨he, hname⟩ := List.mem_filter.mp he
  obtain ⟨v', hv', hname', hfits⟩ := hfeeds e he
  have hvv : v' = v := eq_of_name_eq hnames hv' hv (hname'.trans (by simpa using hname))
  subst hvv
  cases e with
  | insert name new =>
    cases hchange
    exact hfits 1 row rfl
  | delete name old => cases hchange
  | truncate name => cases hchange

omit [PyFloat F] [DecidableEq K] in
theorem Fits.sums {row : Row F} (h : Fits view row) : ∀ c, Slot.sum c ∈ slots view →
    isNull (row.value c) = true ∨ (numberOf (row.value c)).isSome := by
  intro c hc
  obtain ⟨agg, hagg, hfn, hcol⟩ := slot_sum_mem hc
  exact h.finite agg hagg hfn c hcol

theorem batch_maintained (hnames : (views.map ViewSpec.name).Nodup)
    {types : ViewSpec → Dict String String} {S S' : ViewSpec → Multiset (Row F)} {db : Tables K}
    (hdb : Refreshed read views (fun v => ⟨types v, S v⟩) db) {ops : List (Op F)}
    (hsteps : ∀ v ∈ views, RowChange.Steps (S v) (changesOf v.name (ops.flatMap Op.events)) (S' v))
    (hfeeds : ∀ e ∈ ops.flatMap Op.events, Feeds views e)
    (hkeys : ∀ v ∈ views, KeysAgree read (types v) v (rowsOf v.name (ops.flatMap Op.events)))
    (hrounds : NotRounded views (ops.flatMap Op.events)) :
    ∃ b db', foldOps views ops = .ok b ∧ execAll read b.statements db = .ok db' ∧
      Refreshed read views (fun v => ⟨types v, S' v⟩) db' := by
  obtain ⟨b, hfold, hb, hs⟩ := good_iff hnames (init_isOk hdb) hfeeds hrounds
  have hview : ∀ v ∈ views, ∀ name, target v = .ok name →
    ∃ t', rebuilt read v ⟨types v, S' v⟩ = .ok t' ∧
      RunsTo read (b.statements.filter (·.table = name)) (db name) (some t') := by
    intro v hv name hname
    obtain ⟨⟨_, plan⟩, hmem, rfl, storage, hp⟩ := hb.plans.exists_of_mem_left hv
    obtain ⟨_, t, htarget, ht, hrebuilt⟩ := hdb v hv
    rw [hname] at htarget
    cases htarget
    cases Except.ok.inj (hname.symm.trans hp.target_ok)
    have hnumeric := (hsteps v hv).forall_mem (rebuilt_numeric read hp hrebuilt) fun row hrow =>
      (fits_of_feeds hnames hv hfeeds hrow).sums
    obtain ⟨ht', hrows, hnew⟩ := rebuilt_contents read hp hrebuilt hnumeric
    have hrun := view_maintained hb hs hv hp ht' (hkeys v hv) (hsteps v hv)
    rw [← hrows] at hrun
    refine ⟨_, hnew, .inr ⟨t, _, ht, rfl, ?_⟩⟩
    rw [filter_statements (hb.plans.nodup_targets hnames) hmem]
    exact hrun
  have hslots : ∀ name, ∃ slot, RunsTo read (b.statements.filter (·.table = name)) (db name) slot ∧
      ∀ v ∈ views, target v = .ok name → ∃ t', slot = some t' ∧
          rebuilt read v ⟨types v, S' v⟩ = .ok t' := by
    intro name
    by_cases hex : ∃ v ∈ views, target v = .ok name
    · obtain ⟨v, hv, hname⟩ := hex
      obtain ⟨t', ht', hruns⟩ := hview v hv name hname
      refine ⟨_, hruns, fun v' hv' hname' => ⟨t', rfl, ?_⟩⟩
      rwa [target_injective hnames hv' hv hname' hname]
    -- no statement is about a table that is no view's
    · refine ⟨_, .inl ⟨List.filter_eq_nil_iff.mpr fun s hs => ?_, rfl⟩, fun v hv hname =>
        absurd ⟨v, hv, hname⟩ hex⟩
      obtain ⟨p, hp, htable⟩ := table_mem_statements hs
      obtain ⟨v, hv, -, storage, hplan⟩ := hb.plans.exists_of_mem_right hp
      have hne : s.table ≠ name := fun e => hex ⟨v, hv, e ▸ htable ▸ hplan.target_ok⟩
      simpa using hne
  -- the tables are independent, so the new ones can be chosen table by table
  choose db' hdb' using hslots
  refine ⟨b, db', (foldOps_eq views ops).trans hfold, execAll_eq_ok fun name => (hdb' name).1, ?_⟩
  intro v hv
  obtain ⟨name, -, hname, -, -⟩ := hdb v hv
  obtain ⟨t', ht', hrebuilt⟩ := (hdb' name).2 v hv hname
  exact ⟨name, t', hname, ht', hrebuilt⟩

/-! ### A run of batches -/

def eventsOf (batches : List (List (Op F))) : List (RowEvent F) := batches.flatten.flatMap Op.events

omit [PyFloat F] in
theorem eventsOf_cons (ops : List (Op F)) (batches : List (List (Op F))) :
    eventsOf (ops :: batches) = ops.flatMap Op.events ++ eventsOf batches := by
  rw [eventsOf, List.flatten_cons, List.flatMap_append]
  rfl

omit [PyFloat F] in
theorem changesOf_append (name : String) (events events' : List (RowEvent F)) :
    changesOf name (events ++ events') = changesOf name events ++ changesOf name events' := by
  rw [changesOf, List.filter_append, List.map_append]
  rfl

omit [DecidableEq K] in
theorem keysAgree_append {events' : List (RowEvent F)}
    (h : KeysAgree read types view (rowsOf view.name (events ++ events'))) :
    KeysAgree read types view (rowsOf view.name events) ∧
      KeysAgree read types view (rowsOf view.name events') := by
  rw [rowsOf, List.filter_append, List.filterMap_append] at h
  exact ⟨fun row hrow row' hrow' =>
      h row (List.mem_append_left _ hrow) row' (List.mem_append_left _ hrow'),
    fun row hrow row' hrow' =>
      h row (List.mem_append_right _ hrow) row' (List.mem_append_right _ hrow')⟩

/-- Batch after batch. The contents are kept for each view, since a cut between two batches may fall
between the events of two views of one table. -/
theorem runBatches_maintained (hnames : (views.map ViewSpec.name).Nodup)
    {types : ViewSpec → Dict String String} {batches : List (List (Op F))}
    {S S' : ViewSpec → Multiset (Row F)} {db : Tables K}
    (hdb : Refreshed read views (fun v => ⟨types v, S v⟩) db)
    (hsteps : ∀ v ∈ views, RowChange.Steps (S v) (changesOf v.name (eventsOf batches)) (S' v))
    (hfeeds : ∀ e ∈ eventsOf batches, Feeds views e)
    (hkeys : ∀ v ∈ views, KeysAgree read (types v) v (rowsOf v.name (eventsOf batches)))
    (hrounds : ∀ ops ∈ batches, NotRounded views (ops.flatMap Op.events)) :
    ∃ db', runBatches read views batches db = .ok db' ∧
      Refreshed read views (fun v => ⟨types v, S' v⟩) db' := by
  induction batches generalizing S db with
  | nil =>
    refine ⟨db, rfl, fun v hv => ?_⟩
    have hS : S v = S' v := (hsteps v hv).eq_of_nil
    dsimp only
    rw [← hS]
    exact hdb v hv
  | cons ops batches ih =>
    simp only [eventsOf_cons, changesOf_append, List.forall_mem_append] at hsteps hfeeds hkeys
    have hmid : ∀ v, ∃ T, v ∈ views → RowChange.Steps (S v)
      (changesOf v.name (ops.flatMap Op.events)) T ∧
        RowChange.Steps T (changesOf v.name (eventsOf batches)) (S' v) := by
      intro v
      by_cases hv : v ∈ views
      · obtain ⟨T, hT⟩ := RowChange.Steps.append_iff.mp (hsteps v hv)
        exact ⟨T, fun _ => hT⟩
      · exact ⟨0, fun h => absurd h hv⟩
    choose T hT using hmid
    obtain ⟨hround, hrounds⟩ := List.forall_mem_cons.mp hrounds
    obtain ⟨b, db₁, hfold, hexec, hdb₁⟩ := batch_maintained hnames hdb
      (fun v hv => (hT v hv).1) hfeeds.1 (fun v hv => (keysAgree_append (hkeys v hv)).1) hround
    obtain ⟨db', hrun, hdb'⟩ := ih hdb₁ (fun v hv => (hT v hv).2) hfeeds.2
      (fun v hv => (keysAgree_append (hkeys v hv)).2) hrounds
    refine ⟨db', Except.bind_eq_ok.mpr ⟨db₁, ?_, hrun⟩, hdb'⟩
    exact Except.bind_eq_ok.mpr ⟨b, hfold, hexec⟩

def ViewSpec.source (view : ViewSpec) : String × String := (view.sourceSchema, view.sourceTable)

def sampleTypes : Dict String String := [("status", "text"), ("amount", "numeric")]

def sampleRead : String → Value Empty → Value Empty := fun _ v => v

theorem sampleView_rebuilt : ∃ t, rebuilt sampleRead sampleView ⟨sampleTypes, 0⟩ = .ok t :=
  Except.exists_of_isOk (by decide +kernel)

theorem sampleView_target : ∃ name, target sampleView = .ok name :=
  Except.exists_of_isOk (by decide +kernel)

def sampleBatches : List (List (Op Empty)) :=
  [[.insert "order_totals" (sampleRow 1 (-1))],
    [.update "order_totals" (sampleRow 1 (-1)) (sampleRow 2 (-1))]]

theorem sampleBatches_changes : changesOf "order_totals" (eventsOf sampleBatches) =
    [.insert (sampleRow 1 (-1)), .delete (sampleRow 1 (-1)), .insert (sampleRow 2 (-1))] := by
  simp [changesOf, eventsOf, sampleBatches, Op.events, RowEvent.view, RowEvent.change]

theorem sampleBatches_rows : ∀ row ∈ rowsOf "order_totals" (eventsOf sampleBatches),
    sqlKey sampleRead sampleTypes sampleView row = [.key (.str "open")] := by
  simp [rowsOf, eventsOf, sampleBatches, Op.events, RowEvent.view, RowEvent.entry,
    sqlKey, sampleView, sampleRow, sampleRead, Row.value, Dict.get?]

theorem sampleBatches_notRounded : ∀ ops ∈ sampleBatches,
    NotRounded [sampleView] (ops.flatMap Op.events) := by
  have hnil : NotRounded [sampleView] ([] : List (RowEvent Empty)) := by
    intro p e hp
    simp at hp
  have hsum : ∀ c, Slot.sum c ∈ slots sampleView → c = "amount" := by
    simp [slots, sampleView, aggSlots]
  simp only [sampleBatches, List.forall_mem_cons]
  refine ⟨notRounded_append.mpr ⟨hnil, ?_⟩,
    notRounded_append.mpr ⟨notRounded_append.mpr ⟨hnil, ?_⟩, ?_⟩, by simp⟩ <;>
  · simp only [List.forall_mem_singleton]
    rintro - sign row ⟨⟩ c hc
    rw [hsum c hc]
    decide +kernel

inductive Sole
  | x
  deriving DecidableEq

/-- The double next to 0.12345678901234568, which is the shortest text that reads back as it. -/
instance : PyFloat Sole where
  ofText text := if text = "0.12345678901234568" then some .x else none
  str _ := "0.12345678901234568"
  number _ := .finite (8895999183877727 / 72057594037927936)

def floatPart : Value Sole → ℚ
  | .float _ => 8895999183877727 / 72057594037927936
  | _ => 0

/-- Fifteen digits of a sum of doubles are kept when it is stored as `numeric`. -/
def float8Sum : SumOf Sole where
  takes v := isNull v || (numberOf v).isSome || v = .float .x
  total vs := (vs.map fun v => (numberOf v).getD 0).sum +
    ((⟨15, 308, -307, by decide, by decide⟩ : Decimal.Context).round (vs.map floatPart).sum).getD 0
  takes_number v h := by simpa using Or.inl h
  total_numbers vs h := by
    have hnone : (vs.map floatPart).sum = 0 := by
      refine Multiset.sum_eq_zero fun q hq => ?_
      obtain ⟨v, hv, rfl⟩ := Multiset.mem_map.mp hq
      obtain hnull | hnumber := h v hv
      · cases v <;> first | rfl | cases hnull
      · cases v <;> first | rfl | cases hnumber
    rw [hnone, Decimal.Context.round, if_pos rfl, Option.getD_some, add_zero]

def floatTypes : Dict String String := [("status", "text"), ("amount", "double precision")]

def floatRow : Row Sole := [("status", .str "open"), ("amount", .float .x)]

def floatRead : String → Value Sole → Value Sole := fun _ v => v

def revenueSum : Ident := ⟨"revenue__sum", by decide⟩

def floatBatches : List (List (Op Sole)) := [[.insert "order_totals" floatRow]]

def ordersTarget : TableName := ⟨⟨"walflux", by decide⟩, ⟨"order_totals", by decide⟩⟩

def onlyTable {K : Type} (t : Table K) : Tables K := fun name =>
  if name = ordersTarget then some t else none

end WalFlux.Aggregates
