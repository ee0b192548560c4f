import WalFlux.Aggregates.Alignment
import WalFlux.Aggregates.Exactness

/-! The parameters of the upserts: for every group, each aggregate's own deltas stand at the places
of its own storage columns, as if it had been accumulated alone. -/

namespace WalFlux.Aggregates

open Sql Python

variable {F : Type} [PyFloat F]

/-! ### One aggregate alone -/

def ownDeltas (viewName : String) (agg : AggSpec) (entries : List (ℤ × Row F)) :
    Except Error (List Num) :=
  entries.foldlM (fun slots e => do
    DeltaBatch.addDeltas e.1 slots (← aggDeltas agg e.2 viewName)) (ownZeros agg)

theorem ownDeltas_concat {viewName : String} {agg : AggSpec} {entries : List (ℤ × Row F)} {sign : ℤ}
    {row : Row F} {part deltas part' : List Num} (h : ownDeltas viewName agg entries = .ok part)
    (hdeltas : aggDeltas agg row viewName = .ok deltas)
    (hadd : DeltaBatch.addDeltas sign part deltas = .ok part') :
    ownDeltas viewName agg (entries ++ [(sign, row)]) = .ok part' := by
  unfold ownDeltas at h ⊢
  refine Except.foldlM_append_eq_ok.mpr ⟨part, h, ?_⟩
  rw [List.foldlM_cons, hdeltas]
  change (DeltaBatch.addDeltas sign part deltas >>= _) = _
  rw [hadd]
  rfl

omit [PyFloat F] in
theorem length_ownZeros (agg : AggSpec) : (ownZeros agg).length = (storageNames agg).length := by
  unfold ownZeros storageNames
  cases agg.fn <;> rfl

theorem length_aggDeltas {agg : AggSpec} {row : Row F} {viewName : String} {deltas : List Num}
    (h : aggDeltas agg row viewName = .ok deltas) : deltas.length = (storageNames agg).length := by
  rcases agg with ⟨fn, column, as⟩
  have hpair {c : String} (h : (do
      let value ← row.index c
      if isNull value then return [.dec (.ofInt 0), .int 0]
      else return [.dec (← asDecimal value viewName c), .int 1] :
        Except Error (List Num)) = .ok deltas) :
      deltas.length = 2 := by
    obtain ⟨value, -, h⟩ := Except.bind_eq_ok.mp h
    split_ifs at h
    · cases Except.pure_eq_ok.mp h
      rfl
    · obtain ⟨d, -, h⟩ := Except.bind_eq_ok.mp h
      cases Except.pure_eq_ok.mp h
      rfl
  cases fn with
  | count =>
    cases column with
    | none =>
      cases h
      rfl
    | some c =>
      obtain ⟨value, -, h⟩ := Except.bind_eq_ok.mp h
      cases Except.pure_eq_ok.mp h
      rfl
  | sum =>
    cases column with
    | none => cases h
    | some c => exact hpair h
  | avg =>
    cases column with
    | none => cases h
    | some c => exact hpair h

omit [PyFloat F] in
theorem length_addDeltas {sign : ℤ} {slots deltas done : List Num}
    (h : DeltaBatch.addDeltas sign slots deltas = .ok done) : done.length = slots.length := by
  induction deltas generalizing slots done with
  | nil =>
    cases slots <;> cases h <;> rfl
  | cons d deltas ih =>
    cases slots with
    | nil => cases h
    | cons slot slots =>
      obtain ⟨slot', -, h⟩ := Except.bind_eq_ok.mp h
      obtain ⟨rest, hrest, h⟩ := Except.bind_eq_ok.mp h
      cases Except.pure_eq_ok.mp h
      exact congrArg (· + 1) (ih hrest)

theorem length_ownDeltas {viewName : String} {agg : AggSpec} {entries : List (ℤ × Row F)}
    {part : List Num} (h : ownDeltas viewName agg entries = .ok part) :
    part.length = (storageNames agg).length := by
  unfold ownDeltas at h
  refine Except.foldlM_induction (P := fun _ part => part.length = (storageNames agg).length) h
    (length_ownZeros agg) fun _ e slots slots' hslots he => ?_
  obtain ⟨deltas, -, he⟩ := Except.bind_eq_ok.mp he
  rw [length_addDeltas he, hslots]

/-! ### All aggregates of a group -/

def Accumulated (view : ViewSpec) (entries : List (ℤ × Row F)) (nums : List Num) : Prop :=
  ∃ parts, List.Forall₂ (fun agg part => ownDeltas view.name agg entries = .ok part)
    view.aggregates parts ∧ nums = .int (entries.map Prod.fst).sum :: parts.flatten

theorem addAggregates_own {viewName : String} {row : Row F} {sign : ℤ} {aggs : List AggSpec}
    {entries : List (ℤ × Row F)} {parts : List (List Num)} {slots : List Num}
    (hparts : List.Forall₂ (fun agg part => ownDeltas viewName agg entries = .ok part) aggs parts)
    (h : DeltaBatch.addAggregates viewName row sign aggs parts.flatten = .ok slots) :
    ∃ parts', List.Forall₂ (fun agg part =>
      ownDeltas viewName agg (entries ++ [(sign, row)]) = .ok part) aggs parts' ∧
        slots = parts'.flatten := by
  induction hparts generalizing slots with
  | nil =>
    cases h
    exact ⟨[], .nil, rfl⟩
  | @cons agg part aggs parts hpart _ ih =>
    obtain ⟨deltas, hdeltas, h⟩ := Except.bind_eq_ok.mp h
    -- the running index stands at the aggregate's own first column
    have hlen : deltas.length = part.length := by
      rw [length_aggDeltas hdeltas, length_ownDeltas hpart]
    rw [List.flatten_cons, hlen, List.take_left, List.drop_left] at h
    obtain ⟨done, hdone, h⟩ := Except.bind_eq_ok.mp h
    obtain ⟨rest, hrest, h⟩ := Except.bind_eq_ok.mp h
    cases Except.pure_eq_ok.mp h
    obtain ⟨parts', hparts', rfl⟩ := ih hrest
    exact ⟨done :: parts', .cons (ownDeltas_concat hpart hdeltas hdone) hparts', rfl⟩

theorem addRow_accumulated {view : ViewSpec} {row : Row F} {sign : ℤ} {entries : List (ℤ × Row F)}
    {nums nums' : List Num} (hnums : Accumulated view entries nums)
    (h : DeltaBatch.addRow view row sign nums = .ok nums') :
    Accumulated view (entries ++ [(sign, row)]) nums' := by
  obtain ⟨parts, hparts, rfl⟩ := hnums
  obtain ⟨rows, hrows, h⟩ := Except.bind_eq_ok.mp h
  obtain ⟨slots, hslots, h⟩ := Except.bind_eq_ok.mp h
  cases Except.pure_eq_ok.mp h
  cases hrows
  obtain ⟨parts', hparts', rfl⟩ := addAggregates_own hparts hslots
  refine ⟨parts', hparts', ?_⟩
  rw [List.map_append, List.sum_append, List.map_singleton, List.sum_singleton]

omit [PyFloat F] in
theorem zeros_eq {view : ViewSpec} {plan : Plan} {storage : List Storage}
    (hp : PlanFor view plan storage) : plan.zeros = .int 0 :: view.aggregates.flatMap ownZeros := by
  rw [hp.zeros_eq, (viewStorage_own hp.storage_ok).2.1]

theorem zeros_accumulated {view : ViewSpec} {plan : Plan} {storage : List Storage}
    (hp : PlanFor view plan storage) : Accumulated view ([] : List (ℤ × Row F)) plan.zeros := by
  refine ⟨view.aggregates.map ownZeros, ?_, ?_⟩
  · rw [List.forall₂_map_right_iff, List.forall₂_same]
    exact fun agg _ => rfl
  · rw [zeros_eq hp, List.flatMap_def]
    rfl

/-! ### A batch -/

structure Collected (views : List ViewSpec) (events : List (RowEvent F)) (b : DeltaBatch F) :
    Prop where
  plans : ∀ p ∈ b.plans, p.1 = p.2.view.name ∧ p.2.view ∈ views ∧ buildPlan p.2.view = .ok p.2
  nodup : (Dict.keys b.plans).Nodup
  groups : ∀ p ∈ b.plans,
    Dict.Match (Accumulated p.2.view) (ledger p.2.view events) (b.groups p.1)

theorem init_collected {views : List ViewSpec} {b : DeltaBatch F}
    (h : DeltaBatch.init views = .ok b) :
    Collected views [] b := by
  obtain ⟨items, hitems, h⟩ := Except.bind_eq_ok.mp h
  cases Except.pure_eq_ok.mp h
  have hitems : ∀ p ∈ items, p.1 = p.2.view.name ∧ p.2.view ∈ views ∧
      buildPlan p.2.view = .ok p.2 := by
    intro p hp
    obtain ⟨view, hview, hp⟩ := (Except.mapM_eq_ok.mp hitems).exists_of_mem_right hp
    obtain ⟨plan, hplan, hp⟩ := Except.bind_eq_ok.mp hp
    cases Except.pure_eq_ok.mp hp
    obtain ⟨storage, hfor⟩ := buildPlan_ok hplan
    rw [hfor.view_eq]
    exact ⟨rfl, hview, hplan⟩
  refine ⟨Dict.forall_mem_ofList (P := fun name plan =>
    name = plan.view.name ∧ plan.view ∈ views ∧ buildPlan plan.view = .ok plan) hitems ?_,
    Dict.nodup_keys_ofList items, fun p _ => ?_⟩
  · intro k k' plan hk heq
    rwa [eq_of_beq heq]
  · have hnone : DeltaBatch.groups (F := F) ⟨Dict.ofList items,
        (Dict.ofList items).map fun p => (p.1, []), []⟩ p.1 = [] := by
      rw [DeltaBatch.groups]
      dsimp only
      rw [Dict.get?_map _ fun _ => ([] : Groups F)]
      cases Dict.get? (Dict.ofList items) p.1 <;> rfl
    rw [hnone]
    exact .nil

omit [PyFloat F] in
theorem mapM_index_eq {row : Row F} {names : List String} {key : List (Value F)}
    (h : names.mapM row.index = .ok key) : key = names.map row.value := by
  rw [← List.map_id key]
  refine ((Except.mapM_eq_ok.mp h).map_eq fun c v hv => ?_).symm
  unfold Row.index at hv
  unfold Row.value
  cases hget : Dict.get? row c with
  | none =>
    rw [hget] at hv
    cases hv
  | some value =>
    rw [hget] at hv
    exact Except.ok.inj hv

variable {views : List ViewSpec} {events : List (RowEvent F)} {b b' : DeltaBatch F} {e : RowEvent F}

omit [PyFloat F] in
theorem Collected.plan_mem {name : String} {plan : Plan} (h : b.plan name = .ok plan) :
    (name, plan) ∈ b.plans := by
  unfold DeltaBatch.plan at h
  cases hget : Dict.get? b.plans name with
  | none =>
    rw [hget] at h
    cases h
  | some plan' =>
    rw [hget] at h
    cases h
    exact Dict.mem_of_get?_eq_some hget

theorem Collected.replace (h : Collected views events b) {plan : Plan}
    (hplan : (e.view, plan) ∈ b.plans) {groups : Groups F}
    (hgroups : Dict.Match (Accumulated plan.view)
      (ledger plan.view (events ++ [e])) groups) (truncated : List String) :
    Collected views (events ++ [e]) ⟨b.plans, b.deltas.set e.view groups, truncated⟩ := by
  refine ⟨h.plans, h.nodup, fun p hp => ?_⟩
  have hset := groups_set b e.view p.1 groups
  rw [DeltaBatch.groups] at hset ⊢
  rw [hset]
  split_ifs with hname
  · have hsame : p.2 = plan := by
      have h₁ := Dict.get?_eq_some_of_mem h.nodup hp
      have h₂ := Dict.get?_eq_some_of_mem h.nodup hplan
      rw [← hname, h₂] at h₁
      exact (Option.some.inj h₁).symm
    rw [hsame]
    exact hgroups
  · rw [ledger_other fun heq => hname (heq.symm.trans (h.plans p hp).1.symm)]
    exact h.groups p hp

theorem Collected.row (h : Collected views events b) {sign : ℤ} {row : Row F}
    (he : e.entry = some (sign, row)) (hb : b.apply e.view row sign = .ok b') :
    Collected views (events ++ [e]) b' := by
  obtain ⟨plan, hplan, hb⟩ := Except.bind_eq_ok.mp hb
  obtain ⟨_, -, hb⟩ := Except.bind_eq_ok.mp hb
  obtain ⟨key, hkey, hb⟩ := Except.bind_eq_ok.mp hb
  obtain ⟨group, hgroup, hb⟩ := Except.bind_eq_ok.mp hb
  cases Except.pure_eq_ok.mp hb
  have hmem := Collected.plan_mem hplan
  obtain ⟨hname, -, hbuild⟩ := h.plans _ hmem
  obtain ⟨storage, hp⟩ := buildPlan_ok hbuild
  refine h.replace hmem ?_ b.truncated
  rw [ledger_row hname.symm he]
  have hkey : key = groupKey plan.view row := mapM_index_eq hkey
  subst hkey
  refine (h.groups _ hmem).set _ (addRow_accumulated ?_ hgroup)
  exact (h.groups _ hmem).getD _ (v := []) (zeros_accumulated hp)

theorem Collected.truncate (h : Collected views events b) (he : e.entry = none)
    (hb : b.applyTruncate e.view = .ok b') : Collected views (events ++ [e]) b' := by
  obtain ⟨plan, hplan, hb⟩ := Except.bind_eq_ok.mp hb
  cases Except.pure_eq_ok.mp hb
  have hmem := Collected.plan_mem hplan
  obtain ⟨hname, -, hbuild⟩ := h.plans _ hmem
  obtain ⟨storage, hp⟩ := buildPlan_ok hbuild
  refine h.replace hmem ?_ _
  rw [ledger_truncate hname.symm he]
  split_ifs
  · exact .nil
  · exact .cons ⟨rfl, zeros_accumulated hp⟩ .nil

theorem foldEvents_collected (h : foldEvents views events = .ok b) : Collected views events b := by
  obtain ⟨b₀, hinit, h⟩ := Except.bind_eq_ok.mp h
  refine Except.foldlM_induction (P := fun events b => Collected views events b) h
    (init_collected hinit) fun pre e b b' hb he => ?_
  cases hentry : e.entry with
  | some entry => exact hb.row hentry (applyEvent_row b hentry ▸ he)
  | none => exact hb.truncate hentry (applyEvent_truncate b hentry ▸ he)

/-! ### The parameters -/

/-- One parameter for each column: the key of a group of the view's ledger, the group's signed row
count and, at the columns of each aggregate, what that aggregate accumulates alone. -/
def Placed (view : ViewSpec) (events : List (RowEvent F)) (sql : Upsert) (params : List (Value F)) :
    Prop :=
  params.length = sql.columns.length ∧ ∃ key entries parts, (key, entries) ∈ ledger view events ∧
    List.Forall₂ (fun agg part => ownDeltas view.name agg entries = .ok part)
      view.aggregates parts ∧
    (sql.columns.map Ident.name).zip params =
      (keyColumns view).zip (DeltaBatch.keyPrefix view ++ key) ++
        (rowsColumn, .int (entries.map Prod.fst).sum) ::
          (view.aggregates.zip parts).flatMap fun p => (storageNames p.1).zip (p.2.map Num.toValue)

omit [PyFloat F] in
theorem length_flatMap_storageNames {aggs : List AggSpec} {parts : List (List Num)}
    (h : List.Forall₂ (fun agg part => part.length = (storageNames agg).length) aggs parts) :
    parts.flatten.length = (aggs.flatMap storageNames).length := by
  induction h with
  | nil => rfl
  | cons hpart _ ih =>
    rw [List.flatten_cons, List.flatMap_cons, List.length_append, List.length_append, hpart, ih]

omit [PyFloat F] in
theorem zip_flatMap_storageNames {aggs : List AggSpec} {parts : List (List Num)}
    (h : List.Forall₂ (fun agg part => part.length = (storageNames agg).length) aggs parts) :
    (aggs.flatMap storageNames).zip (parts.flatten.map (Num.toValue (F := F))) =
      (aggs.zip parts).flatMap fun p => (storageNames p.1).zip (p.2.map Num.toValue) := by
  induction h with
  | nil => rfl
  | cons hpart _ ih =>
    rw [List.flatMap_cons, List.flatten_cons, List.map_append, List.zip_append (by
      rw [List.length_map, hpart]), ih, List.zip_cons_cons, List.flatMap_cons]

theorem placed {view : ViewSpec} {plan : Plan} {storage : List Storage}
    (hp : PlanFor view plan storage) {events : List (RowEvent F)} {key : List (Value F)}
    {entries : List (ℤ × Row F)} {nums : List Num} (hmem : (key, entries) ∈ ledger view events)
    (hnums : Accumulated view entries nums) :
    Placed view events plan.upsert (DeltaBatch.keyPrefix view ++ key ++ nums.map Num.toValue) := by
  obtain ⟨parts, hparts, rfl⟩ := hnums
  have hlen := hparts.imp fun _ _ => length_ownDeltas
  have hkey := hp.length_keyParams (ledger_key_length view events _ hmem)
  have hkeyNames : (keyColumns view).length = (DeltaBatch.keyPrefix view ++ key).length := by
    rw [hkey, ← hp.conflict_eq, List.length_map]
  have hnames : plan.upsert.columns.map Ident.name =
      keyColumns view ++ rowsColumn :: view.aggregates.flatMap storageNames := by
    rw [hp.columns_eq, insertColumns, (viewStorage_own hp.storage_ok).1]
  refine ⟨?_, key, entries, parts, hmem, hparts, ?_⟩
  · have hcolumns := congrArg List.length hnames
    rw [List.length_map, List.length_append, hkeyNames] at hcolumns
    rw [hcolumns, List.length_append, List.length_map, List.length_cons, List.length_cons,
      length_flatMap_storageNames hlen]
  · rw [hnames, List.zip_append hkeyNames, List.map_cons, List.zip_cons_cons,
      zip_flatMap_storageNames hlen]
    rfl

omit [PyFloat F] in
theorem mem_statements {s : Dml F} (h : s ∈ b.statements) : ∃ p ∈ b.plans,
    s = .deleteAll p.2.upsert.target ∨
    (∃ g ∈ b.groups p.1, s = .upsert p.2.upsert
      (DeltaBatch.keyPrefix p.2.view ++ g.1 ++ g.2.map Num.toValue)) ∨
    s = .deleteEmpty p.2.upsert.target DeltaBatch.rowsIdent := by
  rcases List.mem_append.mp h with h | h
  · rcases List.mem_append.mp h with h | h
    · obtain ⟨p, hp, hs⟩ := List.mem_flatMap.mp h
      split_ifs at hs
      · exact ⟨p, hp, .inl (List.mem_singleton.mp hs)⟩
      · cases hs
    · obtain ⟨p, hp, hs⟩ := List.mem_flatMap.mp h
      obtain ⟨g, hg, hs⟩ := List.mem_map.mp hs
      exact ⟨p, hp, .inr (.inl ⟨g, hg, hs.symm⟩)⟩
  · obtain ⟨p, hp, hs⟩ := List.mem_flatMap.mp h
    split_ifs at hs
    · exact ⟨p, hp, .inr (.inr (List.mem_singleton.mp hs))⟩
    · cases hs

theorem Collected.placed (h : Collected views events b) {sql : Upsert} {params : List (Value F)}
    (hsql : .upsert sql params ∈ b.statements) :
    ∃ view ∈ views, ∃ plan, buildPlan view = .ok plan ∧ sql = plan.upsert ∧
      Placed view events sql params := by
  obtain ⟨p, hp, hs | ⟨g, hg, hs⟩ | hs⟩ := mem_statements hsql
  · cases hs
  · cases hs
    obtain ⟨-, hview, hbuild⟩ := h.plans p hp
    obtain ⟨storage, hfor⟩ := buildPlan_ok hbuild
    obtain ⟨g', hg', hkey, hnums⟩ := (h.groups p hp).exists_of_mem_right hg
    refine ⟨p.2.view, hview, p.2, hbuild, rfl, ?_⟩
    rw [← hkey]
    exact Aggregates.placed hfor hg' hnums
  · cases hs

theorem foldOps_statements {ops : List (Op F)} (h : foldOps views ops = .ok b) {s : Dml F}
    (hs : s ∈ b.statements) : ∃ view ∈ views, ∃ plan, buildPlan view = .ok plan ∧
      (s = .deleteAll plan.upsert.target ∨ (∃ params, s = .upsert plan.upsert params) ∨
        s = .deleteEmpty plan.upsert.target DeltaBatch.rowsIdent) := by
  rw [foldOps_eq] at h
  obtain ⟨p, hp, hs⟩ := mem_statements hs
  obtain ⟨-, hview, hbuild⟩ := (foldEvents_collected h).plans p hp
  refine ⟨p.2.view, hview, p.2, hbuild, ?_⟩
  rcases hs with hs | ⟨g, -, hs⟩ | hs
  · exact .inl hs
  · exact .inr (.inl ⟨_, hs⟩)
  · exact .inr (.inr hs)

/-- For a view of valid identifiers the table definition, the backfill and the upsert are all
generated; whenever they are, they agree column by column, and so do the parameters of every upsert
of every batch. -/
theorem generators_agree (view : ViewSpec) (types : Dict String String) :
    (ValidView view types → ∃ ddl q plan, targetDdl view types = .ok ddl ∧
      backfillSql view = .ok q ∧
      buildPlan view = .ok plan) ∧
    (∀ ddl q plan, targetDdl view types = .ok ddl → backfillSql view = .ok q →
      buildPlan view = .ok plan → StatementsAgree view ddl q plan) ∧
    ∀ (views : List ViewSpec) (ops : List (Op F)) (b : DeltaBatch F), foldOps views ops = .ok b →
      ∀ sql params, .upsert sql params ∈ b.statements → ∃ v ∈ views, ∃ plan,
        buildPlan v = .ok plan ∧ sql = plan.upsert ∧
          Placed v (ops.flatMap Op.events) sql params := by
  refine ⟨generators_succeed, fun ddl q plan => statements_agree,
    fun views ops b hb sql params hsql => ?_⟩
  rw [foldOps_eq] at hb
  exact (foldEvents_collected hb).placed hsql

theorem sampleView_valid : ValidView sampleView [("status", "text")] where
  names := by
    simp only [sampleView, List.mem_cons, List.not_mem_nil, or_false, forall_eq_or_imp, forall_eq]
    exact ⟨⟨_, rfl⟩, ⟨_, rfl⟩, ⟨_, rfl⟩, ⟨_, rfl⟩⟩
  types := List.forall_mem_singleton.mpr rfl
  aliases := by
    simp only [sampleView, storageNames, List.mem_cons, List.not_mem_nil, or_false,
      forall_eq_or_imp, forall_eq]
    exact ⟨⟨_, rfl⟩, ⟨_, rfl⟩, ⟨_, rfl⟩⟩
  columns := by
    simp only [sampleView, List.mem_singleton, forall_eq, Option.some.injEq, forall_eq']
    exact ⟨_, rfl⟩
  hasColumn := by simp [sampleView]

theorem generators_agree_orderTotals :
    (∃ ddl q plan, StatementsAgree sampleView ddl q plan) ∧
      ∃ b, foldOps [sampleView] [.insert "order_totals" (sampleRow 1 0)] = .ok b ∧
        b.statements.filterMap emittedDeltas ≠ [] ∧
        ∀ sql params, .upsert sql params ∈ b.statements → ∃ v ∈ [sampleView],
          Placed v [.insert "order_totals" (sampleRow 1 0)] sql params := by
  obtain ⟨hsucceed, hagree, hplaced⟩ := generators_agree (F := Empty) sampleView
    [("status", "text")]
  obtain ⟨ddl, q, plan, hddl, hq, hplan⟩ := hsucceed sampleView_valid
  refine ⟨⟨ddl, q, plan, hagree ddl q plan hddl hq hplan⟩, ?_⟩
  have hrun : (foldOps [sampleView] [.insert "order_totals" (sampleRow 1 0)]).map
      (·.statements.filterMap emittedDeltas) =
      .ok [("order_totals", [.str "open"], [1, 1, 1])] := by
    decide +kernel
  obtain ⟨b, hb, hemitted⟩ := Except.map_eq_ok.mp hrun
  refine ⟨b, hb, by simp [hemitted], fun sql params hsql => ?_⟩
  obtain ⟨v, hv, -, -, -, hplaced⟩ := hplaced _ _ b hb sql params hsql
  exact ⟨v, hv, hplaced⟩

end WalFlux.Aggregates
