import WalFlux.Aggregates.Changes

/-! The statements of one view on its target table: they delete, add and prune as on a
keyed table. -/

namespace WalFlux.Aggregates

open Sql Python

variable {F K : Type} [DecidableEq K] {read : String → Value F → K}
  {types : Dict String String}

/-! ### Parameters as cells -/

variable {view : ViewSpec} {plan : Plan} {storage : List Storage} {t : Table K}

omit [DecidableEq K] in
theorem cell_of_store {columns : List Ident} {columnTypes : List ColumnType}
    (ht : List.Forall₂ (fun c type => t.typeOf c = some type) columns columnTypes)
    {params : List (Value F)} {cells : List (Cell K)}
    (h : List.Forall₂ (fun p cell => p.1.store read p.2 = some cell)
      (columnTypes.zip params) cells) :
    List.Forall₂ (fun p cell => t.cell read p.1 p.2 = .ok cell) (columns.zip params) cells := by
  induction ht generalizing params cells with
  | nil => simpa using h
  | cons hc _ ih =>
    cases params with
    | nil => simpa using h
    | cons v params =>
      obtain ⟨cell, cells, hcell, hrest, rfl⟩ := List.forall₂_cons_left_iff.mp h
      refine .cons ?_ (ih hrest)
      rw [Table.cell, hc, Option.bind_some, hcell]

omit [DecidableEq K] in
theorem store_keys {key : List (Value F)} (hkey : key.length = view.groupBy.length) :
    List.Forall₂ (fun p cell => ColumnType.store read p.1 p.2 = some cell)
      ((if view.groupBy ≠ [] then view.groupBy.map fun c => .source (typeName types c)
        else [.boolean]).zip (DeltaBatch.keyPrefix view ++ key))
        (paramKey read types view key) := by
  rw [paramKey, DeltaBatch.keyPrefix]
  split_ifs with hg
  · have hzip : List.zipWith (fun c v => Cell.key (read (typeName types c) v)) view.groupBy key =
        (view.groupBy.zip key).map fun p => .key (read (typeName types p.1) p.2) :=
      (List.map_zip_eq_zipWith (f := fun p => Cell.key (read (typeName types p.1) p.2))).symm
    rw [List.nil_append, List.zip_map_left, hzip, List.forall₂_map_left_iff,
      List.forall₂_map_right_iff, List.forall₂_same]
    exact fun p _ => rfl
  · rw [not_not.mp hg, List.length_nil, List.length_eq_zero_iff] at hkey
    subst hkey
    exact .cons rfl .nil

omit [DecidableEq K] in
variable (read) in
theorem store_numbers (hp : PlanFor view plan storage) {nums : List Num}
    (hnums : KindsOf (slots view) nums) :
    List.Forall₂ (fun p cell => ColumnType.store read p.1 p.2 = some cell)
      ((.bigint :: storage.map Storage.ddlType).zip (nums.map (Num.toValue (F := F))))
      (nums.map fun n => Cell.num n.toRat) := by
  have htypes : .bigint :: storage.map Storage.ddlType =
      (slots view).map fun slot => if slot.isSum then ColumnType.numeric else .bigint :=
    congrArg (List.cons _) ((viewStorage_slots hp.storage_ok).map_eq fun _ _ hs =>
      hs.ddlType_eq.symm).symm
  rw [htypes]
  rw [KindsOf] at hnums
  generalize slots view = slots at hnums
  induction nums generalizing slots with
  | nil => simp
  | cons n nums ih =>
    obtain ⟨slot, slots, rfl, hn, hnums⟩ := List.map_eq_cons_iff.mp hnums.symm
    refine .cons ?_ (ih slots hnums.symm)
    cases n with
    | int i => simp [hn, Num.isDec, Num.toValue, Num.toRat, ColumnType.store]
    | dec d => simp [hn, Num.isDec, Num.toValue, Num.toRat, ColumnType.store]

omit [DecidableEq K] in
variable (read types) in
theorem length_paramKey {key : List (Value F)} (hkey : key.length = view.groupBy.length) :
    (paramKey read types view key).length = (DeltaBatch.keyPrefix view ++ key).length := by
  rw [paramKey, DeltaBatch.keyPrefix]
  split_ifs with hg
  · simp [hkey]
  · simp [hkey, not_not.mp hg]

omit [DecidableEq K] in
variable (read) in
theorem upsert_cells (hp : PlanFor view plan storage) (ht : TargetOf types view plan storage t)
    {key : List (Value F)} (hkey : key.length = view.groupBy.length) {nums : List Num}
    (hnums : KindsOf (slots view) nums) :
    (plan.upsert.columns.zip (DeltaBatch.keyPrefix view ++ key ++ nums.map Num.toValue)).mapM
        (fun p => t.cell read p.1 p.2) =
      .ok (ht.layout.cells (paramKey read types view key) (numbers nums)) := by
  have hlen : (if view.groupBy ≠ [] then view.groupBy.map fun c =>
    ColumnType.source (typeName types c)
      else [.boolean]).length = (DeltaBatch.keyPrefix view ++ key).length := by
    rw [← length_paramKey read types hkey, paramKey]
    split_ifs
    · simp [hkey]
    · rfl
  have hnumbers : (List.range ht.layout.numbers.length).map (fun i =>
    Cell.num (K := K) (numbers nums i)) =
      nums.map fun n => .num n.toRat := by
    have hlength : ht.layout.numbers.length = nums.length :=
      hp.length_updates.trans hnums.length.symm
    rw [hlength]
    refine List.ext_getElem (by simp) fun i hi hi' => ?_
    simp only [List.length_map] at hi'
    simp [numbers, List.getElem?_eq_getElem hi']
  rw [Except.mapM_eq_ok, Layout.cells, hnumbers]
  refine cell_of_store ht.typeOf_eq ?_
  rw [columnTypes, List.zip_append hlen]
  exact List.rel_append (store_keys hkey) (store_numbers read hp hnums)

/-! ### The statements of a view -/

omit [DecidableEq K] in
theorem layout_upsert (hp : PlanFor view plan storage) (ht : TargetOf types view plan storage t) :
    ht.layout.upsert plan.upsert.target = plan.upsert := by
  change Upsert.mk _ (plan.upsert.conflict ++ plan.upsert.updates) plan.upsert.conflict
    plan.upsert.updates = _
  rw [← hp.columns_append]

omit [DecidableEq K] in
theorem accepts_columns (hp : PlanFor view plan storage) (ht : TargetOf types view plan storage t)
    (rows : Multiset (TableRow K)) : (t.withRows rows).Accepts plan.upsert.columns := by
  refine ⟨hp.columns_append ▸ ht.nodup, fun c hc => ?_⟩
  obtain ⟨type, -, htype⟩ := ht.typeOf_eq.exists_of_mem_left hc
  exact Option.isSome_iff_exists.mpr ⟨type, htype⟩

theorem run_upsert (hp : PlanFor view plan storage) (ht : TargetOf types view plan storage t)
    {kt : KeyedTable (List (Cell K)) (ℕ → ℚ)} (hfill : ht.layout.Fills kt) {key : List (Value F)}
    (hkey : key.length = view.groupBy.length) {nums : List Num}
    (hnums : KindsOf (slots view) nums) :
    (Dml.upsert plan.upsert (DeltaBatch.keyPrefix view ++ key ++ nums.map Num.toValue)).run read
        (t.withRows (ht.layout.rows kt)) =
      .ok (t.withRows (ht.layout.rows (kt.upsert (paramKey read types view key)
        (numbers nums)))) := by
  have hcells := upsert_cells read hp ht hkey hnums
  have hlen : (DeltaBatch.keyPrefix view ++ key ++ nums.map Num.toValue).length =
      plan.upsert.columns.length := by
    rw [List.length_append, hp.length_keyParams hkey, List.length_map, hnums.length,
      ← hp.length_updates, ← List.length_append, hp.columns_append]
  have hk : (paramKey read types view key).length = ht.layout.keys.length :=
    (length_paramKey read types hkey).trans (hp.length_keyParams hkey)
  rw [Dml.run, if_pos ⟨accepts_columns hp ht _, hlen, ht.unique_eq⟩]
  change ((plan.upsert.columns.zip (DeltaBatch.keyPrefix view ++ key ++ nums.map Num.toValue)).mapM
    (fun p => t.cell read p.1 p.2) >>= _) = _
  rw [hcells]
  have hput : (ht.layout.upsert plan.upsert.target).put (ht.layout.rows kt) _ = _ :=
    Layout.put_rows hfill hk (numbers nums)
  rw [layout_upsert hp ht] at hput
  rw [← hput, Layout.row]
  change Except.ok (t.withRows _) = _
  rw [hp.columns_append]
  rfl

def viewStatements (plan : Plan) (groups : Groups F) (truncated : Bool) : List (Dml F) :=
  (if truncated then [.deleteAll plan.upsert.target] else []) ++
    (groups.map fun g =>
      .upsert plan.upsert (DeltaBatch.keyPrefix plan.view ++ g.1 ++ g.2.map Num.toValue)) ++
    if plan.view.groupBy ≠ [] ∧ (truncated = true ∨ groups ≠ []) then
      [.deleteEmpty plan.upsert.target DeltaBatch.rowsIdent] else []

def rowCount : (ℕ → ℚ) →+ ℚ := Pi.evalAddMonoidHom (fun _ => ℚ) 0

def maintain (grouped truncated : Bool) (us : List (List (Cell K) × (ℕ → ℚ)))
    (kt : KeyedTable (List (Cell K)) (ℕ → ℚ)) : KeyedTable (List (Cell K)) (ℕ → ℚ) :=
  let kt' := (if truncated then .empty else kt).upserts us
  if grouped ∧ (truncated ∨ us ≠ []) then kt'.prune rowCount else kt'

variable (read) in
theorem run_upserts (hp : PlanFor view plan storage) (ht : TargetOf types view plan storage t)
    {groups : Groups F} (hkeys : ∀ g ∈ groups, g.1.length = view.groupBy.length)
    (hnums : ∀ g ∈ groups, KindsOf (slots view) g.2) {kt : KeyedTable (List (Cell K)) (ℕ → ℚ)}
    (hfill : ht.layout.Fills kt) :
    ht.layout.Fills (kt.upserts (upsertsOf read types view groups)) ∧
      (groups.map fun g => Dml.upsert plan.upsert
          (DeltaBatch.keyPrefix plan.view ++ g.1 ++ g.2.map Num.toValue)).foldlM
        (fun t s => s.run read t) (t.withRows (ht.layout.rows kt)) =
      .ok (t.withRows (ht.layout.rows (kt.upserts (upsertsOf read types view groups)))) := by
  induction groups generalizing kt with
  | nil => exact ⟨hfill, rfl⟩
  | cons g groups ih =>
    obtain ⟨hkey, hkeys⟩ := List.forall_mem_cons.mp hkeys
    obtain ⟨hnum, hnums⟩ := List.forall_mem_cons.mp hnums
    have hk : (paramKey read types view g.1).length = ht.layout.keys.length :=
      (length_paramKey read types hkey).trans (hp.length_keyParams hkey)
    obtain ⟨hfills, hrun⟩ := ih hkeys hnums (hfill.upsert hk (numbers g.2))
    refine ⟨hfills, ?_⟩
    rw [List.map_cons, List.foldlM_cons, hp.view_eq, run_upsert hp ht hfill hkey hnum]
    rw [hp.view_eq] at hrun
    exact hrun

theorem run_cleanup (hp : PlanFor view plan storage) (ht : TargetOf types view plan storage t)
    {kt : KeyedTable (List (Cell K)) (ℕ → ℚ)} (hfill : ht.layout.Fills kt) :
    (Dml.deleteEmpty plan.upsert.target DeltaBatch.rowsIdent : Dml F).run read
        (t.withRows (ht.layout.rows kt)) =
      .ok (t.withRows (ht.layout.rows (kt.prune rowCount))) := by
  have hpos : 0 < ht.layout.numbers.length := by
    rw [show ht.layout.numbers.length = _ from hp.length_updates]
    exact Nat.succ_pos _
  have hrows : ht.layout.numbers[0] = DeltaBatch.rowsIdent := by
    refine Ident.ext ?_
    have hname := congrArg (·[0]?) hp.updates_eq
    simp only [List.getElem?_map, List.getElem?_cons_zero] at hname
    rw [show plan.upsert.updates[0]? = some ht.layout.numbers[0] from List.getElem?_eq_getElem hpos]
      at hname
    exact Option.some.inj hname
  rw [Dml.run, rowCount, ← Layout.filter_rows hfill hpos, hrows]
  rfl

theorem run_viewStatements (hp : PlanFor view plan storage)
    (ht : TargetOf types view plan storage t) {groups : Groups F}
    (hkeys : ∀ g ∈ groups, g.1.length = view.groupBy.length)
    (hnums : ∀ g ∈ groups, KindsOf (slots view) g.2) {kt : KeyedTable (List (Cell K)) (ℕ → ℚ)}
    (hfill : ht.layout.Fills kt) (truncated : Bool) :
    (viewStatements plan groups truncated).foldlM (fun t s => s.run read t)
        (t.withRows (ht.layout.rows kt)) =
      .ok (t.withRows (ht.layout.rows (maintain (view.groupBy ≠ []) truncated
        (upsertsOf read types view groups) kt))) := by
  have hfill' : ht.layout.Fills (if truncated then .empty else kt) := by
    split_ifs
    · exact Layout.fills_empty
    · exact hfill
  obtain ⟨hfills, hrun⟩ := run_upserts read hp ht hkeys hnums hfill'
  have hdelete : (if truncated then [Dml.deleteAll plan.upsert.target] else []).foldlM
      (fun t s => Dml.run (F := F) read s t) (t.withRows (ht.layout.rows kt)) =
      .ok (t.withRows (ht.layout.rows (if truncated then .empty else kt))) := by
    cases truncated <;> rfl
  have hcleanup : ∀ kt : KeyedTable (List (Cell K)) (ℕ → ℚ), ht.layout.Fills kt →
      (if view.groupBy ≠ [] ∧ (truncated = true ∨ groups ≠ []) then
          [Dml.deleteEmpty plan.upsert.target DeltaBatch.rowsIdent] else []).foldlM
        (fun t s => Dml.run (F := F) read s t) (t.withRows (ht.layout.rows kt)) =
      .ok (t.withRows (ht.layout.rows (if view.groupBy ≠ [] ∧ (truncated = true ∨ groups ≠ []) then
        kt.prune rowCount else kt))) := by
    intro kt hkt
    split_ifs
    · rw [List.foldlM_cons, run_cleanup hp ht hkt]
      rfl
    · rfl
  refine Except.foldlM_append_eq_ok.mpr
    ⟨_, Except.foldlM_append_eq_ok.mpr ⟨_, hdelete, hrun⟩, ?_⟩
  rw [hp.view_eq, hcleanup _ hfills, maintain]
  simp only [decide_eq_true_eq, upsertsOf, ne_eq, List.map_eq_nil_iff]

/-! ### A batch, table by table -/

def RunsTo (read : String → Value F → K) (statements : List (Dml F))
    (slot slot' : Option (Table K)) :
    Prop :=
  statements = [] ∧ slot = slot' ∨
    ∃ t t', slot = some t ∧ slot' = some t' ∧ statements.foldlM (fun t s => s.run read t) t = .ok t'

theorem RunsTo.of_nil {slot slot' : Option (Table K)} (h : RunsTo read
      ([] : List (Dml F)) slot slot') :
    slot = slot' := by
  rcases h with ⟨-, h⟩ | ⟨t, t', rfl, rfl, h⟩
  · exact h
  · exact congrArg some (Except.pure_eq_ok.mp h)

theorem execAll_eq_ok {statements : List (Dml F)} {db db' : Tables K}
    (h : ∀ name, RunsTo read (statements.filter (·.table = name)) (db name) (db' name)) :
    execAll read statements db = .ok db' := by
  induction statements generalizing db with
  | nil =>
    have heq : db = db' := funext fun name => (h name).of_nil
    rw [heq]
    rfl
  | cons s statements ih =>
    have hs := h s.table
    rw [List.filter_cons_of_pos (by simp)] at hs
    obtain ⟨h', -⟩ | ⟨t, t', ht, ht', hrun⟩ := hs
    · cases h'
    · rw [List.foldlM_cons, Except.bind_eq_ok] at hrun
      obtain ⟨t₁, hfirst, hrest⟩ := hrun
      have hexec : s.exec read db = .ok (Function.update db s.table (some t₁)) := by
        rw [Dml.exec, ht]
        simp only [hfirst, Except.map]
      refine Except.bind_eq_ok.mpr ⟨_, hexec, ih fun name => ?_⟩
      by_cases hname : name = s.table
      · subst hname
        exact .inr ⟨t₁, t', Function.update_self .., ht', hrest⟩
      · rw [Function.update_of_ne hname]
        have := h name
        rwa [List.filter_cons_of_neg (by simpa using Ne.symm hname)] at this

omit [DecidableEq K] in
theorem filter_table_flatMap {plans : Dict String Plan} {f : String × Plan → List (Dml F)}
    (hf : ∀ p ∈ plans, ∀ s ∈ f p, s.table = p.2.upsert.target)
    (hplans : (plans.map fun p => p.2.upsert.target).Nodup) {p : String × Plan} (hp : p ∈ plans) :
    (plans.flatMap f).filter (·.table = p.2.upsert.target) = f p := by
  induction plans with
  | nil => cases hp
  | cons q plans ih =>
    rw [List.map_cons, List.nodup_cons] at hplans
    have hq := hf q List.mem_cons_self
    have hf' := fun p hp => hf p (List.mem_cons_of_mem _ hp)
    rw [List.flatMap_cons, List.filter_append]
    rcases List.mem_cons.mp hp with rfl | hp
    · have hrest : (plans.flatMap f).filter (·.table = p.2.upsert.target) = [] := by
        refine List.filter_eq_nil_iff.mpr fun s hs => ?_
        obtain ⟨r, hr, hs⟩ := List.mem_flatMap.mp hs
        rw [hf _ (List.mem_cons_of_mem _ hr) s hs]
        have hne : r.2.upsert.target ≠ p.2.upsert.target := fun e =>
          hplans.1 (List.mem_map.mpr ⟨r, hr, e⟩)
        simpa using hne
      rw [hrest, List.append_nil, List.filter_eq_self.mpr]
      simpa using hq
    · have hfirst : (f q).filter (·.table = p.2.upsert.target) = [] := by
        refine List.filter_eq_nil_iff.mpr fun s hs => ?_
        rw [hq s hs]
        have hne : q.2.upsert.target ≠ p.2.upsert.target := fun e =>
          hplans.1 (List.mem_map.mpr ⟨p, hp, e.symm⟩)
        simpa using hne
      rw [hfirst, List.nil_append, ih hf' hplans.2 hp]

theorem filter_statements {b : DeltaBatch F} (hplans : (b.plans.map fun p =>
      p.2.upsert.target).Nodup)
    {p : String × Plan} (hp : p ∈ b.plans) :
    b.statements.filter (·.table = p.2.upsert.target) =
      viewStatements p.2 (b.groups p.1) (p.1 ∈ b.truncated) := by
  rw [DeltaBatch.statements, List.filter_append, List.filter_append, viewStatements]
  refine congrArg₂ (· ++ ·) (congrArg₂ (· ++ ·) ?_ ?_) ?_
  · rw [DeltaBatch.deleteStatements, filter_table_flatMap _ hplans hp]
    · simp
    · intro q _ s hs
      split_ifs at hs
      · exact List.mem_singleton.mp hs ▸ rfl
      · cases hs
  · rw [DeltaBatch.upsertStatements, filter_table_flatMap _ hplans hp]
    intro q _ s hs
    obtain ⟨g, -, rfl⟩ := List.mem_map.mp hs
    rfl
  · rw [DeltaBatch.cleanupStatements, filter_table_flatMap _ hplans hp]
    · simp
    · intro q _ s hs
      split_ifs at hs
      · exact List.mem_singleton.mp hs ▸ rfl
      · cases hs

theorem table_mem_statements {b : DeltaBatch F} {s : Dml F} (hs : s ∈ b.statements) :
    ∃ p ∈ b.plans, s.table = p.2.upsert.target := by
  rw [DeltaBatch.statements, List.mem_append, List.mem_append] at hs
  rcases hs with (hs | hs) | hs <;> obtain ⟨p, hp, hs⟩ :=
    List.mem_flatMap.mp hs <;> refine ⟨p, hp, ?_⟩
  · split_ifs at hs
    · exact List.mem_singleton.mp hs ▸ rfl
    · cases hs
  · obtain ⟨g, -, rfl⟩ := List.mem_map.mp hs
    rfl
  · split_ifs at hs
    · exact List.mem_singleton.mp hs ▸ rfl
    · cases hs

end WalFlux.Aggregates
