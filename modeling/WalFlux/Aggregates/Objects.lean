import WalFlux.Aggregates.Exactness

/-! The batch with the objects its rows are made of. A dictionary takes two keys for the same when
their values are the same object or equal, so a NaN, which equals nothing, finds its group again
only as the object it went in as. -/

namespace WalFlux.Aggregates

open Sql Python

/-! ### Objects -/

/-- Where a value was made: the row message, its old or its new tuple, and the column. -/
structure Origin where
  message : ℕ
  new : Bool
  column : String
  deriving DecidableEq

structure Obj (F : Type) where
  origin : Origin
  value : Value F

abbrev ObjRow (F : Type) := Dict String (Obj F)

inductive ObjOp (F : Type)
  | insert (view : String) (new : ObjRow F)
  | update (view : String) (old new : ObjRow F)
  | delete (view : String) (old : ObjRow F)
  | truncate (view : String)

section Rows

variable {F : Type}

def ObjRow.values (row : ObjRow F) : Row F := row.map fun p => (p.1, p.2.value)

def ObjRow.index (row : ObjRow F) (column : String) : Except Error (Obj F) :=
  match Dict.get? row column with
  | some object => .ok object
  | none => .error .key

def ObjRow.make (message : ℕ) (new : Bool) (row : Row F) : ObjRow F :=
  row.map fun p => (p.1, ⟨⟨message, new, p.1⟩, p.2⟩)

def ObjOp.op : ObjOp F → Op F
  | .insert view new => .insert view new.values
  | .update view old new => .update view old.values new.values
  | .delete view old => .delete view old.values
  | .truncate view => .truncate view

def Op.make (message : ℕ) : Op F → ObjOp F
  | .insert view new => .insert view (.make message true new)
  | .update view old new => .update view (.make message false old) (.make message true new)
  | .delete view old => .delete view (.make message false old)
  | .truncate view => .truncate view

def makeOps : ℕ → List (Op F) → List (ObjOp F)
  | _, [] => []
  | message, op :: ops => op.make message :: makeOps (message + 1) ops

@[simp] theorem values_make (message : ℕ) (new : Bool) (row : Row F) :
    (ObjRow.make message new row).values = row := by
  simp [ObjRow.make, ObjRow.values, Function.comp_def]

theorem index_values (row : ObjRow F) (column : String) :
    row.values.index column = (row.index column).map Obj.value := by
  rw [ObjRow.values, Row.index, ObjRow.index, Dict.get?_map]
  cases Dict.get? row column <;> rfl

end Rows

variable {F : Type} [PyFloat F]

def isNan (value : Value F) : Bool := value.number = some .nan

theorem beq_self (value : Value F) : (value == value) = !isNan value := by
  have hnumber : ∀ n : Number, n.eq n = !decide (n = .nan) := by
    intro n
    cases n <;> simp [Number.eq]
  change value.eq value = _
  cases value <;> simp [Value.eq, Value.number, isNan, hnumber]

variable [DecidableEq F]

/-- `is` or `==` -/
instance : BEq (Obj F) :=
  ⟨fun a b => (a.origin = b.origin ∧ a.value = b.value) || a.value == b.value⟩

theorem obj_beq (a b : Obj F) :
    (a == b) = ((a.origin = b.origin ∧ a.value = b.value) || a.value == b.value) := rfl

/-! ### The batch -/

abbrev ObjGroups (F : Type) := Dict (List (Obj F)) (List Num)

structure ObjBatch (F : Type) where
  plans : Dict String Plan
  deltas : Dict String (ObjGroups F)
  truncated : List String

namespace ObjBatch

def batch (b : ObjBatch F) : DeltaBatch F :=
  ⟨b.plans, b.deltas.map fun p => (p.1, p.2.map fun g => (g.1.map Obj.value, g.2)), b.truncated⟩

def init (views : List ViewSpec) : Except Error (ObjBatch F) := do
  let b : DeltaBatch F ← DeltaBatch.init views
  return ⟨b.plans, b.plans.map fun p => (p.1, []), []⟩

def groups (b : ObjBatch F) (viewName : String) : ObjGroups F :=
  (Dict.get? b.deltas viewName).getD []

def apply (b : ObjBatch F) (viewName : String) (row : ObjRow F) (sign : ℤ) :
    Except Error (ObjBatch F) := do
  let plan ← b.batch.plan viewName
  DeltaBatch.checkNeeded plan.view row.values plan.needed
  let key ← plan.view.groupBy.mapM row.index
  let groups := b.groups viewName
  let group ← DeltaBatch.addRow plan.view row.values sign ((Dict.get? groups key).getD plan.zeros)
  return { b with deltas := Dict.set b.deltas viewName (Dict.set groups key group) }

def applyTruncate (b : ObjBatch F) (viewName : String) : Except Error (ObjBatch F) := do
  let plan ← b.batch.plan viewName
  let groups := if plan.view.groupBy ≠ [] then [] else [([], plan.zeros)]
  return { b with
    deltas := Dict.set b.deltas viewName groups
    truncated := b.truncated.insert viewName }

def applyOp (b : ObjBatch F) : ObjOp F → Except Error (ObjBatch F)
  | .insert view new => b.apply view new 1
  | .update view old new => do
    let b ← b.apply view old (-1)
    b.apply view new 1
  | .delete view old => b.apply view old (-1)
  | .truncate view => b.applyTruncate view

end ObjBatch

def foldObjects (views : List ViewSpec) (ops : List (ObjOp F)) : Except Error (ObjBatch F) := do
  ops.foldlM ObjBatch.applyOp (← ObjBatch.init views)

/-! ### Objects that no key can tell apart -/

/-- The same value, and for a NaN the same object. -/
def Obj.Alike (a b : Obj F) : Prop :=
  a.value = b.value ∧ (isNan a.value = true → a.origin = b.origin)

omit [DecidableEq F] in
theorem Obj.Alike.symm {a b : Obj F} (h : a.Alike b) : b.Alike a :=
  ⟨h.1.symm, fun hnan => (h.2 (h.1 ▸ hnan)).symm⟩

theorem Obj.Alike.beq_of_beq {a a' b b' : Obj F} (ha : a.Alike a') (hb : b.Alike b')
    (h : (a == b) = true) : (a' == b') = true := by
  rw [obj_beq, Bool.or_eq_true, decide_eq_true_iff] at h ⊢
  rw [← ha.1, ← hb.1]
  obtain ⟨horigin, hvalue⟩ | heq := h
  · by_cases hnan : isNan a.value = true
    · -- the same NaN on both sides
      refine .inl ⟨?_, hvalue⟩
      rw [← ha.2 hnan, horigin, hb.2 (hvalue ▸ hnan)]
    · refine .inr ?_
      rw [← hvalue, beq_self, Bool.eq_false_of_not_eq_true hnan, Bool.not_false]
  · exact .inr heq

theorem Obj.Alike.beq_eq {a a' b b' : Obj F} (ha : a.Alike a') (hb : b.Alike b') :
    (a == b) = (a' == b') :=
  Bool.eq_iff_iff.mpr ⟨ha.beq_of_beq hb, ha.symm.beq_of_beq hb.symm⟩

theorem alike_keys {j j' k k' : List (Obj F)} (hj : List.Forall₂ Obj.Alike j j')
    (hk : List.Forall₂ Obj.Alike k k') : (j == k) = (j' == k') := by
  induction hj generalizing k k' with
  | nil => cases hk <;> rfl
  | cons ha hj ih =>
    cases hk with
    | nil => rfl
    | cons hb hk => rw [List.cons_beq_cons, List.cons_beq_cons, ha.beq_eq hb, ih hk]

def ObjRow.Alike (cols : List String) (row row' : ObjRow F) : Prop :=
  List.Forall₂ (fun p p' => p.1 = p'.1 ∧ p.2.value = p'.2.value ∧ (p.1 ∈ cols → p.2.Alike p'.2))
    row row'

omit [DecidableEq F] in
theorem ObjRow.Alike.refl (cols : List String) (row : ObjRow F) : row.Alike cols row :=
  List.forall₂_same.mpr fun _ _ => ⟨rfl, rfl, fun _ => ⟨rfl, fun _ => rfl⟩⟩

omit [DecidableEq F] in
theorem ObjRow.Alike.values_eq {cols : List String} {row row' : ObjRow F}
    (h : row.Alike cols row') :
    row.values = row'.values :=
  h.map_eq fun _ _ hp => Prod.ext hp.1 hp.2.1

omit [DecidableEq F] in
theorem ObjRow.Alike.index {cols : List String} {row row' : ObjRow F} (h : row.Alike cols row')
    {c : String} (hc : c ∈ cols) : Except.Rel Obj.Alike (row.index c) (row'.index c) := by
  rw [ObjRow.index, ObjRow.index]
  induction h with
  | nil => exact .error _
  | cons hp h ih =>
    rename_i p p' row row'
    obtain ⟨name, a⟩ := p
    obtain ⟨name', a'⟩ := p'
    obtain ⟨rfl, -, halike⟩ := hp
    rw [Dict.get?, Dict.get?]
    split_ifs with hname
    · exact .ok (halike (eq_of_beq hname ▸ hc))
    · exact ih

omit [DecidableEq F] in
theorem ObjRow.Alike.key {cols : List String} {row row' : ObjRow F} (h : row.Alike cols row') :
    Except.Rel (List.Forall₂ Obj.Alike) (cols.mapM row.index) (cols.mapM row'.index) := by
  refine Except.Rel.mapM (T := fun c c' => c = c' ∧ c ∈ cols)
    (List.forall₂_same.mpr fun c hc => ⟨rfl, hc⟩) ?_
  rintro c _ ⟨rfl, hc⟩
  exact h.index hc

/-! ### Two runs of the batch -/

namespace ObjBatch

structure Alike (plans : Dict String Plan) (b b' : ObjBatch F) : Prop where
  left : b.plans = plans
  right : b'.plans = plans
  deltas : Dict.Match (Dict.Rekeyed (List.Forall₂ Obj.Alike) Eq) b.deltas b'.deltas
  truncated : b.truncated = b'.truncated

variable {plans : Dict String Plan} {b b' : ObjBatch F}

omit [DecidableEq F] in
theorem Alike.plan (h : Alike plans b b') (viewName : String) :
    b.batch.plan viewName = b'.batch.plan viewName := by
  rw [DeltaBatch.plan, DeltaBatch.plan, batch, batch, h.left, h.right]

omit [DecidableEq F] in
theorem Alike.batch_eq (h : Alike plans b b') : b.batch = b'.batch := by
  have hdeltas : b.batch.deltas = b'.batch.deltas := by
    refine h.deltas.map_eq fun p p' hp => Prod.ext hp.1 (hp.2.map_eq fun g g' hg => ?_)
    exact Prod.ext (hg.1.map_eq fun a a' ha => ha.1) hg.2
  have hplans : b.batch.plans = b'.batch.plans := h.left.trans h.right.symm
  have htruncated : b.batch.truncated = b'.batch.truncated := h.truncated
  exact DeltaBatch.mk.injEq .. ▸ ⟨hplans, hdeltas, htruncated⟩

theorem Alike.apply (h : Alike plans b b') {viewName : String} {row row' : ObjRow F}
    (hrow : ∀ plan, Dict.get? plans viewName = some plan → row.Alike plan.view.groupBy row')
    (sign : ℤ) : Except.Rel (Alike plans) (b.apply viewName row sign)
    (b'.apply viewName row' sign) := by
  rw [ObjBatch.apply, ObjBatch.apply, ← h.plan]
  cases hplan : b.batch.plan viewName with
  | error e => exact .error e
  | ok plan =>
    have hget : Dict.get? plans viewName = some plan := by
      rw [DeltaBatch.plan, batch, h.left] at hplan
      split at hplan
      · cases hplan
        assumption
      · cases hplan
    have hrow := hrow plan hget
    have hgroups : Dict.Rekeyed (List.Forall₂ Obj.Alike) Eq (b.groups viewName)
        (b'.groups viewName) :=
      h.deltas.getD viewName .nil
    rw [← hrow.values_eq]
    refine (Except.rel_refl (DeltaBatch.checkNeeded plan.view row.values plan.needed)).bind
      fun _ _ _ => ?_
    refine hrow.key.bind fun key key' hkey => ?_
    have hfound : ∀ j j', List.Forall₂ Obj.Alike j j' → (j == key) = (j' == key') :=
      fun j j' hj => alike_keys hj hkey
    dsimp only
    rw [hgroups.get? hfound]
    refine (Except.rel_refl (DeltaBatch.addRow plan.view row.values sign _)).bind ?_
    rintro group _ rfl
    exact .ok ⟨h.left, h.right, h.deltas.set viewName (hgroups.set hfound (fun _ _ hj =>
      hj) hkey rfl), h.truncated⟩

omit [DecidableEq F] in
theorem Alike.applyTruncate (h : Alike plans b b') (viewName : String) :
    Except.Rel (Alike plans) (b.applyTruncate viewName) (b'.applyTruncate viewName) := by
  rw [ObjBatch.applyTruncate, ObjBatch.applyTruncate, ← h.plan]
  refine (Except.rel_refl (b.batch.plan viewName)).bind ?_
  rintro plan _ rfl
  refine .ok ⟨h.left, h.right, h.deltas.set viewName ?_,
    congrArg (List.insert viewName) h.truncated⟩
  split_ifs
  · exact .nil
  · exact .cons ⟨.nil, rfl⟩ .nil

end ObjBatch

inductive ObjOp.Alike (views : List ViewSpec) : ObjOp F → ObjOp F → Prop
  | insert {view : String} {new new' : ObjRow F} :
      (∀ v ∈ views, v.name = view → new.Alike v.groupBy new') →
        ObjOp.Alike views (.insert view new) (.insert view new')
  | update {view : String} {old old' new new' : ObjRow F} :
      (∀ v ∈ views, v.name = view → old.Alike v.groupBy old') →
      (∀ v ∈ views, v.name = view → new.Alike v.groupBy new') →
        ObjOp.Alike views (.update view old new) (.update view old' new')
  | delete {view : String} {old old' : ObjRow F} :
      (∀ v ∈ views, v.name = view → old.Alike v.groupBy old') →
        ObjOp.Alike views (.delete view old) (.delete view old')
  | truncate (view : String) : ObjOp.Alike views (.truncate view) (.truncate view)

omit [DecidableEq F] in
theorem ObjOp.Alike.refl (views : List ViewSpec) (op : ObjOp F) : op.Alike views op := by
  cases op with
  | insert view new => exact .insert fun _ _ _ => .refl _ new
  | update view old new => exact .update (fun _ _ _ => .refl _ old) fun _ _ _ => .refl _ new
  | delete view old => exact .delete fun _ _ _ => .refl _ old
  | truncate view => exact .truncate view

def PlansOf (views : List ViewSpec) (plans : Dict String Plan) : Prop :=
  ∀ name plan, Dict.get? plans name = some plan → plan.view ∈ views ∧ plan.view.name = name

theorem ObjBatch.Alike.applyOp {views : List ViewSpec} {plans : Dict String Plan}
    {b b' : ObjBatch F} (hplans : PlansOf views plans) (h : ObjBatch.Alike plans b b')
    {op op' : ObjOp F} (hop : op.Alike views op') : Except.Rel (ObjBatch.Alike plans) (b.applyOp op)
    (b'.applyOp op') := by
  have hrow {name : String} {row row' : ObjRow F}
      (hrow : ∀ v ∈ views, v.name = name → row.Alike v.groupBy row') :
      ∀ plan, Dict.get? plans name = some plan → row.Alike plan.view.groupBy row' :=
          fun plan hplan =>
    hrow plan.view (hplans name plan hplan).1 (hplans name plan hplan).2
  cases hop with
  | insert hnew => exact h.apply (hrow hnew) 1
  | update hold hnew => exact (h.apply (hrow hold) (-1)).bind fun _ _ h => h.apply (hrow hnew) 1
  | delete hold => exact h.apply (hrow hold) (-1)
  | truncate view => exact h.applyTruncate view

omit [PyFloat F] [DecidableEq F] in
theorem init_plansOf {views : List ViewSpec} {b : DeltaBatch F}
    (h : DeltaBatch.init views = .ok b) :
    PlansOf views b.plans := by
  obtain ⟨items, hitems, h⟩ := Except.bind_eq_ok.mp h
  cases Except.pure_eq_ok.mp h
  have hitem : ∀ p ∈ items, p.2.view ∈ views ∧ p.2.view.name = p.1 := by
    intro p hp
    obtain ⟨view, hview, hitem⟩ := (Except.mapM_eq_ok.mp hitems).exists_of_mem_right hp
    obtain ⟨plan, hplan, hitem⟩ := Except.bind_eq_ok.mp hitem
    cases Except.pure_eq_ok.mp hitem
    obtain ⟨storage, hfor⟩ := buildPlan_ok hplan
    exact ⟨hfor.view_eq ▸ hview, congrArg ViewSpec.name hfor.view_eq⟩
  intro name plan hplan
  exact Dict.forall_mem_ofList
    (P := fun name plan => plan.view ∈ views ∧ plan.view.name = name) hitem
    (fun k k' v hv hk => eq_of_beq hk ▸ hv) _ (Dict.mem_of_get?_eq_some hplan)

/-- Which object a value is does not matter, except for the NaNs that a view groups by. -/
theorem foldObjects_alike {views : List ViewSpec} {ops ops' : List (ObjOp F)}
    (h : List.Forall₂ (ObjOp.Alike views) ops ops') :
    (foldObjects views ops).map ObjBatch.batch = (foldObjects views ops').map ObjBatch.batch := by
  rw [foldObjects, foldObjects]
  cases hinit : ObjBatch.init (F := F) views with
  | error e => rfl
  | ok b =>
    obtain ⟨d, hd, hb⟩ := Except.bind_eq_ok.mp hinit
    cases Except.pure_eq_ok.mp hb
    have hstart : ∀ plans : Dict String Plan, ObjBatch.Alike (F := F) plans
        ⟨plans, plans.map fun p => (p.1, []), []⟩ ⟨plans, plans.map fun p => (p.1, []), []⟩ := by
      intro plans
      refine ⟨rfl, rfl, List.forall₂_same.mpr fun p hp => ⟨rfl, ?_⟩, rfl⟩
      obtain ⟨q, -, rfl⟩ := List.mem_map.mp hp
      exact .nil
    exact (Except.Rel.foldlM h (fun b b' op op' hb hop => hb.applyOp (init_plansOf hd) hop)
      (hstart d.plans)).map_eq fun b b' hb => hb.batch_eq

/-! ### Values alone -/

def Origin.stamp (o : Origin) : ℕ := 2 * o.message + o.new.toNat

def MadeBefore (stamp : ℕ) : List (Obj F) → List (Value F) → Prop :=
  List.Forall₂ fun a value => a.value = value ∧ a.origin.stamp < stamp

omit [PyFloat F] [DecidableEq F] in
theorem MadeBefore.mono {stamp stamp' : ℕ} {objects : List (Obj F)} {values : List (Value F)}
    (h : MadeBefore stamp objects values) (hle : stamp ≤ stamp') :
    MadeBefore stamp' objects values :=
  h.imp fun _ _ ha => ⟨ha.1, ha.2.trans_le hle⟩

theorem beq_madeAt {stamp : ℕ} {j k : List (Obj F)} {values values' : List (Value F)}
    (hj : MadeBefore stamp j values)
    (hk : List.Forall₂ (fun a value => a.value = value ∧ a.origin.stamp = stamp) k values') :
    (j == k) = (values == values') := by
  induction hj generalizing k values' with
  | nil => cases hk <;> rfl
  | cons ha hj ih =>
    cases hk with
    | nil => rfl
    | cons hb hk =>
      obtain ⟨rfl, hbefore⟩ := ha
      obtain ⟨rfl, hat⟩ := hb
      rw [List.cons_beq_cons, List.cons_beq_cons, ih hk, obj_beq, decide_eq_false, Bool.false_or]
      rintro ⟨horigin, -⟩
      rw [horigin, hat] at hbefore
      exact lt_irrefl _ hbefore

namespace ObjBatch

structure Follows (stamp : ℕ) (b : ObjBatch F) (d : DeltaBatch F) : Prop where
  plans : b.plans = d.plans
  deltas : Dict.Match (Dict.Rekeyed (MadeBefore stamp) Eq) b.deltas d.deltas
  truncated : b.truncated = d.truncated

variable {stamp : ℕ} {b : ObjBatch F} {d : DeltaBatch F}

omit [PyFloat F] [DecidableEq F] in
theorem Follows.mono (h : Follows stamp b d) {stamp' : ℕ} (hle : stamp ≤ stamp') :
    Follows stamp' b d :=
  ⟨h.plans, h.deltas.imp fun _ _ hp => ⟨hp.1, hp.2.imp fun _ _ hg => ⟨hg.1.mono hle, hg.2⟩⟩,
    h.truncated⟩

omit [PyFloat F] [DecidableEq F] in
theorem Follows.plan (h : Follows stamp b d) (viewName : String) :
    b.batch.plan viewName = d.plan viewName := by
  rw [DeltaBatch.plan, DeltaBatch.plan, batch, h.plans]

omit [PyFloat F] [DecidableEq F] in
theorem Follows.batch_eq (h : Follows stamp b d) : b.batch = d := by
  have hdeltas : b.batch.deltas = d.deltas := by
    refine (h.deltas.map_eq (g := id) fun p p' hp => Prod.ext hp.1 ?_).trans (List.map_id _)
    refine (hp.2.map_eq (g := id) fun g g' hg => Prod.ext ?_ hg.2).trans (List.map_id _)
    exact (hg.1.map_eq (g := id) fun a a' ha => ha.1).trans (List.map_id _)
  have hplans : b.batch.plans = d.plans := h.plans
  have htruncated : b.batch.truncated = d.truncated := h.truncated
  exact DeltaBatch.mk.injEq .. ▸ ⟨hplans, hdeltas, htruncated⟩

theorem Follows.apply (h : Follows stamp b d) (viewName : String) {row : ObjRow F}
    (hrow : ∀ p ∈ row, p.2.origin.stamp = stamp) (sign : ℤ) :
    Except.Rel (Follows (stamp + 1)) (b.apply viewName row sign)
    (d.apply viewName row.values sign) := by
  rw [ObjBatch.apply, DeltaBatch.apply, h.plan]
  refine (Except.rel_refl (d.plan viewName)).bind ?_
  rintro plan _ rfl
  refine (Except.rel_refl (DeltaBatch.checkNeeded plan.view row.values plan.needed)).bind
    fun _ _ _ => ?_
  have hindex : ∀ c, Except.Rel (fun a value => a.value = value ∧ a.origin.stamp = stamp)
      (row.index c) (row.values.index c) := by
    intro c
    rw [index_values, ObjRow.index]
    cases hget : Dict.get? row c with
    | none => exact .error _
    | some a => exact .ok ⟨rfl, hrow _ (Dict.mem_of_get?_eq_some hget)⟩
  have hcols : List.Forall₂ (fun c c' => c = c') plan.view.groupBy plan.view.groupBy :=
    List.forall₂_refl _
  refine (Except.Rel.mapM hcols (by rintro c _ rfl; exact hindex c)).bind fun key values hkey => ?_
  have hgroups : Dict.Rekeyed (MadeBefore stamp) Eq (b.groups viewName) (d.groups viewName) :=
    h.deltas.getD viewName .nil
  have hfound : ∀ j values', MadeBefore stamp j values' → (j == key) = (values' == values) :=
    fun j values' hj => beq_madeAt hj hkey
  dsimp only
  rw [hgroups.get? hfound]
  refine (Except.rel_refl (DeltaBatch.addRow plan.view row.values sign _)).bind ?_
  rintro group _ rfl
  have hmade : MadeBefore (stamp + 1) key values := hkey.imp fun _ _ ha => ⟨ha.1, by omega⟩
  have hlater : ∀ (j : List (Obj F)) values', MadeBefore stamp j values' →
      MadeBefore (stamp + 1) j values' :=
    fun _ _ hj => hj.mono (Nat.le_succ stamp)
  exact .ok ⟨h.plans, (h.mono (Nat.le_succ stamp)).deltas.set viewName
    (hgroups.set hfound hlater hmade rfl), h.truncated⟩

omit [PyFloat F] [DecidableEq F] in
theorem Follows.applyTruncate (h : Follows stamp b d) (viewName : String) :
    Except.Rel (Follows stamp) (b.applyTruncate viewName) (d.applyTruncate viewName) := by
  rw [ObjBatch.applyTruncate, DeltaBatch.applyTruncate, h.plan]
  refine (Except.rel_refl (d.plan viewName)).bind ?_
  rintro plan _ rfl
  refine .ok ⟨h.plans, h.deltas.set viewName ?_, congrArg (List.insert viewName) h.truncated⟩
  split_ifs
  · exact .nil
  · exact .cons ⟨.nil, rfl⟩ .nil

theorem Follows.applyOp {message : ℕ} (h : Follows (2 * message) b d) (op : Op F) :
    Except.Rel (Follows (2 * (message + 1))) (b.applyOp (op.make message)) (d.applyOp op) := by
  have hstamp : ∀ (new : Bool) (row : Row F), ∀ p ∈ ObjRow.make message new row,
      p.2.origin.stamp = 2 * message + new.toNat := by
    intro new row p hp
    obtain ⟨q, -, rfl⟩ := List.mem_map.mp hp
    rfl
  have hold : ∀ view row, Except.Rel (Follows (2 * message + 1))
      (b.apply view (.make message false row) (-1)) (d.apply view row (-1)) := by
    intro view row
    have hrun := h.apply view (hstamp false row) (-1)
    rwa [values_make] at hrun
  have hnew : ∀ {b : ObjBatch F} {d : DeltaBatch F} view row, Follows (2 * message + 1) b d →
      Except.Rel (Follows (2 * (message + 1))) (b.apply view (.make message true row) 1)
        (d.apply view row 1) := by
    intro b d view row h
    have hrun := h.apply view (hstamp true row) 1
    rwa [values_make] at hrun
  cases op with
  | insert view row => exact hnew view row (h.mono (Nat.le_succ _))
  | update view old new => exact (hold view old).bind fun _ _ h => hnew view new h
  | delete view row => exact (hold view row).mono fun _ _ h => h.mono (Nat.le_succ _)
  | truncate view => exact (h.applyTruncate view).mono fun _ _ h => h.mono (by omega)

theorem Follows.foldlM {message : ℕ} (h : Follows (2 * message) b d) (ops : List (Op F)) :
    ((makeOps message ops).foldlM ObjBatch.applyOp b).map ObjBatch.batch =
      ops.foldlM DeltaBatch.applyOp d := by
  induction ops generalizing message b d with
  | nil => exact congrArg Except.ok h.batch_eq
  | cons op ops ih =>
    rw [makeOps, List.foldlM_cons, List.foldlM_cons]
    generalize hb : b.applyOp (op.make message) = x
    generalize hd : d.applyOp op = y
    cases hb ▸ hd ▸ h.applyOp op with
    | ok h => exact ih h
    | error e => rfl

end ObjBatch

/-- Where no NaN that a view groups by is in two rows, the batch is the one that compares values. -/
theorem foldObjects_eq_foldOps {views : List ViewSpec} {ops : List (ObjOp F)}
    (h : List.Forall₂ (ObjOp.Alike views) ops (makeOps 0 (ops.map ObjOp.op))) :
    (foldObjects views ops).map ObjBatch.batch = foldOps views (ops.map ObjOp.op) := by
  rw [foldObjects_alike h, foldObjects, foldOps, ObjBatch.init]
  cases hinit : DeltaBatch.init (F := F) views with
  | error e => rfl
  | ok d =>
    obtain ⟨items, -, hd⟩ := Except.bind_eq_ok.mp hinit
    cases Except.pure_eq_ok.mp hd
    refine ObjBatch.Follows.foldlM ⟨rfl, ?_, rfl⟩ _
    rw [Dict.Match, List.forall₂_map_left_iff, List.forall₂_map_right_iff, List.forall₂_same]
    exact fun p _ => ⟨rfl, .nil⟩

end WalFlux.Aggregates
