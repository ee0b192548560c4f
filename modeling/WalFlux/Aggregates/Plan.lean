import WalFlux.Aggregates.Arithmetic

/-! What a successfully built plan holds: the columns of its upsert and the zeros of its groups. -/

namespace WalFlux.Aggregates

open Sql Python

theorem mapM_quoteIdent {names : List String} {idents : List Ident}
    (h : names.mapM quoteIdent = .ok idents) : idents.map Ident.name = names := by
  induction Except.mapM_eq_ok.mp h with
  | nil => rfl
  | cons hi hs ih =>
    exact congrArg₂ List.cons (quoteIdent_ok hi) (ih (Except.mapM_eq_ok.mpr hs))

theorem map_name_injective : Function.Injective (List.map Ident.name) :=
  List.map_injective_iff.mpr fun _ _ => Ident.ext

structure PlanFor (view : ViewSpec) (plan : Plan) (storage : List Storage) : Prop where
  storage_ok : viewStorage view = .ok storage
  target_ok : target view = .ok plan.upsert.target
  view_eq : plan.view = view
  needed_eq : plan.needed = (view.groupBy ++ view.aggregates.filterMap AggSpec.column).eraseDups
  zeros_eq : plan.zeros = .int 0 :: storage.map Storage.zero
  columns_eq : plan.upsert.columns.map Ident.name = insertColumns view storage
  conflict_eq : plan.upsert.conflict.map Ident.name = keyColumns view
  updates_eq : plan.upsert.updates.map Ident.name = rowsColumn :: storage.map Storage.name

theorem buildPlan_ok {view : ViewSpec} {plan : Plan} (h : buildPlan view = .ok plan) :
    ∃ storage, PlanFor view plan storage := by
  obtain ⟨storage, hs, h⟩ := Except.bind_eq_ok.mp h
  obtain ⟨table, ht, h⟩ := Except.bind_eq_ok.mp h
  obtain ⟨updates, hu, h⟩ := Except.bind_eq_ok.mp h
  obtain ⟨keys, hk, h⟩ := Except.bind_eq_ok.mp h
  obtain ⟨columns, hc, h⟩ := Except.bind_eq_ok.mp h
  cases Except.pure_eq_ok.mp h
  exact ⟨storage, hs, ht, rfl, rfl, rfl, mapM_quoteIdent hc, mapM_quoteIdent hk,
    mapM_quoteIdent hu⟩

/-! ### Storage columns and slots -/

inductive ExprFor : Slot → SelectExpr → Prop
  | rows : ExprFor .rows .countAll
  | countAll : ExprFor (.count none) .countAll
  | count (i : Ident) : ExprFor (.count (some i.name)) (.count i)
  | sum (i : Ident) : ExprFor (.sum i.name) (.coalesceSum i)
  | nonNull (i : Ident) : ExprFor (.nonNull i.name) (.count i)

structure StorageFor (slot : Slot) (s : Storage) : Prop where
  zero_isDec : s.zero.isDec = slot.isSum
  zero_toRat : s.zero.toRat = 0
  ddlType_eq : s.ddlType = if slot.isSum then .numeric else .bigint
  expr : ExprFor slot s.backfillExpr

theorem storageFor_sum {agg : AggSpec} {c : String} {storage : List Storage}
    (h : (do
      let src ← quoteIdent c
      return [⟨agg.as ++ "__sum", .numeric, .coalesceSum src, .dec (Decimal.ofInt 0)⟩,
        ⟨agg.as ++ "__nn", .bigint, .count src, .int 0⟩] : Except Error (List Storage)) =
      .ok storage) :
    List.Forall₂ StorageFor [.sum c, .nonNull c] storage := by
  obtain ⟨src, hsrc, h⟩ := Except.bind_eq_ok.mp h
  cases Except.pure_eq_ok.mp h
  cases quoteIdent_ok hsrc
  exact .cons ⟨rfl, Decimal.toRat_ofInt 0, rfl, .sum src⟩
    (.cons ⟨rfl, Int.cast_zero, rfl, .nonNull src⟩ .nil)

theorem aggStorage_slots {agg : AggSpec} {storage : List Storage}
    (h : aggStorage agg = .ok storage) :
    List.Forall₂ StorageFor (aggSlots agg) storage := by
  rcases agg with ⟨fn, column, as⟩
  cases fn with
  | count =>
    cases column with
    | none =>
      cases h
      exact .cons ⟨rfl, Int.cast_zero, rfl, .countAll⟩ .nil
    | some c =>
      obtain ⟨src, hsrc, h⟩ := Except.bind_eq_ok.mp h
      cases Except.pure_eq_ok.mp h
      cases quoteIdent_ok hsrc
      exact .cons ⟨rfl, Int.cast_zero, rfl, .count src⟩ .nil
  | sum =>
    cases column with
    | none => cases h
    | some c => exact storageFor_sum h
  | avg =>
    cases column with
    | none => cases h
    | some c => exact storageFor_sum h

theorem viewStorage_slots {view : ViewSpec} {storage : List Storage}
    (h : viewStorage view = .ok storage) :
    List.Forall₂ StorageFor (view.aggregates.flatMap aggSlots) storage := by
  obtain ⟨parts, hparts, h⟩ := Except.bind_eq_ok.mp h
  cases Except.pure_eq_ok.mp h
  rw [List.flatMap_def]
  refine List.rel_flatten (List.forall₂_map_left_iff.mpr ?_)
  exact (Except.mapM_eq_ok.mp hparts).imp fun _ _ => aggStorage_slots

theorem viewStorage_isOk {view : ViewSpec} {storage : List Storage}
    (h : viewStorage view = .ok storage) : ∀ agg ∈ view.aggregates, (aggStorage agg).isOk := by
  obtain ⟨parts, hparts, -⟩ := Except.bind_eq_ok.mp h
  intro agg hagg
  obtain ⟨part, -, hpart⟩ := (Except.mapM_eq_ok.mp hparts).exists_of_mem_left hagg
  rw [hpart]
  rfl

namespace PlanFor

variable {view : ViewSpec} {plan : Plan} {storage : List Storage}

theorem kinds_zeros (h : PlanFor view plan storage) : KindsOf (slots view) plan.zeros := by
  rw [KindsOf, h.zeros_eq, slots, List.map_cons, List.map_cons, List.map_map]
  refine congrArg₂ List.cons rfl ?_
  exact ((viewStorage_slots h.storage_ok).map_eq fun _ _ hs => hs.zero_isDec.symm).symm

theorem toRat_zeros {F : Type} (h : PlanFor view plan storage) :
    plan.zeros.map Num.toRat = (slots view).map (·.total ([] : List (ℤ × Row F))) := by
  rw [h.zeros_eq, slots, List.map_cons, List.map_cons, List.map_map]
  refine congrArg₂ List.cons Int.cast_zero ?_
  exact ((viewStorage_slots h.storage_ok).map_eq fun _ _ hs => hs.zero_toRat.symm).symm

theorem target_name (h : PlanFor view plan storage) : plan.upsert.target.name.name = view.name := by
  obtain ⟨schema, -, ht⟩ := Except.bind_eq_ok.mp h.target_ok
  obtain ⟨name, hname, ht⟩ := Except.bind_eq_ok.mp ht
  rw [← Except.pure_eq_ok.mp ht]
  exact quoteIdent_ok hname

theorem length_keyParams {F : Type} (h : PlanFor view plan storage) {key : List (Value F)}
    (hkey : key.length = view.groupBy.length) :
    (DeltaBatch.keyPrefix view ++ key).length = plan.upsert.conflict.length := by
  have := congrArg List.length h.conflict_eq
  rw [List.length_map] at this
  rw [this, List.length_append, hkey, keyColumns, DeltaBatch.keyPrefix]
  split_ifs with hg
  · simp
  · simp [not_not.mp hg]

end PlanFor

end WalFlux.Aggregates
