import WalFlux.Aggregates.Parameters

/-! When a batch has nothing to execute. -/

namespace WalFlux.Aggregates

open Sql Python

variable {F : Type}

def DeltaBatch.isEmpty (b : DeltaBatch F) : Bool :=
  b.truncated.isEmpty && b.deltas.all fun p => p.2.isEmpty

theorem DeltaBatch.isEmpty_iff {b : DeltaBatch F} :
    b.isEmpty = true ↔ b.truncated = [] ∧ ∀ p ∈ b.deltas, p.2 = [] := by
  simp only [DeltaBatch.isEmpty, Bool.and_eq_true, List.isEmpty_iff, List.all_eq_true]

structure Planned (b : DeltaBatch F) : Prop where
  keys : Dict.keys b.deltas = Dict.keys b.plans
  nodup : (Dict.keys b.plans).Nodup
  truncated : ∀ name ∈ b.truncated, name ∈ Dict.keys b.plans

variable {b b' : DeltaBatch F} {name : String}

theorem init_planned {views : List ViewSpec} (h : DeltaBatch.init views = .ok b) : Planned b := by
  obtain ⟨items, -, h⟩ := Except.bind_eq_ok.mp h
  cases Except.pure_eq_ok.mp h
  refine ⟨?_, Dict.nodup_keys_ofList items, fun _ hname => absurd hname List.not_mem_nil⟩
  exact List.map_map

theorem Planned.set (h : Planned b) (hname : name ∈ Dict.keys b.plans) (groups : Groups F)
    {truncated : List String} (htruncated : ∀ n ∈ truncated, n ∈ Dict.keys b.plans) :
    Planned ⟨b.plans, b.deltas.set name groups, truncated⟩ where
  keys := (Dict.keys_set_of_mem (h.keys ▸ hname) groups).trans h.keys
  nodup := h.nodup
  truncated := htruncated

theorem Planned.groups (h : Planned b) {p : String × Groups F} (hp : p ∈ b.deltas) :
    b.groups p.1 = p.2 := by
  have hnodup : (Dict.keys b.deltas).Nodup := h.keys ▸ h.nodup
  rw [DeltaBatch.groups, Dict.get?_eq_some_of_mem hnodup hp]
  rfl

theorem plan_key {plan : Plan} (h : b.plan name = .ok plan) : name ∈ Dict.keys b.plans :=
  List.mem_map_of_mem (Collected.plan_mem h)

theorem Planned.applyTruncate (h : Planned b) (hb : b.applyTruncate name = .ok b') :
    Planned b' := by
  obtain ⟨plan, hplan, hb⟩ := Except.bind_eq_ok.mp hb
  cases Except.pure_eq_ok.mp hb
  refine h.set (plan_key hplan) _ fun n hn => ?_
  rcases List.mem_insert_iff.mp hn with rfl | hn
  · exact plan_key hplan
  · exact h.truncated n hn

section Fold

variable [PyFloat F]

theorem Planned.apply (h : Planned b) {row : Row F} {sign : ℤ}
    (hb : b.apply name row sign = .ok b') : Planned b' := by
  obtain ⟨plan, hplan, hb⟩ := Except.bind_eq_ok.mp hb
  obtain ⟨_, -, hb⟩ := Except.bind_eq_ok.mp hb
  obtain ⟨key, -, hb⟩ := Except.bind_eq_ok.mp hb
  obtain ⟨group, -, hb⟩ := Except.bind_eq_ok.mp hb
  cases Except.pure_eq_ok.mp hb
  exact h.set (plan_key hplan) _ h.truncated

theorem Planned.applyEvent (h : Planned b) {e : RowEvent F} (hb : b.applyEvent e = .ok b') :
    Planned b' := by
  cases e with
  | insert view row => exact h.apply hb
  | delete view row => exact h.apply hb
  | truncate view => exact h.applyTruncate hb

theorem foldOps_planned {views : List ViewSpec} {ops : List (Op F)}
    (h : foldOps views ops = .ok b) : Planned b := by
  rw [foldOps_eq] at h
  obtain ⟨b₀, hinit, h⟩ := Except.bind_eq_ok.mp h
  exact Except.foldlM_induction (P := fun _ b => Planned b) h (init_planned hinit)
    fun _ _ _ _ hb he => hb.applyEvent he

end Fold

theorem groups_of_isEmpty (h : b.isEmpty = true) (name : String) : b.groups name = [] := by
  rw [DeltaBatch.groups]
  cases hget : Dict.get? b.deltas name with
  | none => rfl
  | some groups => exact (DeltaBatch.isEmpty_iff.mp h).2 _ (Dict.mem_of_get?_eq_some hget)

theorem statements_of_isEmpty (h : b.isEmpty = true) : b.statements = [] := by
  have htruncated := (DeltaBatch.isEmpty_iff.mp h).1
  have hgroups := groups_of_isEmpty h
  have hdelete : b.deleteStatements = [] := by
    simp [DeltaBatch.deleteStatements, htruncated]
  have hupsert : b.upsertStatements = [] := by
    simp [DeltaBatch.upsertStatements, hgroups]
  have hcleanup : b.cleanupStatements = [] := by
    simp [DeltaBatch.cleanupStatements, htruncated, hgroups]
  rw [DeltaBatch.statements, hdelete, hupsert, hcleanup]
  rfl

theorem Planned.isEmpty (h : Planned b) (hnil : b.statements = []) : b.isEmpty = true := by
  obtain ⟨hrest, -⟩ := List.append_eq_nil_iff.mp hnil
  obtain ⟨hdelete, hupsert⟩ := List.append_eq_nil_iff.mp hrest
  refine DeltaBatch.isEmpty_iff.mpr
    ⟨List.eq_nil_iff_forall_not_mem.mpr fun name hname => ?_, fun p hp => ?_⟩
  · obtain ⟨q, hq, rfl⟩ := List.mem_map.mp (h.truncated name hname)
    have hone := List.flatMap_eq_nil_iff.mp hdelete q hq
    rw [if_pos hname] at hone
    cases hone
  · have hkey : p.1 ∈ Dict.keys b.plans := h.keys ▸ List.mem_map_of_mem hp
    obtain ⟨q, hq, hname⟩ := List.mem_map.mp hkey
    have hone := List.flatMap_eq_nil_iff.mp hupsert q hq
    rw [hname, h.groups hp] at hone
    exact List.map_eq_nil_iff.mp hone

/-- Whatever a batch was fed, it says it is empty exactly when a flush would execute nothing. -/
theorem isEmpty_statements [PyFloat F] (views : List ViewSpec) (ops : List (Op F)) :
    (foldOps views ops).map DeltaBatch.isEmpty =
      (foldOps views ops).map fun b => b.statements.isEmpty := by
  cases hfold : foldOps views ops with
  | error e => rfl
  | ok b =>
    have hiff : b.isEmpty = true ↔ b.statements.isEmpty = true :=
      ⟨fun h => List.isEmpty_iff.mpr (statements_of_isEmpty h),
        fun h => (foldOps_planned hfold).isEmpty (List.isEmpty_iff.mp h)⟩
    exact congrArg Except.ok (Bool.eq_iff_iff.mpr hiff)

end WalFlux.Aggregates
