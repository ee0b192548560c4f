import Mathlib

/-! Sums of weights over the rows of each key, maintained under insertions, deletions and
truncation by adding differences into a keyed table. -/

variable {ρ κ W : Type*}

structure Grouping (ρ κ W : Type*) where
  key : ρ → κ
  weight : ρ → W

inductive RowChange (ρ : Type*)
  | insert (new : ρ)
  | delete (old : ρ)
  | truncate

namespace RowChange

/-- What happens to the rows; only a row that is there can go. -/
inductive Step : Multiset ρ → RowChange ρ → Multiset ρ → Prop
  | insert (S : Multiset ρ) (new : ρ) : Step S (.insert new) (new ::ₘ S)
  | delete (S : Multiset ρ) (old : ρ) : Step (old ::ₘ S) (.delete old) S
  | truncate (S : Multiset ρ) : Step S .truncate 0

inductive Steps : Multiset ρ → List (RowChange ρ) → Multiset ρ → Prop
  | nil (S : Multiset ρ) : Steps S [] S
  | cons {S T U : Multiset ρ} {e : RowChange ρ} {es : List (RowChange ρ)} :
      Step S e T → Steps T es U → Steps S (e :: es) U

theorem Steps.eq_of_nil {S T : Multiset ρ} (h : Steps S [] T) : S = T := by
  cases h
  rfl

theorem Steps.append_iff {S U : Multiset ρ} {es fs : List (RowChange ρ)} :
    Steps S (es ++ fs) U ↔ ∃ T, Steps S es T ∧ Steps T fs U := by
  induction es generalizing S with
  | nil => exact ⟨fun h => ⟨S, .nil S, h⟩, fun ⟨_, .nil _, h⟩ => h⟩
  | cons e es ih =>
    constructor
    · rintro (_ | ⟨h, hs⟩)
      obtain ⟨T, hT, hU⟩ := ih.mp hs
      exact ⟨T, .cons h hT, hU⟩
    · rintro ⟨T, _ | ⟨h, hs⟩, hU⟩
      exact .cons h (ih.mpr ⟨T, hs, hU⟩)

theorem Steps.forall_mem {S T : Multiset ρ} {es : List (RowChange ρ)} (h : Steps S es T)
    {P : ρ → Prop} (hS : ∀ r ∈ S, P r) (hnew : ∀ r, .insert r ∈ es → P r) : ∀ r ∈ T, P r := by
  induction h with
  | nil S => exact hS
  | cons he _ ih =>
    refine ih ?_ fun r hr => hnew r (List.mem_cons_of_mem _ hr)
    cases he with
    | insert S new => exact Multiset.forall_mem_cons.mpr ⟨hnew new List.mem_cons_self, hS⟩
    | delete S old => exact (Multiset.forall_mem_cons.mp hS).2
    | truncate S => exact fun r hr => absurd hr (Multiset.notMem_zero r)

end RowChange

structure SumChange (κ W : Type*) where
  reset : Bool
  add : κ → W

namespace Grouping

variable [DecidableEq κ] [AddCommGroup W] (g : Grouping ρ κ W)

def sums (S : Multiset ρ) : κ → W := (S.map fun r => Pi.single (g.key r) (g.weight r)).sum

@[simp] theorem sums_zero : g.sums 0 = 0 := rfl

@[simp] theorem sums_cons (r : ρ) (S : Multiset ρ) :
    g.sums (r ::ₘ S) = Pi.single (g.key r) (g.weight r) + g.sums S := by
  simp [sums]

/-- `GROUP BY`: the sum under a key is taken over the rows with that key. -/
theorem sums_apply (S : Multiset ρ) (k : κ) :
    g.sums S k = ((S.filter fun r => g.key r = k).map g.weight).sum := by
  induction S using Multiset.induction_on with
  | empty => simp
  | cons r S ih =>
    rw [sums_cons, Pi.add_apply, ih]
    by_cases h : g.key r = k
    · rw [Multiset.filter_cons_of_pos (p := fun r => g.key r = k) _ h, Multiset.map_cons,
        Multiset.sum_cons, ← h, Pi.single_eq_same]
    · rw [Multiset.filter_cons_of_neg (p := fun r => g.key r = k) _ h,
        Pi.single_eq_of_ne (Ne.symm h), zero_add]

theorem sums_eq_zero {S : Multiset ρ} {k : κ} (h : k ∉ S.map g.key) : g.sums S k = 0 := by
  have hS : S.filter (fun r => g.key r = k) = 0 := by
    refine Multiset.filter_eq_nil.mpr fun r hr hk => h ?_
    exact Multiset.mem_map.mpr ⟨r, hr, hk⟩
  rw [sums_apply, hS, Multiset.map_zero, Multiset.sum_zero]

def step (c : SumChange κ W) : RowChange ρ → SumChange κ W
  | .insert new => { c with add := c.add + Pi.single (g.key new) (g.weight new) }
  | .delete old => { c with add := c.add - Pi.single (g.key old) (g.weight old) }
  | .truncate => ⟨true, 0⟩

def change (es : List (RowChange ρ)) : SumChange κ W := es.foldl g.step ⟨false, 0⟩

end Grouping

def SumChange.apply [AddCommGroup W] (c : SumChange κ W) (A : κ → W) : κ → W :=
  if c.reset then c.add else A + c.add

namespace Grouping

variable [DecidableEq κ] [AddCommGroup W] (g : Grouping ρ κ W)

theorem apply_step {S T : Multiset ρ} {e : RowChange ρ} (h : RowChange.Step S e T)
    {c : SumChange κ W} {A : κ → W} (hc : c.apply A = g.sums S) :
    (g.step c e).apply A = g.sums T := by
  rcases c with ⟨reset, add⟩
  cases h with
  | insert S new =>
    rw [sums_cons, ← hc, add_comm]
    cases reset
    · exact (add_assoc A add _).symm
    · rfl
  | delete T old =>
    rw [sums_cons] at hc
    rw [← add_right_inj (Pi.single (g.key old) (g.weight old)), ← hc, add_comm]
    cases reset
    · exact (add_assoc A _ _).trans (congrArg (A + ·) (sub_add_cancel add _))
    · exact sub_add_cancel add _
  | truncate S => rfl

/-- The differences gathered along any run of changes turn the old sums into the new ones. -/
theorem apply_change {S T : Multiset ρ} {es : List (RowChange ρ)} (h : RowChange.Steps S es T) :
    (g.change es).apply (g.sums S) = g.sums T := by
  suffices ∀ c : SumChange κ W, ∀ A, c.apply A = g.sums S →
      (es.foldl g.step c).apply A = g.sums T by
    refine this ⟨false, 0⟩ _ ?_
    simp [SumChange.apply]
  induction h with
  | nil S => exact fun c A hc => hc
  | cons he _ ih => exact fun c A hc => ih _ A (g.apply_step he hc)

end Grouping

/-! ### Keyed tables -/

structure KeyedTable (κ W : Type*) [Zero W] where
  keys : Finset κ
  value : κ → W
  value_eq_zero : ∀ k ∉ keys, value k = 0

namespace KeyedTable

@[ext] theorem ext [Zero W] {t u : KeyedTable κ W} (hk : t.keys = u.keys)
    (hv : t.value = u.value) : t = u := by
  cases t
  cases u
  cases hk
  cases hv
  rfl

section Add

variable [DecidableEq κ] [AddCommGroup W]

def empty : KeyedTable κ W := ⟨∅, 0, fun _ _ => rfl⟩

def upsert (t : KeyedTable κ W) (k : κ) (d : W) : KeyedTable κ W where
  keys := insert k t.keys
  value := t.value + Pi.single k d
  value_eq_zero := fun k' h => by
    rw [Finset.mem_insert, not_or] at h
    rw [Pi.add_apply, t.value_eq_zero k' h.2, Pi.single_eq_of_ne h.1, add_zero]

theorem upsert_value_self (t : KeyedTable κ W) (k : κ) (d : W) :
    (t.upsert k d).value k = t.value k + d := by
  simp [upsert]

theorem upsert_value_ne (t : KeyedTable κ W) {k k' : κ} (h : k' ≠ k) (d : W) :
    (t.upsert k d).value k' = t.value k' := by
  simp [upsert, h]

def upserts (t : KeyedTable κ W) (us : List (κ × W)) : KeyedTable κ W :=
  us.foldl (fun t p => t.upsert p.1 p.2) t

theorem value_upserts (t : KeyedTable κ W) (us : List (κ × W)) :
    (t.upserts us).value = t.value + (us.map fun p => Pi.single p.1 p.2).sum := by
  induction us generalizing t with
  | nil => simp [upserts]
  | cons p us ih =>
    have := ih (t.upsert p.1 p.2)
    rw [upserts] at this ⊢
    rw [List.foldl_cons, this, List.map_cons, List.sum_cons, ← add_assoc]
    rfl

theorem keys_upserts (t : KeyedTable κ W) (us : List (κ × W)) :
    (t.upserts us).keys = t.keys ∪ (us.map Prod.fst).toFinset := by
  induction us generalizing t with
  | nil => simp [upserts]
  | cons p us ih =>
    have := ih (t.upsert p.1 p.2)
    rw [upserts] at this ⊢
    rw [List.foldl_cons, this]
    ext k
    simp only [upsert, Finset.mem_union, Finset.mem_insert, List.mem_toFinset, List.map_cons,
      List.mem_cons]
    tauto

end Add

/-- Drop the keys whose row count is not positive; the rest of such a value is lost with it. -/
def prune [AddCommGroup W] (count : W → ℚ) (t : KeyedTable κ W) : KeyedTable κ W where
  keys := t.keys.filter fun k => 0 < count (t.value k)
  value := fun k => if 0 < count (t.value k) then t.value k else 0
  value_eq_zero := fun k h => by
    rw [Finset.mem_filter, not_and] at h
    by_cases hk : k ∈ t.keys
    · rw [if_neg (h hk)]
    · rw [t.value_eq_zero k hk, ite_self]

theorem prune_value [AddCommGroup W] {count : W → ℚ} {t : KeyedTable κ W} {k : κ}
    (h : 0 < count (t.value k)) : (t.prune count).value k = t.value k := if_pos h

end KeyedTable

namespace Grouping

variable [DecidableEq κ] [AddCommGroup W] (g : Grouping ρ κ W)

def table (S : Multiset ρ) : KeyedTable κ W :=
  ⟨(S.map g.key).toFinset, g.sums S, fun _ h => g.sums_eq_zero (by simpa using h)⟩

/-- The query over all rows as one group, which is there even without rows. -/
def pinned (k₀ : κ) (hk : ∀ r, g.key r = k₀) (S : Multiset ρ) : KeyedTable κ W :=
  ⟨{k₀}, g.sums S, fun k h => g.sums_eq_zero fun hmem => by
    obtain ⟨r, -, hr⟩ := Multiset.mem_map.mp hmem
    exact h (Finset.mem_singleton.mpr (hr.symm.trans (hk r)))⟩

theorem value_upserts_change {S T : Multiset ρ} {es : List (RowChange ρ)}
    (h : RowChange.Steps S es T) {t : KeyedTable κ W} (ht : t.value = g.sums S) {us : List (κ × W)}
    (hus : (us.map fun p => Pi.single p.1 p.2).sum = (g.change es).add) :
    ((if (g.change es).reset then .empty else t).upserts us).value = g.sums T := by
  rw [KeyedTable.value_upserts, hus, ← g.apply_change h, SumChange.apply]
  split_ifs
  · exact zero_add _
  · rw [ht]

variable (count : W →+ ℚ)

theorem count_sums (hw : ∀ r, count (g.weight r) = 1) (S : Multiset ρ) (k : κ) :
    count (g.sums S k) = (S.filter fun r => g.key r = k).card := by
  rw [sums_apply, map_multiset_sum, Multiset.map_map]
  simp [hw]

theorem count_sums_pos_iff (hw : ∀ r, count (g.weight r) = 1) {S : Multiset ρ} {k : κ} :
    0 < count (g.sums S k) ↔ k ∈ S.map g.key := by
  rw [count_sums g count hw, Nat.cast_pos, Multiset.card_pos_iff_exists_mem]
  simp [Multiset.mem_filter]

theorem table_eq_of_sums_eq (hw : ∀ r, count (g.weight r) = 1) {S T : Multiset ρ}
    (h : g.sums S = g.sums T) : g.table S = g.table T := by
  refine KeyedTable.ext (Finset.ext fun k => ?_) h
  rw [table, table, Multiset.mem_toFinset, Multiset.mem_toFinset, ← g.count_sums_pos_iff count hw,
    ← g.count_sums_pos_iff count hw, h]

/-- Adding differences to the old table and dropping the emptied keys gives the new query. -/
theorem prune_upserts (hw : ∀ r, count (g.weight r) = 1) {T : Multiset ρ}
    {t : KeyedTable κ W} {us : List (κ × W)}
    (hv : (t.upserts us).value = g.sums T) :
    (t.upserts us).prune count = g.table T := by
  have hpos : ∀ k, 0 < count ((t.upserts us).value k) ↔ k ∈ T.map g.key := by
    intro k
    rw [hv]
    exact g.count_sums_pos_iff count hw
  ext k
  · have hmem : k ∈ T.map g.key → k ∈ (t.upserts us).keys := by
      intro hk
      by_contra hn
      have := (hpos k).mpr hk
      rw [(t.upserts us).value_eq_zero k hn, map_zero] at this
      exact lt_irrefl _ this
    simp only [KeyedTable.prune, table, Finset.mem_filter, hpos, Multiset.mem_toFinset]
    exact ⟨fun h => h.2, fun h => ⟨hmem h, h⟩⟩
  · simp only [KeyedTable.prune, table]
    by_cases hk : k ∈ T.map g.key
    · rw [if_pos ((hpos k).mpr hk), hv]
    · rw [if_neg (mt (hpos k).mp hk), g.sums_eq_zero hk]

end Grouping
