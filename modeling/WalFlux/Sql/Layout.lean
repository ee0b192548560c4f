import WalFlux.Sql
import WalFlux.Library.KeyedSums

/-! Target tables as keyed tables: rows made of key cells followed by numbers, on which an upsert
adds under one key and the clean-up prunes. -/

namespace WalFlux.Sql

theorem lookup_zip {α β : Type} [DecidableEq α] {xs : List α} {ys : List β} (hx : xs.Nodup)
    {i : ℕ} (hi : i < xs.length) (hi' : i < ys.length) : (xs.zip ys).lookup xs[i] = some ys[i] := by
  induction xs generalizing ys i with
  | nil => cases hi
  | cons x xs ih =>
    obtain ⟨y, ys, rfl⟩ := List.exists_cons_of_length_pos (show 0 < ys.length by omega)
    rw [List.zip_cons_cons]
    cases i with
    | zero => exact List.lookup_cons_self
    | succ i =>
      have hi : i < xs.length := by simpa using hi
      have hne : xs[i] ≠ x := fun h => (List.nodup_cons.mp hx).1 (h ▸ List.getElem_mem _)
      rw [List.getElem_cons_succ, List.getElem_cons_succ, List.lookup_cons,
        beq_eq_false_iff_ne.mpr hne]
      exact ih (List.nodup_cons.mp hx).2 hi _

theorem lookup_zip_of_not_mem {α β : Type} [DecidableEq α] {xs : List α} {ys : List β} {x : α}
    (hx : x ∉ xs) : (xs.zip ys).lookup x = none := by
  rw [List.lookup_eq_none_iff]
  intro p hp
  have hne : x ≠ p.1 := fun h => hx (h ▸ (List.of_mem_zip hp).1)
  simpa using hne

variable {K : Type}

theorem mkRow_getElem {columns : List Ident} {cells : List (Option (Cell K))} (hc : columns.Nodup)
    {i : ℕ} (hi : i < columns.length) (hi' : i < cells.length) :
    mkRow columns cells columns[i] = cells[i] := by
  rw [mkRow, lookup_zip hc hi hi']
  rfl

theorem mkRow_of_not_mem {columns : List Ident} (cells : List (Option (Cell K))) {c : Ident}
    (hc : c ∉ columns) : mkRow columns cells c = none := by
  rw [mkRow, lookup_zip_of_not_mem hc]
  rfl

/-- The key columns of a table and the number columns after them. -/
structure Layout where
  keys : List Ident
  numbers : List Ident
  nodup : (keys ++ numbers).Nodup

namespace Layout

def columns (l : Layout) : List Ident := l.keys ++ l.numbers

theorem nodup_columns (l : Layout) : l.columns.Nodup := l.nodup

def cells (l : Layout) (k : List (Cell K)) (w : ℕ → ℚ) : List (Cell K) :=
  k ++ (List.range l.numbers.length).map fun i => .num (w i)

def row (l : Layout) (k : List (Cell K)) (w : ℕ → ℚ) : TableRow K :=
  mkRow l.columns ((l.cells k w).map some)

variable {l : Layout} {k k' : List (Cell K)} {w w' : ℕ → ℚ}

theorem row_key (hk : k.length = l.keys.length) {i : ℕ} (hi : i < l.keys.length) :
    l.row k w l.keys[i] = some (k.get ⟨i, hk ▸ hi⟩) := by
  have hi' : i < l.columns.length := by rw [columns, List.length_append]; omega
  have hcol : l.keys[i] = l.columns[i] :=
    (List.getElem_append_left hi).symm
  rw [hcol, row, mkRow_getElem l.nodup_columns _ (by simp [cells]; omega), List.getElem_map]
  exact congrArg some (List.getElem_append_left (hk ▸ hi))

theorem row_number (hk : k.length = l.keys.length) {i : ℕ} (hi : i < l.numbers.length) :
    l.row k w l.numbers[i] = some (.num (w i)) := by
  have hi' : l.keys.length + i < l.columns.length := by rw [columns, List.length_append]; omega
  have hcol : l.numbers[i] = l.columns[l.keys.length + i] := by simp [columns]
  rw [hcol, row, mkRow_getElem l.nodup_columns _ (by simp [cells]; omega), List.getElem_map]
  simp [cells, ← hk]

theorem row_of_not_mem {c : Ident} (hc : c ∉ l.columns) : l.row k w c = none :=
  mkRow_of_not_mem _ hc

theorem eq_row (hk : k.length = l.keys.length) {r : TableRow K}
    (hkey : ∀ i (hi : i < l.keys.length), r l.keys[i] = some (k.get ⟨i, hk ▸ hi⟩))
    (hnum : ∀ i (hi : i < l.numbers.length), r l.numbers[i] = some (.num (w i)))
    (hother : ∀ c ∉ l.columns, r c = none) : r = l.row k w := by
  funext c
  by_cases hc : c ∈ l.columns
  · rcases List.mem_append.mp hc with hc | hc
    · obtain ⟨i, hi, rfl⟩ := List.getElem_of_mem hc
      rw [hkey i hi, row_key hk hi]
    · obtain ⟨i, hi, rfl⟩ := List.getElem_of_mem hc
      rw [hnum i hi, row_number hk hi]
  · rw [hother c hc, row_of_not_mem hc]

variable (l) in
def upsert (target : TableName) : Upsert := ⟨target, l.columns, l.keys, l.numbers⟩

variable {target : TableName}

theorem hit_iff [DecidableEq K] (hk : k.length = l.keys.length) (hk' : k'.length = l.keys.length) :
    (l.upsert target).hit (l.row k w) (l.row k' w') ↔ k = k' := by
  constructor
  · intro h
    refine List.ext_getElem (hk.trans hk'.symm) fun i hi hi' => ?_
    have hi : i < l.keys.length := hk ▸ hi
    have := h l.keys[i] (List.getElem_mem _)
    rw [row_key hk hi, row_key hk' hi] at this
    exact Option.some.inj this
  · rintro rfl c (hc : c ∈ l.keys)
    obtain ⟨i, hi, rfl⟩ := List.getElem_of_mem hc
    rw [row_key hk hi, row_key hk hi]

theorem merge_row (hk : k.length = l.keys.length) :
    (l.upsert target).merge (l.row k w) (l.row k w') = l.row k (w + w') := by
  refine eq_row hk (fun i hi => ?_) (fun i hi => ?_) fun c hc => ?_
  · have hnot : l.keys[i] ∉ l.numbers := fun h =>
      (List.nodup_append.mp l.nodup).2.2 _ (List.getElem_mem hi) _ h rfl
    exact (if_neg hnot).trans (row_key hk hi)
  · refine (if_pos (List.getElem_mem hi)).trans ?_
    rw [row_number hk hi, row_number hk hi]
    rfl
  · have hnot : c ∉ l.numbers := fun h => hc (List.mem_append_right _ h)
    exact (if_neg hnot).trans (row_of_not_mem hc)

variable (l)

def rows (t : KeyedTable (List (Cell K)) (ℕ → ℚ)) : Multiset (TableRow K) :=
  t.keys.val.map fun k => l.row k (t.value k)

def Fills (t : KeyedTable (List (Cell K)) (ℕ → ℚ)) : Prop :=
  ∀ k ∈ t.keys, k.length = l.keys.length

variable {l} [DecidableEq K] {t : KeyedTable (List (Cell K)) (ℕ → ℚ)}

omit [DecidableEq K] in
theorem fills_empty [DecidableEq (List (Cell K))] : l.Fills
    (.empty : KeyedTable (List (Cell K)) (ℕ → ℚ)) :=
  fun _ h => absurd h (Finset.notMem_empty _)

theorem Fills.upsert (h : l.Fills t) (hk : k.length = l.keys.length) (w : ℕ → ℚ) :
    l.Fills (t.upsert k w) := by
  intro k' hk'
  rcases Finset.mem_insert.mp hk' with rfl | hk'
  · exact hk
  · exact h k' hk'

omit [DecidableEq K] in
theorem map_row_keys (hk : k.length = l.keys.length) : l.keys.map (l.row k w) = k.map some := by
  refine List.ext_getElem (by simp [hk]) fun i hi hi' => ?_
  rw [List.getElem_map, List.getElem_map, row_key hk (by simpa using hi), List.get_eq_getElem]

omit [DecidableEq K] in
theorem nodup_rows (h : l.Fills t) : ((l.rows t).map fun r => l.keys.map r).Nodup := by
  rw [rows, Multiset.map_map]
  refine Multiset.Nodup.map_on (fun k hk k' hk' heq => ?_) t.keys.nodup
  rw [Function.comp_apply, Function.comp_apply, map_row_keys (h k hk),
    map_row_keys (h k' hk')] at heq
  exact List.map_injective_iff.mpr (Option.some_injective _) heq

theorem put_rows (h : l.Fills t) (hk : k.length = l.keys.length) (w : ℕ → ℚ) :
    (l.upsert target).put (l.rows t) (l.row k w) = l.rows (t.upsert k w) := by
  have hhit : ∀ k' ∈ t.keys.val, ((l.upsert target).hit (l.row k' (t.value k')) (l.row k w) ↔
      k' = k) :=
    fun k' hk' => hit_iff (h k' hk') hk
  have hex : (∃ old ∈ l.rows t, (l.upsert target).hit old (l.row k w)) ↔ k ∈ t.keys := by
    simp only [rows, Multiset.mem_map]
    constructor
    · rintro ⟨_, ⟨k', hk', rfl⟩, hh⟩
      rwa [(hhit k' hk').mp hh] at hk'
    · exact fun hmem => ⟨_, ⟨k, hmem, rfl⟩, (hhit k hmem).mpr rfl⟩
  rw [Upsert.put]
  by_cases hmem : k ∈ t.keys
  · rw [if_pos (hex.mpr hmem), rows, rows, Multiset.map_map]
    have hkeys : (t.upsert k w).keys = t.keys := Finset.insert_eq_of_mem hmem
    rw [hkeys]
    refine Multiset.map_congr rfl fun k' hk' => ?_
    rw [Function.comp_apply]
    by_cases heq : k' = k
    · rw [if_pos ((hhit k' hk').mpr heq), heq, KeyedTable.upsert_value_self, merge_row hk]
    · rw [if_neg (mt (hhit k' hk').mp heq), KeyedTable.upsert_value_ne _ heq]
  · rw [if_neg (mt hex.mp hmem), rows, rows]
    have hkeys : (t.upsert k w).keys.val = k ::ₘ t.keys.val := Finset.insert_val_of_notMem hmem
    rw [hkeys, Multiset.map_cons]
    congr 1
    · rw [KeyedTable.upsert_value_self, t.value_eq_zero k hmem, zero_add]
    · refine Multiset.map_congr rfl fun k' hk' => ?_
      have hne : k' ≠ k := fun heq => hmem (heq ▸ hk')
      rw [KeyedTable.upsert_value_ne _ hne]

omit [DecidableEq K] in
theorem filter_rows (h : l.Fills t) (hpos : 0 < l.numbers.length) :
    ((l.rows t).filter fun row => Cell.positive (row l.numbers[0])) =
      l.rows (t.prune (Pi.evalAddMonoidHom (fun _ => ℚ) 0)) := by
  have hcell : ∀ k ∈ t.keys.val,
      (Cell.positive (l.row k (t.value k) l.numbers[0]) = true ↔ 0 < t.value k 0) := by
    intro k hk
    rw [row_number (h k hk) hpos]
    exact decide_eq_true_iff
  rw [rows, Multiset.filter_map, rows]
  refine (Multiset.map_congr (Multiset.filter_congr hcell) fun k hk => ?_).trans rfl
  exact congrArg _ (KeyedTable.prune_value (Multiset.mem_filter.mp hk).2).symm

end Layout

end WalFlux.Sql
