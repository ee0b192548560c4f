import WalFlux.Aggregates.Target

/-! What a reader of a target finds: one row for each group, and `SUM` and `AVG` as SQL defines them
over the rows of the group. -/

namespace WalFlux.Aggregates

open Sql Python

variable {F K : Type} {read : String → Value F → K} {types : Dict String String} {view : ViewSpec}
  {plan : Plan} {storage : List Storage} {t : Table K}

theorem PlanFor.sum_columns (hp : PlanFor view plan storage) {agg : AggSpec}
    (hagg : agg ∈ view.aggregates) (hfn : agg.fn ≠ .count) {c : String} (hc : agg.column = some c) :
    (Slot.sum c, agg.as ++ "__sum") ∈ (slots view).zip (plan.upsert.updates.map Ident.name) ∧
      (Slot.nonNull c, agg.as ++ "__nn") ∈ (slots view).zip
      (plan.upsert.updates.map Ident.name) := by
  obtain ⟨parts, hparts, hst⟩ := Except.bind_eq_ok.mp hp.storage_ok
  cases Except.pure_eq_ok.mp hst
  obtain ⟨part, hpart, hsub⟩ := (Except.mapM_eq_ok.mp hparts).exists_zip_flatMap
    (f := aggSlots) (g := List.map Storage.name)
    (fun _ _ h => by rw [List.length_map, (aggStorage_slots h).length_eq]) hagg
  have hzip : (slots view).zip (plan.upsert.updates.map Ident.name) =
      (.rows, rowsColumn) :: (view.aggregates.flatMap aggSlots).zip
          (parts.flatMap (List.map Storage.name)) := by
    rw [hp.updates_eq, slots, List.zip_cons_cons, List.map_flatten, List.flatMap_def (l := parts)]
  rw [hzip]
  rcases agg with ⟨fn, column, as⟩
  cases hc
  have hpart : ∃ src, part = [⟨as ++ "__sum", .numeric, .coalesceSum src, .dec (Decimal.ofInt 0)⟩,
      ⟨as ++ "__nn", .bigint, .count src, .int 0⟩] := by
    cases fn with
    | count => exact absurd rfl hfn
    | _ =>
      obtain ⟨src, -, h⟩ := Except.bind_eq_ok.mp hpart
      exact ⟨src, (Except.pure_eq_ok.mp h).symm⟩
  obtain ⟨src, rfl⟩ := hpart
  have hslots : aggSlots ⟨fn, some c, as⟩ = [.sum c, .nonNull c] := by
    cases fn with
    | count => exact absurd rfl hfn
    | _ => rfl
  rw [hslots] at hsub
  exact ⟨List.mem_cons_of_mem _ (hsub (by simp)), List.mem_cons_of_mem _ (hsub (by simp))⟩

theorem visible_eq (ht : (t.columns.map ColumnDef.name).Nodup) {shown total nn : Ident}
    {average : Bool} (h : .generated shown total nn average ∈ t.columns) (row : TableRow K) :
    t.visible row shown = generatedValue row total nn average := by
  rw [Table.visible]
  generalize t.columns = defs at ht h
  induction defs with
  | nil => cases h
  | cons d defs ih =>
    rw [List.map_cons, List.nodup_cons] at ht
    rcases List.mem_cons.mp h with rfl | hmem
    · simp
    · have hne : d.name ≠ shown := fun e => ht.1 (List.mem_map.mpr ⟨_, hmem, e.symm⟩)
      rw [List.findSome?_cons]
      cases d with
      | stored => exact ih ht.2 hmem
      | generated name =>
        have hne : name ≠ shown := hne
        simpa [hne] using ih ht.2 hmem

variable [DecidableEq K]

theorem row_slot (ht : TargetOf types view plan storage t)
    {k : List (Cell K)} (hk : k.length = ht.layout.keys.length) (S : Multiset (Row F)) {slot : Slot}
    {i : Ident} (h : (slot, i.name) ∈ (slots view).zip (plan.upsert.updates.map Ident.name)) :
    ht.layout.row k ((grouping read types view).sums S k) i =
      some (.num ((S.filter fun r => sqlKey read types view r = k).map
        (Slot.value · slot)).sum) := by
  obtain ⟨j, hj, hij⟩ := List.getElem_of_mem h
  rw [List.getElem_zip, Prod.mk.injEq, List.getElem_map] at hij
  obtain ⟨rfl, hname⟩ := hij
  rw [List.length_zip, lt_min_iff, List.length_map] at hj
  rw [← Ident.ext hname]
  refine (Layout.row_number hk (i := j) hj.2).trans ?_
  rw [Grouping.sums_apply, weight_sum_apply read types view _ hj.1]
  rfl

structure Shows (read : String → Value F → K) (types : Dict String String) (view : ViewSpec)
    (S : Multiset (Row F)) (t : Table K) : Prop where
  distinct : t.Distinct t.rows
  grouped : view.groupBy ≠ [] → ∀ row ∈ t.rows, Cell.positive (row DeltaBatch.rowsIdent) = true
  single : view.groupBy = [] → t.rows.card = 1
  visible : ∀ agg ∈ view.aggregates, agg.fn ≠ .count → ∀ c, agg.column = some c →
    ∀ shown : Ident, shown.name = agg.as → ∀ row ∈ t.rows, ∀ keys ∈ t.unique,
    let inputs := (S.filter fun r => keys.map row = (sqlKey read types view r).map some ∧
      isNull (r.value c) = false).map fun r => (numberOf (r.value c)).getD 0
    t.visible row shown =
      if inputs = 0 then none
      else some (if agg.fn = .avg then inputs.sum / inputs.card else inputs.sum)

omit [DecidableEq K] in
theorem sum_nonNull (group : Multiset (Row F)) (c : String) :
    (group.map (Slot.value · (.sum c))).sum =
        ((group.filter fun r => isNull (r.value c) = false).map fun r =>
          (numberOf (r.value c)).getD 0).sum ∧
      (group.map (Slot.value · (.nonNull c))).sum =
        (group.filter fun r => isNull (r.value c) = false).card := by
  induction group using Multiset.induction_on with
  | empty => simp
  | cons r group ih =>
    simp only [Multiset.map_cons, Multiset.sum_cons, ih.1, ih.2]
    by_cases hn : isNull (r.value c) = true
    · rw [Multiset.filter_cons_of_neg _ (by simp [hn])]
      simp [Slot.value, isNull_eq_none hn, numberOf, isNull]
    · rw [Multiset.filter_cons_of_pos _ (by simpa using hn)]
      simp [Slot.value, hn, add_comm]

/-- The result of `backfill_sql` is what SQL says the view is. -/
theorem rebuilt_shows (hp : PlanFor view plan storage) {S : Multiset (Row F)}
    (h : rebuilt read view ⟨types, S⟩ = .ok t) : Shows read types view S t := by
  obtain ⟨ht, hrows, -⟩ := rebuilt_contents read hp h (rebuilt_numeric read hp h)
  have hfill := fills_query read hp ht S
  have hvalue : (query read types view S).value = (grouping read types view).sums S :=
    query_value read view S
  have hrow : ∀ row ∈ t.rows, ∃ k, k.length = ht.layout.keys.length ∧
      row = ht.layout.row k ((grouping read types view).sums S k) ∧
      k ∈ (query read types view S).keys := by
    intro row hr
    rw [hrows] at hr
    obtain ⟨k, hk, rfl⟩ := Multiset.mem_map.mp hr
    exact ⟨k, hfill k hk, by rw [hvalue], hk⟩
  constructor
  · intro keys hkeys
    rw [ht.unique_eq, Option.mem_some] at hkeys
    rw [hrows, ← hkeys]
    exact Layout.nodup_rows hfill
  · intro hg row hr
    obtain ⟨k, hlen, rfl, hk⟩ := hrow row hr
    have hmem : (.rows, DeltaBatch.rowsIdent.name) ∈
        (slots view).zip (plan.upsert.updates.map Ident.name) := by
      rw [hp.updates_eq]
      exact List.mem_cons_self
    rw [query, dif_pos hg] at hk
    obtain ⟨r, hrS, rfl⟩ := Multiset.mem_map.mp (Multiset.mem_toFinset.mp hk)
    -- the group of a key of the query has the row that gave the key
    have hpos : 0 < (S.filter fun r' => sqlKey read types view r' =
        sqlKey read types view r).card :=
      Multiset.card_pos_iff_exists_mem.mpr ⟨r, Multiset.mem_filter.mpr ⟨hrS, rfl⟩⟩
    rw [row_slot ht hlen S hmem]
    change decide ((0 : ℚ) < ((S.filter fun r' => sqlKey read types view r' =
      sqlKey read types view r).map fun _ => (1 : ℚ)).sum) = true
    simpa using hpos
  · intro hg
    rw [hrows, Layout.rows, Multiset.card_map, query, dif_neg (not_not.mpr hg)]
    rfl
  · intro agg hagg hfn c hc shown hshown row hr keys hkeys
    obtain ⟨k, hlen, rfl, -⟩ := hrow row hr
    obtain ⟨shown', total, nn, hs, htotal, hnn, hmem⟩ := ht.shown agg hagg hfn
    obtain ⟨hsum, hcount⟩ := hp.sum_columns hagg hfn hc
    rw [ht.unique_eq, Option.mem_some] at hkeys
    cases Ident.ext (hs.trans hshown.symm)
    -- the stored key tells the rows of the group from all others
    have hinputs : (S.filter fun r => keys.map (ht.layout.row k
      ((grouping read types view).sums S k)) =
          (sqlKey read types view r).map some ∧ isNull (r.value c) = false) =
        (S.filter fun r => sqlKey read types view r = k).filter fun r =>
            isNull (r.value c) = false := by
      rw [Multiset.filter_filter]
      refine Multiset.filter_congr fun r _ => ?_
      rw [← hkeys, show plan.upsert.conflict = ht.layout.keys from rfl, Layout.map_row_keys hlen,
        (List.map_injective_iff.mpr (Option.some_injective _)).eq_iff, eq_comm (a := k), and_comm]
    obtain ⟨hsumval, hcountval⟩ := sum_nonNull (S.filter fun r => sqlKey read types view r = k) c
    dsimp only
    rw [hinputs, visible_eq ht.nodup_names hmem, generatedValue,
      row_slot ht hlen S (htotal ▸ hsum), row_slot ht hlen S (hnn ▸ hcount), hsumval, hcountval]
    generalize (S.filter fun r => sqlKey read types view r = k).filter
      (fun r => isNull (r.value c) = false) = inputs
    -- SUM and AVG of no value are NULL
    by_cases hnone : inputs = 0
    · simp [hnone]
    · have hpos : (0 : ℚ) < inputs.card := Nat.cast_pos.mpr (Multiset.card_pos.mpr hnone)
      dsimp only
      rw [if_pos hpos, if_neg (mt Multiset.map_eq_zero.mp hnone), Multiset.card_map]
      simp only [decide_eq_true_eq]

end WalFlux.Aggregates
