import WalFlux.Aggregates.Ledger

/-! The number arithmetic of one row event, as rounding on the rationals. Every delta passes twice
through the decimal context, once multiplied by its sign and once added to the running total. -/

namespace WalFlux.Aggregates

open Sql Python

def roundedAdd (total x : ℚ) : Option ℚ :=
  (defaultContext.round x).bind fun x => defaultContext.round (total + x)

def Slot.add (slot : Slot) (total x : ℚ) : Option ℚ :=
  if slot.isSum then roundedAdd total x else some (total + x)

variable {F : Type}

def addSlots (row : Row F) (sign : ℤ) : List Slot → List ℚ → Option (List ℚ)
  | slot :: slots, total :: totals => do
    let total ← slot.add total (sign * slot.value row)
    return total :: (← addSlots row sign slots totals)
  | _, _ => some []

theorem addSlots_append (row : Row F) (sign : ℤ) {slots slots' : List Slot}
    {totals totals' : List ℚ} (h : slots.length = totals.length) :
    addSlots row sign (slots ++ slots') (totals ++ totals') =
      (addSlots row sign slots totals).bind fun done =>
        (addSlots row sign slots' totals').map (done ++ ·) := by
  induction slots generalizing totals with
  | nil =>
    rw [List.length_nil, eq_comm, List.length_eq_zero_iff] at h
    subst h
    simp [addSlots]
  | cons slot slots ih =>
    obtain ⟨total, totals, rfl⟩ := List.exists_cons_of_length_eq_add_one h.symm
    simp only [List.cons_append, addSlots, ih (Nat.succ.inj h)]
    cases slot.add total (sign * slot.value row) with
    | none => rfl
    | some t =>
      cases addSlots row sign slots totals with
      | none => rfl
      | some ts => cases addSlots row sign slots' totals' <;> rfl

def SlotsExact (slots : List Slot) (entries : List (ℤ × Row F)) (sign : ℤ) (row : Row F) : Prop :=
  ∀ slot ∈ slots, slot.add (slot.total entries) (sign * slot.value row) =
    some (slot.total entries + sign * slot.value row)

theorem addSlots_totals_iff (slots : List Slot) (entries : List (ℤ × Row F)) (sign : ℤ)
    (row : Row F) :
    addSlots row sign slots (slots.map (·.total entries)) =
        some (slots.map (·.total (entries ++ [(sign, row)]))) ↔
      SlotsExact slots entries sign row := by
  induction slots with
  | nil => simp [addSlots, SlotsExact]
  | cons slot slots ih =>
    rw [SlotsExact, List.forall_mem_cons, ← SlotsExact, ← ih, List.map_cons, addSlots,
      List.map_cons, Slot.total_append]
    cases slot.add (slot.total entries) (sign * slot.value row) with
    | none => simp
    | some t => cases addSlots row sign slots (slots.map (·.total entries)) <;> simp

/-! ### The number types of the program against the totals -/

def KindsOf (slots : List Slot) (nums : List Num) : Prop :=
  nums.map Num.isDec = slots.map Slot.isSum

theorem KindsOf.length {slots : List Slot} {nums : List Num} (h : KindsOf slots nums) :
    nums.length = slots.length := by
  simpa using congrArg List.length h

def Computes (slots : List Slot) (r : Except Error (List Num)) (o : Option (List ℚ)) : Prop :=
  match r with
  | .ok nums => KindsOf slots nums ∧ o = some (nums.map Num.toRat)
  | .error _ => o = none

theorem accumulate_int (sign i j : ℤ) :
    DeltaBatch.accumulate sign (.int i) (.int j) = .ok (.int (i + sign * j)) := rfl

theorem accumulate_dec (sign : ℤ) (s x : Decimal) :
    match DeltaBatch.accumulate sign (.dec s) (.dec x) with
    | .ok n => n.isDec = true ∧ roundedAdd s.toRat (sign * x.toRat) = some n.toRat
    | .error _ => roundedAdd s.toRat (sign * x.toRat) = none := by
  have hmul := Decimal.map_toRat_mul defaultContext (.ofInt sign) x
  rw [Decimal.toRat_ofInt] at hmul
  simp only [DeltaBatch.accumulate, Num.mul, Num.toDecimal, roundedAdd, ← hmul]
  cases Decimal.mul defaultContext (.ofInt sign) x with
  | none => rfl
  | some p =>
    have hadd := Decimal.map_toRat_add defaultContext s p
    simp only [Option.map_some, Option.bind_some, ← hadd]
    change match Num.add (.dec s) (.dec p) with
      | .ok n => n.isDec = true ∧ _
      | .error _ => _
    simp only [Num.add, Num.toDecimal]
    cases Decimal.add defaultContext s p <;> simp [Num.isDec, Num.toRat]

theorem accumulate_computes (slot : Slot) (sign : ℤ) (n d : Num) (hn : n.isDec = slot.isSum)
    (hd : d.isDec = slot.isSum) :
    match DeltaBatch.accumulate sign n d with
    | .ok m => m.isDec = slot.isSum ∧ slot.add n.toRat (sign * d.toRat) = some m.toRat
    | .error _ => slot.add n.toRat (sign * d.toRat) = none := by
  cases hs : slot.isSum
  · rw [hs] at hn hd
    obtain ⟨i, rfl⟩ : ∃ i, n = .int i := by
      cases n
      · exact ⟨_, rfl⟩
      · cases hn
    obtain ⟨j, rfl⟩ : ∃ j, d = .int j := by
      cases d
      · exact ⟨_, rfl⟩
      · cases hd
    rw [accumulate_int]
    simp [Num.isDec, Slot.add, hs, Num.toRat]
  · rw [hs] at hn hd
    obtain ⟨s, rfl⟩ : ∃ s, n = .dec s := by
      cases n
      · cases hn
      · exact ⟨_, rfl⟩
    obtain ⟨x, rfl⟩ : ∃ x, d = .dec x := by
      cases d
      · cases hd
      · exact ⟨_, rfl⟩
    simpa [Slot.add, hs, Num.toRat] using accumulate_dec sign s x

def DeltasFor (row : Row F) (slots : List Slot) (deltas : List Num) : Prop :=
  List.Forall₂ (fun slot d => d.isDec = slot.isSum ∧ d.toRat = slot.value row) slots deltas

theorem addDeltas_computes {row : Row F} (sign : ℤ) {slots : List Slot} {nums deltas : List Num}
    (hn : KindsOf slots nums) (hd : DeltasFor row slots deltas) :
    Computes slots (DeltaBatch.addDeltas sign nums deltas)
      (addSlots row sign slots (nums.map Num.toRat)) := by
  induction hd generalizing nums with
  | nil =>
    have := List.length_eq_zero_iff.mp (KindsOf.length hn)
    subst this
    exact ⟨rfl, rfl⟩
  | cons hd hds ih =>
    rename_i slot d slots deltas
    obtain ⟨n, nums, rfl⟩ := List.exists_cons_of_length_eq_add_one (KindsOf.length hn)
    obtain ⟨hn, hns⟩ := List.cons.inj hn
    have hacc := accumulate_computes slot sign n d hn hd.1
    have hrest := ih hns
    rw [hd.2] at hacc
    simp only [DeltaBatch.addDeltas, List.map_cons, addSlots]
    cases hm : DeltaBatch.accumulate sign n d with
    | error e =>
      rw [hm] at hacc
      simp only at hacc
      rw [hacc]
      rfl
    | ok m =>
      rw [hm] at hacc
      obtain ⟨hkind, hval⟩ := hacc
      rw [hval]
      cases hms : DeltaBatch.addDeltas sign nums deltas with
      | error e =>
        rw [hms] at hrest
        simp only [Computes] at hrest
        rw [hrest]
        rfl
      | ok ms =>
        rw [hms] at hrest
        obtain ⟨hkinds, hvals⟩ := hrest
        rw [hvals]
        exact ⟨congrArg₂ List.cons hkind hkinds, rfl⟩

/-! ### One row event -/

variable [PyFloat F]

omit [PyFloat F] in
theorem index_eq {row : Row F} {c : String} {value : Value F}
    (h : Dict.get? row c = some value) : Row.index row c = .ok (row.value c) := by
  rw [Row.index, Row.value, h]
  rfl

theorem asDecimal_of_numberOf {value : Value F} {q : ℚ} (h : numberOf value = some q)
    (viewName column : String) : ∃ d, asDecimal value viewName column = .ok d ∧ d.toRat = q := by
  cases value with
  | int i =>
    cases h
    exact ⟨.ofInt i, rfl, Decimal.toRat_ofInt i⟩
  | decimal d =>
    cases d with
    | finite d =>
      cases h
      exact ⟨d, rfl, rfl⟩
    | infinite _ => cases h
    | nan _ => cases h
  | _ => cases h

omit [PyFloat F] in
theorem isNull_eq_none {value : Value F} (h : isNull value = true) : value = .none := by
  cases value <;> first | rfl | cases h

theorem aggDeltas_ok {view : ViewSpec} {row : Row F} (hrow : Fits view row) {agg : AggSpec}
    (hagg : agg ∈ view.aggregates) (hplan : (aggStorage agg).isOk) :
    ∃ deltas, aggDeltas agg row view.name = .ok deltas ∧ DeltasFor row (aggSlots agg) deltas := by
  have hcol : ∀ c, agg.column = some c → Row.index row c = .ok (row.value c) := by
    intro c hc
    have hmem : c ∈ view.groupBy ++ view.aggregates.filterMap AggSpec.column :=
      List.mem_append_right _ (List.mem_filterMap.mpr ⟨agg, hagg, hc⟩)
    obtain ⟨value, hv, -⟩ := hrow.complete c hmem
    exact index_eq hv
  -- sum and avg keep the same two slots
  have hsum : ∀ c, agg.fn ≠ .count → agg.column = some c →
      ∃ deltas, (do
        let value ← Row.index row c
        if isNull value then return [.dec (.ofInt 0), .int 0]
        else return [.dec (← asDecimal value view.name c), .int 1] : Except Error (List Num)) =
          .ok deltas ∧ DeltasFor row [.sum c, .nonNull c] deltas := by
    intro c hfn hc
    rw [hcol c hc]
    by_cases hnull : isNull (row.value c) = true
    · refine ⟨[.dec (.ofInt 0), .int 0], by simp [bind, Except.bind, hnull, pure, Except.pure], ?_⟩
      refine .cons ⟨rfl, ?_⟩ (.cons ⟨rfl, ?_⟩ .nil)
      · rw [Slot.value, isNull_eq_none hnull]
        exact Decimal.toRat_ofInt 0
      · rw [Slot.value, if_pos hnull]
        exact Int.cast_zero
    · obtain ⟨q, hq⟩ := Option.isSome_iff_exists.mp
        ((hrow.finite agg hagg hfn c hc).resolve_left hnull)
      obtain ⟨d, hd, hdq⟩ := asDecimal_of_numberOf hq view.name c
      refine ⟨[.dec d, .int 1],
        by simp [bind, Except.bind, hnull, hd, pure, Except.pure], ?_⟩
      refine .cons ⟨rfl, ?_⟩ (.cons ⟨rfl, ?_⟩ .nil)
      · rw [Slot.value, hq]
        exact hdq
      · rw [Slot.value, if_neg hnull]
        exact Int.cast_one
  rcases agg with ⟨fn, column, as⟩
  cases fn with
  | count =>
    cases column with
    | none => exact ⟨[.int 1], rfl, .cons ⟨rfl, Int.cast_one⟩ .nil⟩
    | some c =>
      refine ⟨[.int (if isNull (row.value c) then 0 else 1)], ?_, .cons ⟨rfl, ?_⟩ .nil⟩
      · simp only [aggDeltas]
        rw [hcol c rfl]
        rfl
      · rw [Slot.value]
        split_ifs
        · exact Int.cast_zero
        · exact Int.cast_one
  | sum =>
    cases column with
    | none => cases hplan
    | some c => exact hsum c nofun rfl
  | avg =>
    cases column with
    | none => cases hplan
    | some c => exact hsum c nofun rfl

omit [PyFloat F] in
theorem DeltasFor.length {row : Row F} {slots : List Slot} {deltas : List Num}
    (h : DeltasFor row slots deltas) : deltas.length = slots.length := h.length_eq.symm

theorem addAggregates_computes {view : ViewSpec} {row : Row F} (hrow : Fits view row) (sign : ℤ)
    {aggs : List AggSpec} (haggs : ∀ agg ∈ aggs, agg ∈ view.aggregates ∧ (aggStorage agg).isOk)
    {nums : List Num} (hn : KindsOf (aggs.flatMap aggSlots) nums) :
    Computes (aggs.flatMap aggSlots)
      (DeltaBatch.addAggregates view.name row sign aggs nums)
      (addSlots row sign (aggs.flatMap aggSlots) (nums.map Num.toRat)) := by
  induction aggs generalizing nums with
  | nil =>
    have := List.length_eq_zero_iff.mp (KindsOf.length hn)
    subst this
    exact ⟨rfl, rfl⟩
  | cons agg aggs ih =>
    obtain ⟨hagg, haggs⟩ := List.forall_mem_cons.mp haggs
    obtain ⟨deltas, hd, hfor⟩ := aggDeltas_ok hrow hagg.1 hagg.2
    -- the slots of this aggregate are the first of those left
    obtain ⟨done, rest, rfl, hdone, hrest⟩ : ∃ done rest, nums = done ++ rest ∧
        KindsOf (aggSlots agg) done ∧ KindsOf (aggs.flatMap aggSlots) rest := by
      rw [KindsOf, List.flatMap_cons, List.map_append] at hn
      obtain ⟨done, rest, rfl, hdone, hrest⟩ := List.map_eq_append_iff.mp hn
      exact ⟨done, rest, rfl, hdone, hrest⟩
    have hlen : deltas.length = done.length := hfor.length.trans hdone.length.symm
    have hhead := addDeltas_computes sign hdone hfor
    have htail := ih haggs hrest
    rw [DeltaBatch.addAggregates, hd]
    simp only [bind, Except.bind, hlen, List.take_left, List.drop_left, List.map_append,
      List.flatMap_cons]
    rw [addSlots_append row sign (by rw [List.length_map, hdone.length])]
    cases hds : DeltaBatch.addDeltas sign done deltas with
    | error e =>
      rw [hds] at hhead
      simp only [Computes] at hhead
      rw [hhead]
      rfl
    | ok ms =>
      rw [hds] at hhead
      obtain ⟨hkinds, hvals⟩ := hhead
      rw [hvals]
      cases has : DeltaBatch.addAggregates view.name row sign aggs rest with
      | error e =>
        rw [has] at htail
        simp only [Computes] at htail
        simp only [Option.bind_some, htail]
        rfl
      | ok ms' =>
        rw [has] at htail
        obtain ⟨hkinds', hvals'⟩ := htail
        simp only [Option.bind_some, hvals', Option.map_some]
        refine ⟨?_, by rw [List.map_append]⟩
        rw [KindsOf, List.map_append, List.map_append, hkinds, hkinds']

theorem addRow_computes {view : ViewSpec} {row : Row F} (hrow : Fits view row) (sign : ℤ)
    (hview : ∀ agg ∈ view.aggregates, (aggStorage agg).isOk) {nums : List Num}
    (hn : KindsOf (slots view) nums) :
    Computes (slots view) (DeltaBatch.addRow view row sign nums)
      (addSlots row sign (slots view) (nums.map Num.toRat)) := by
  obtain ⟨n, nums, rfl⟩ := List.exists_cons_of_length_eq_add_one hn.length
  obtain ⟨hn, hns⟩ := List.cons.inj hn
  have hrest := addAggregates_computes hrow sign (fun agg h => ⟨h, hview agg h⟩) hns
  obtain ⟨i, rfl⟩ : ∃ i, n = .int i := by
    cases n
    · exact ⟨_, rfl⟩
    · cases hn
  rw [DeltaBatch.addRow, slots, List.map_cons, addSlots]
  have hhead : Slot.rows.add (Num.toRat (.int i)) (sign * Slot.rows.value row) =
      some (Num.toRat (.int (i + sign))) := by
    simp [Slot.add, Slot.isSum, Slot.value, Num.toRat]
  rw [hhead]
  change Computes _ (DeltaBatch.addAggregates view.name row sign view.aggregates nums >>=
    fun rest => .ok (.int (i + sign) :: rest)) _
  cases has : DeltaBatch.addAggregates view.name row sign view.aggregates nums with
  | error e =>
    rw [has] at hrest
    simp only [Computes] at hrest
    rw [hrest]
    rfl
  | ok ms =>
    rw [has] at hrest
    obtain ⟨hkinds, hvals⟩ := hrest
    rw [hvals]
    exact ⟨congrArg (List.cons false) hkinds, rfl⟩

end WalFlux.Aggregates
