import WalFlux.Aggregates.Exactness
import WalFlux.Aggregates.Target

/-! A batch as a change of grouped sums: the ledger of a view adds up to the change its events make
to the sums over the source, and so do the numbers the batch holds. -/

namespace WalFlux.Aggregates

open Sql Python

variable {F K : Type} [PyFloat F] [DecidableEq K] (read : String → Value F → K)
  (types : Dict String String)

/-! ### The ledger as a change of sums -/

def RowEvent.change : RowEvent F → RowChange (Row F)
  | .insert _ row => .insert row
  | .delete _ row => .delete row
  | .truncate _ => .truncate

def changesOf (name : String) (events : List (RowEvent F)) : List (RowChange (Row F)) :=
  (events.filter fun e => e.view = name).map RowEvent.change

def paramKey (view : ViewSpec) (key : List (Value F)) : List (Cell K) :=
  if view.groupBy ≠ [] then
    List.zipWith (fun c v => .key (read (typeName types c) v)) view.groupBy key
  else [.flag true]

omit [PyFloat F] [DecidableEq K] in
theorem paramKey_groupKey (view : ViewSpec) (row : Row F) :
    paramKey read types view (groupKey view row) = sqlKey read types view row := by
  rw [paramKey, sqlKey, groupKey]
  split_ifs with hg
  · rw [List.zipWith_map_right, List.zipWith_self]
  · rfl

def entrySums (view : ViewSpec) (e : ℤ × Row F) : List (Cell K) → ℕ → ℚ :=
  Pi.single (sqlKey read types view e.2) (e.1 • (grouping read types view).weight e.2)

def ledgerSums (view : ViewSpec) (l : Ledger F) : List (Cell K) → ℕ → ℚ :=
  (l.map fun g => (g.2.map (entrySums read types view)).sum).sum

theorem change_ledger (view : ViewSpec) (events : List (RowEvent F)) :
    ((grouping read types view).change (changesOf view.name events)).add =
        ledgerSums read types view (ledger view events) ∧
      (((grouping read types view).change (changesOf view.name events)).reset = true ↔
        .truncate view.name ∈ events) := by
  induction events using List.reverseRecOn with
  | nil => exact ⟨rfl, by simp [changesOf, Grouping.change]⟩
  | append_singleton events e ih =>
    obtain ⟨hadd, hreset⟩ := ih
    by_cases hname : view.name = e.view
    · have hchange : changesOf view.name (events ++ [e]) =
          changesOf view.name events ++ [e.change] := by
        simp [changesOf, hname]
      have hpush : ∀ entry : ℤ × Row F, e.entry = some entry →
          ledgerSums read types view (ledger view (events ++ [e])) =
            ledgerSums read types view (ledger view events) + entrySums read types view entry := by
        intro entry he
        rw [ledger_append, ledgerStep, if_pos hname.symm, he]
        exact Dict.sum_push _ _ _ _
      rw [hchange, Grouping.change, List.foldl_append, List.foldl_cons, List.foldl_nil,
        ← Grouping.change]
      cases e with
      | insert name row =>
        refine ⟨?_, by simpa [Grouping.step, RowEvent.change] using hreset⟩
        rw [hpush _ rfl, ← hadd, entrySums, one_smul]
        rfl
      | delete name row =>
        refine ⟨?_, by simpa [Grouping.step, RowEvent.change] using hreset⟩
        rw [hpush _ rfl, ← hadd, entrySums, neg_smul, one_smul, Pi.single_neg, ← sub_eq_add_neg]
        rfl
      | truncate name =>
        refine ⟨?_, ?_⟩
        · rw [ledger_truncate hname rfl]
          split_ifs <;> simp [Grouping.step, RowEvent.change, ledgerSums]
        · have : name = view.name := hname.symm
          simp [Grouping.step, RowEvent.change, this]
    -- an event of another view
    · have hchange : changesOf view.name (events ++ [e]) = changesOf view.name events := by
        simp [changesOf, Ne.symm hname]
      have hne : RowEvent.truncate view.name ≠ e := by
        rintro rfl
        exact hname rfl
      rw [hchange, ledger_other hname]
      exact ⟨hadd, by simp [hreset, hne]⟩

def rowsOf (name : String) (events : List (RowEvent F)) : List (Row F) :=
  (events.filter fun e => e.view = name).filterMap fun e => e.entry.map Prod.snd

/-- Equal group keys in memory are equal group keys in the database. -/
def KeysAgree (view : ViewSpec) (rows : List (Row F)) : Prop :=
  ∀ row ∈ rows, ∀ row' ∈ rows, (groupKey view row == groupKey view row') = true →
    sqlKey read types view row = sqlKey read types view row'

omit [DecidableEq K] in
theorem ledger_paramKey {view : ViewSpec} {events : List (RowEvent F)}
    (hkeys : KeysAgree read types view (rowsOf view.name events)) :
    (∀ g ∈ ledger view events, ∀ entry ∈ g.2,
      sqlKey read types view entry.2 = paramKey read types view g.1) ∧
    (view.groupBy ≠ [] → ∀ g ∈ ledger view events,
      ∃ row ∈ rowsOf view.name events, groupKey view row = g.1) := by
  induction events using List.reverseRecOn with
  | nil => exact ⟨nofun, fun _ => nofun⟩
  | append_singleton events e ih =>
    have hsub : rowsOf view.name events ⊆ rowsOf view.name (events ++ [e]) := by
      intro row hrow
      rw [rowsOf, List.filter_append, List.filterMap_append]
      exact List.mem_append_left _ hrow
    obtain ⟨hentries, hrows⟩ := ih fun row hrow row' hrow' =>
      hkeys row (hsub hrow) row' (hsub hrow')
    have hrows := fun hg g hmem =>
      (hrows hg g hmem).imp fun row h => And.intro (hsub h.1) h.2
    by_cases hname : view.name = e.view
    · cases hentry : e.entry with
      | none =>
        rw [ledger_truncate hname hentry]
        split_ifs with hg
        · exact ⟨nofun, fun _ => nofun⟩
        · exact ⟨by simp, fun h => absurd h hg⟩
      | some entry =>
        have hrow : entry.2 ∈ rowsOf view.name (events ++ [e]) := by
          rw [rowsOf, List.filter_append, List.filterMap_append, List.mem_append]
          exact .inr (by simp [hname, hentry])
        rw [ledger_append, ledgerStep, if_pos hname.symm, hentry]
        refine ⟨Dict.forall_mem_push (P := fun k (x : ℤ × Row F) => sqlKey read types view x.2 =
          paramKey read types view k) hentries (paramKey_groupKey read types view _).symm
          fun g hg heq => ?_, fun hg => ?_⟩
        -- the new row may meet a group that an equal key opened
        · by_cases hgroup : view.groupBy ≠ []
          · obtain ⟨row, hrow', hkey⟩ := hrows hgroup g hg
            rw [← hkey] at heq ⊢
            rw [paramKey_groupKey]
            exact (hkeys row hrow' entry.2 hrow heq).symm
          · rw [sqlKey, paramKey, if_neg hgroup, if_neg hgroup]
        · exact Dict.forall_key_push (P := fun k => ∃ row ∈ rowsOf view.name (events ++ [e]),
            groupKey view row = k) _ (hrows hg) ⟨entry.2, hrow, rfl⟩
    · rw [ledger_other hname]
      exact ⟨hentries, hrows⟩

def numbers (nums : List Num) (i : ℕ) : ℚ := (nums[i]?.map Num.toRat).getD 0

def upsertsOf (view : ViewSpec) (groups : Groups F) : List (List (Cell K) × (ℕ → ℚ)) :=
  groups.map fun g => (paramKey read types view g.1, numbers g.2)

omit [PyFloat F] [DecidableEq K] in
theorem numbers_eq {view : ViewSpec} {entries : List (ℤ × Row F)} {nums : List Num}
    (h : Values view entries nums) :
    numbers nums = (entries.map fun e => e.1 • (grouping read types view).weight e.2).sum := by
  funext i
  have hi : (nums.map Num.toRat)[i]? = ((slots view).map (·.total entries))[i]? := by rw [h]
  rw [List.getElem?_map, List.getElem?_map] at hi
  rw [numbers, hi, Pi.list_sum_apply, List.map_map]
  cases hslot : (slots view)[i]? with
  | none => simp [Function.comp_def, grouping, hslot]
  | some slot => simp [Function.comp_def, grouping, hslot, Slot.total]

variable {read types}

omit [PyFloat F] in
theorem single_entries {view : ViewSpec} {key : List (Cell K)} {entries : List (ℤ × Row F)}
    (h : ∀ entry ∈ entries, sqlKey read types view entry.2 = key) :
    Pi.single key (entries.map fun e => e.1 • (grouping read types view).weight e.2).sum =
      (entries.map (entrySums read types view)).sum := by
  induction entries with
  | nil => exact Pi.single_zero _
  | cons entry entries ih =>
    obtain ⟨hentry, h⟩ := List.forall_mem_cons.mp h
    rw [List.map_cons, List.sum_cons, Pi.single_add, ih h, List.map_cons, List.sum_cons, entrySums,
      hentry]

omit [PyFloat F] in
theorem sum_upsertsOf {view : ViewSpec} {l : Ledger F} {groups : Groups F}
    (hmatch : Dict.Match (Values view) l groups)
    (hkeys : ∀ g ∈ l, ∀ entry ∈ g.2,
      sqlKey read types view entry.2 = paramKey read types view g.1) :
    ((upsertsOf read types view groups).map fun p => Pi.single p.1 p.2).sum =
      ledgerSums read types view l := by
  rw [upsertsOf, List.map_map, ledgerSums]
  refine congrArg List.sum (List.Forall₂.map_eq
    ((List.forall₂_and_left _ _).mpr ⟨hkeys, hmatch⟩) ?_).symm
  rintro p q ⟨hp, hkey, hvalues⟩
  rw [Function.comp_apply, ← hkey, numbers_eq read types hvalues]
  exact (single_entries hp).symm

end WalFlux.Aggregates
