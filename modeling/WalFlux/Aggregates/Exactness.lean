import WalFlux.Aggregates.Plan

/-! When the sums a batch emits are exact: at every event, rounding the signed value and then its
sum with the running total changes nothing. -/

namespace WalFlux.Aggregates

open Sql Python

variable {F : Type} [PyFloat F]

/-! ### A batch that follows its ledgers -/

def PlansFor (views : List ViewSpec) (plans : Dict String Plan) : Prop :=
  List.Forall₂ (fun view p => p.1 = view.name ∧ ∃ storage, PlanFor view p.2 storage) views plans

theorem PlansFor.keys {views : List ViewSpec} {plans : Dict String Plan}
    (h : PlansFor views plans) :
    plans.keys = views.map ViewSpec.name :=
  (h.map_eq fun _ _ hp => hp.1.symm).symm

theorem PlansFor.nodup_targets {views : List ViewSpec} {plans : Dict String Plan}
    (h : PlansFor views plans) (hnames : (views.map ViewSpec.name).Nodup) :
    (plans.map fun p => p.2.upsert.target).Nodup := by
  refine List.Nodup.of_map (fun t => t.name.name) ?_
  rw [List.map_map]
  have hname := h.map_eq (f := ViewSpec.name) (g := fun p => p.2.upsert.target.name.name)
    fun view p ⟨_, _, hp⟩ => hp.target_name.symm
  exact hname ▸ hnames

theorem PlansFor.get? {views : List ViewSpec} {plans : Dict String Plan} (h : PlansFor views plans)
    (hnames : (views.map ViewSpec.name).Nodup) {view : ViewSpec} (hview : view ∈ views) :
    ∃ plan storage, Dict.get? plans view.name = some plan ∧ PlanFor view plan storage := by
  obtain ⟨⟨name, plan⟩, hmem, rfl, storage, hp⟩ := h.exists_of_mem_left hview
  exact ⟨plan, storage, Dict.get?_eq_some_of_mem (h.keys ▸ hnames) hmem, hp⟩

/-- The batch has the plans of the views, knows which of them were truncated, and each view's groups
are those of its ledger, with the number types of its storage columns. -/
structure Tracks (views : List ViewSpec) (events : List (RowEvent F)) (b : DeltaBatch F) :
    Prop where
  plans : PlansFor views b.plans
  groups : ∀ view ∈ views,
    Dict.Match (fun _ nums => KindsOf (slots view) nums) (ledger view events) (b.groups view.name)
  truncated : ∀ name, name ∈ b.truncated ↔ .truncate name ∈ events

def Values (view : ViewSpec) (entries : List (ℤ × Row F)) (nums : List Num) : Prop :=
  nums.map Num.toRat = (slots view).map (·.total entries)

def InStep (views : List ViewSpec) (events : List (RowEvent F)) (b : DeltaBatch F) : Prop :=
  ∀ view ∈ views, Dict.Match (Values view) (ledger view events) (b.groups view.name)

theorem init_tracks {views : List ViewSpec} (hnames : (views.map ViewSpec.name).Nodup)
    {b : DeltaBatch F} (h : DeltaBatch.init views = .ok b) :
    Tracks views [] b ∧ InStep views [] b := by
  obtain ⟨items, hitems, h⟩ := Except.bind_eq_ok.mp h
  cases Except.pure_eq_ok.mp h
  have hplans : PlansFor views items := by
    refine (Except.mapM_eq_ok.mp hitems).imp fun view p hp => ?_
    obtain ⟨plan, hplan, hp⟩ := Except.bind_eq_ok.mp hp
    cases Except.pure_eq_ok.mp hp
    exact ⟨rfl, buildPlan_ok hplan⟩
  have hplans' : PlansFor views (Dict.ofList items) := by
    rwa [Dict.ofList_eq (by rw [← Dict.keys, hplans.keys]; exact hnames)]
  have hgroups : ∀ name, DeltaBatch.groups (F := F) ⟨Dict.ofList items,
      (Dict.ofList items).map fun p => (p.1, []), []⟩ name = [] := by
    intro name
    rw [DeltaBatch.groups]
    dsimp only
    rw [Dict.get?_map _ fun _ => ([] : Groups F)]
    cases Dict.get? (Dict.ofList items) name <;> rfl
  refine ⟨⟨hplans', fun view _ => ?_, fun name => by simp⟩, fun view _ => ?_⟩
  · rw [hgroups]
    exact .nil
  · rw [hgroups]
    exact .nil

/-! ### One row event -/

omit [PyFloat F] in
theorem checkNeeded_ok {view : ViewSpec} {row : Row F} {cols : List String}
    (h : ∀ c ∈ cols, ∃ value, Dict.get? row c = some value ∧ value ≠ .unchangedToast) :
    DeltaBatch.checkNeeded view row cols = .ok () := by
  induction cols with
  | nil => rfl
  | cons c cols ih =>
    obtain ⟨⟨value, hv, hne⟩, h⟩ := List.forall_mem_cons.mp h
    rw [DeltaBatch.checkNeeded, hv]
    cases value with
    | unchangedToast => exact absurd rfl hne
    | _ => exact ih h

omit [PyFloat F] in
theorem mapM_index {view : ViewSpec} {row : Row F} (hrow : Fits view row) :
    view.groupBy.mapM (Row.index row) = .ok (groupKey view row) := by
  rw [Except.mapM_eq_ok, groupKey, List.forall₂_map_right_iff, List.forall₂_same]
  intro c hc
  obtain ⟨value, hv, -⟩ := hrow.complete c (List.mem_append_left _ hc)
  exact index_eq hv

def entriesOf (view : ViewSpec) (ledger : Ledger F) (row : Row F) : List (ℤ × Row F) :=
  (Dict.get? ledger (groupKey view row)).getD []

variable {views : List ViewSpec} {events : List (RowEvent F)} {b : DeltaBatch F} {e : RowEvent F}

theorem apply_eq {view : ViewSpec} {plan : Plan} {storage : List Storage}
    (hp : PlanFor view plan storage) (hplan : Dict.get? b.plans view.name = some plan) {row : Row F}
    (hrow : Fits view row) (sign : ℤ) :
    b.apply view.name row sign =
      (DeltaBatch.addRow view row sign
        ((Dict.get? (b.groups view.name) (groupKey view row)).getD plan.zeros)).map fun group =>
      { b with deltas := b.deltas.set view.name
                ((b.groups view.name).set (groupKey view row) group) } := by
  have hneed : DeltaBatch.checkNeeded view row plan.needed = .ok () := by
    refine checkNeeded_ok fun c hc => hrow.complete c ?_
    rwa [hp.needed_eq, List.mem_eraseDups] at hc
  rw [DeltaBatch.apply, DeltaBatch.plan, hplan]
  simp only [bind, Except.bind, hp.view_eq, hneed, mapM_index hrow]
  cases DeltaBatch.addRow view row sign _ <;> rfl

omit [PyFloat F] in
theorem groups_set (b : DeltaBatch F) (name name' : String) (groups : Groups F) :
    DeltaBatch.groups { b with deltas := b.deltas.set name groups } name' =
      if name = name' then groups else b.groups name' := by
  rw [DeltaBatch.groups, Dict.get?_set]
  split_ifs <;> rfl

theorem ledger_row {view : ViewSpec} (hname : view.name = e.view) {sign : ℤ} {row : Row F}
    (he : e.entry = some (sign, row)) :
    ledger view (events ++ [e]) = (ledger view events).set (groupKey view row)
      (entriesOf view (ledger view events) row ++ [(sign, row)]) := by
  rw [ledger_append, ledgerStep, if_pos hname.symm, he]
  exact Dict.push_eq_set _ _ _

theorem ledger_truncate {view : ViewSpec} (hname : view.name = e.view) (he : e.entry = none) :
    ledger view (events ++ [e]) = if view.groupBy ≠ [] then [] else [([], [])] := by
  rw [ledger_append, ledgerStep, if_pos hname.symm, he]

theorem ledger_other {view : ViewSpec} (hname : view.name ≠ e.view) :
    ledger view (events ++ [e]) = ledger view events := by
  rw [ledger_append, ledgerStep, if_neg hname.symm]

theorem eq_of_name_eq (hnames : (views.map ViewSpec.name).Nodup) {view view' : ViewSpec}
    (hview : view ∈ views) (hview' : view' ∈ views) (h : view.name = view'.name) : view = view' :=
  List.inj_on_of_nodup_map hnames hview hview' h

theorem forall_match_step {R : ViewSpec → List (ℤ × Row F) → List Num → Prop}
    (hnames : (views.map ViewSpec.name).Nodup) {view : ViewSpec} (hview : view ∈ views)
    (hname : view.name = e.view) {groups : Groups F}
    (h : ∀ v ∈ views, Dict.Match (R v) (ledger v events) (b.groups v.name))
    (hmatch : Dict.Match (R view) (ledger view (events ++ [e])) groups) {truncated : List String} :
    ∀ v ∈ views, Dict.Match (R v) (ledger v (events ++ [e]))
      (DeltaBatch.groups ⟨b.plans, b.deltas.set view.name groups, truncated⟩ v.name) := by
  intro v hv
  have hset := groups_set b view.name v.name groups
  rw [DeltaBatch.groups] at hset ⊢
  rw [hset]
  split_ifs with hvn
  · rwa [← eq_of_name_eq hnames hview hv hvn]
  · rw [ledger_other (hname ▸ Ne.symm hvn)]
    exact h v hv

/-- Where the sums were exact so far, they are exact after one more row if and only if none of the
group's slots is rounded by it; otherwise the fold may also stop on an overflow. -/
theorem step_row (hnames : (views.map ViewSpec.name).Nodup) (ht : Tracks views events b)
    (hs : InStep views events b) {view : ViewSpec} (hview : view ∈ views)
    (hname : view.name = e.view) {sign : ℤ} {row : Row F} (he : e.entry = some (sign, row))
    (hrow : Fits view row) :
    match b.applyEvent e with
    | .ok b' => Tracks views (events ++ [e]) b' ∧ (InStep views (events ++ [e]) b' ↔
        SlotsExact (slots view) (entriesOf view (ledger view events) row) sign row)
    | .error _ => ¬ SlotsExact (slots view) (entriesOf view (ledger view events) row) sign row := by
  obtain ⟨plan, storage, hplan, hp⟩ := ht.plans.get? hnames hview
  -- a group that is not there yet counts from zero on both sides
  rw [applyEvent_row b he, ← hname, apply_eq hp hplan hrow]
  have hkinds := (ht.groups view hview).getD (groupKey view row) (v := []) hp.kinds_zeros
  have hvals := (hs view hview).getD (groupKey view row) (v := []) (w := plan.zeros) hp.toRat_zeros
  have hcomp := addRow_computes hrow sign (viewStorage_isOk hp.storage_ok) hkinds
  have hiff := addSlots_totals_iff (slots view) (entriesOf view (ledger view events) row) sign row
  rw [Values] at hvals
  rw [hvals] at hcomp
  change Computes _ _ (addSlots row sign (slots view)
    ((slots view).map (·.total (entriesOf view (ledger view events) row)))) at hcomp
  cases hadd : DeltaBatch.addRow view row sign
    ((Dict.get? (b.groups view.name) (groupKey view row)).getD plan.zeros) with
  | error err =>
    rw [hadd] at hcomp
    simp only [Computes] at hcomp
    rw [hcomp] at hiff
    simpa [Except.map] using hiff
  | ok group =>
    rw [hadd] at hcomp
    obtain ⟨hgroup, hvalue⟩ := hcomp
    refine ⟨⟨ht.plans, forall_match_step hnames hview hname ht.groups ?_, fun name => ?_⟩, ?_, ?_⟩
    · rw [ledger_row hname he]
      exact (ht.groups view hview).set _ hgroup
    · rw [List.mem_append, List.mem_singleton, ← ht.truncated, or_iff_left]
      rintro rfl
      cases he
    -- read off the entry of this group, and put it back for the converse
    · intro h
      have hmatch := h view hview
      rw [ledger_row hname he, groups_set, if_pos rfl] at hmatch
      rw [← hiff, hvalue, Option.some.injEq]
      exact (hs view hview).of_set _ hmatch
    · intro h
      rw [← hiff, hvalue, Option.some.injEq] at h
      refine forall_match_step hnames hview hname hs ?_
      rw [ledger_row hname he]
      exact (hs view hview).set _ h

theorem step_truncate (hnames : (views.map ViewSpec.name).Nodup) (ht : Tracks views events b)
    {view : ViewSpec} (hview : view ∈ views) (hname : view.name = e.view) (he : e.entry = none) :
    ∃ b', b.applyEvent e = .ok b' ∧ Tracks views (events ++ [e]) b' ∧
      (InStep views events b → InStep views (events ++ [e]) b') := by
  obtain ⟨plan, storage, hplan, hp⟩ := ht.plans.get? hnames hview
  rw [applyEvent_truncate b he, ← hname, DeltaBatch.applyTruncate, DeltaBatch.plan, hplan]
  refine ⟨_, rfl, ⟨ht.plans, forall_match_step hnames hview hname ht.groups ?_, fun name => ?_⟩,
    fun hs => forall_match_step hnames hview hname hs ?_⟩
  · rw [ledger_truncate hname he, hp.view_eq]
    split_ifs
    · exact .nil
    · exact .cons ⟨rfl, hp.kinds_zeros⟩ .nil
  · have htrunc : e = .truncate view.name := by
      cases e with
      | truncate name => exact congrArg _ hname.symm
      | insert => cases he
      | delete => cases he
    rw [htrunc, List.mem_append, List.mem_singleton, ← ht.truncated, List.mem_insert_iff,
      RowEvent.truncate.injEq, or_comm]
  · rw [ledger_truncate hname he, hp.view_eq]
    split_ifs
    · exact .nil
    · exact .cons ⟨rfl, hp.toRat_zeros⟩ .nil

/-! ### What the statements carry -/

theorem ledger_key_length (view : ViewSpec) (events : List (RowEvent F)) :
    ∀ g ∈ ledger view events, g.1.length = view.groupBy.length := by
  induction events using List.reverseRecOn with
  | nil => exact nofun
  | append_singleton events e ih =>
    by_cases hname : view.name = e.view
    · rw [ledger_append, ledgerStep, if_pos hname.symm]
      cases e.entry with
      | some entry =>
        exact Dict.forall_key_push (P := fun k : List (Value F) =>
          k.length = view.groupBy.length) _ ih
          (List.length_map _)
      | none =>
        split_ifs with hg
        · exact nofun
        · rw [not_not] at hg
          simp [hg]
    · rwa [ledger_other hname]

theorem Tracks.key_length (h : Tracks views events b) {view : ViewSpec} (hview : view ∈ views) :
    ∀ g ∈ b.groups view.name, g.1.length = view.groupBy.length := by
  intro g hg
  obtain ⟨g', hg', hkey, -⟩ := (h.groups view hview).exists_of_mem_right hg
  rw [← hkey]
  exact ledger_key_length view events g' hg'

def emittedDeltas : Dml F → Option (String × List (Value F) × List ℚ)
  | .upsert sql params => some (sql.target.name.name, params.take sql.conflict.length,
      (params.drop sql.conflict.length).map fun v => (numberOf v).getD 0)
  | _ => none

omit [PyFloat F] in
theorem numberOf_toValue (n : Num) : numberOf (n.toValue : Value F) = some n.toRat := by
  cases n <;> rfl

omit [PyFloat F] in
theorem emittedDeltas_upsert {view : ViewSpec} {plan : Plan} {storage : List Storage}
    (hp : PlanFor view plan storage) {key : List (Value F)}
    (hkey : key.length = view.groupBy.length) (nums : List Num) :
    emittedDeltas (.upsert plan.upsert
      (DeltaBatch.keyPrefix plan.view ++ key ++ nums.map Num.toValue)) =
      some (view.name, DeltaBatch.keyPrefix view ++ key, nums.map Num.toRat) := by
  rw [emittedDeltas, hp.target_name, hp.view_eq, ← hp.length_keyParams hkey, List.take_left,
    List.drop_left, List.map_map]
  simp only [Function.comp_def, numberOf_toValue, Option.getD_some]

def exactUpserts (views : List ViewSpec) (events : List (RowEvent F)) :
    List (String × List (Value F) × List ℚ) :=
  views.flatMap fun view => (ledger view events).map fun g =>
    (view.name, DeltaBatch.keyPrefix view ++ g.1, (slots view).map (·.total g.2))

theorem Tracks.emitted (h : Tracks views events b) :
    b.statements.filterMap emittedDeltas = views.flatMap fun view =>
      (b.groups view.name).map fun g =>
      (view.name, DeltaBatch.keyPrefix view ++ g.1, g.2.map Num.toRat) := by
  have hdelete : b.deleteStatements.filterMap emittedDeltas = [] := by
    rw [List.filterMap_eq_nil_iff]
    intro s hs
    obtain ⟨p, -, hp⟩ := List.mem_flatMap.mp hs
    split_ifs at hp
    · rw [List.mem_singleton.mp hp]
      rfl
    · cases hp
  have hcleanup : b.cleanupStatements.filterMap emittedDeltas = [] := by
    rw [List.filterMap_eq_nil_iff]
    intro s hs
    obtain ⟨p, -, hp⟩ := List.mem_flatMap.mp hs
    split_ifs at hp
    · rw [List.mem_singleton.mp hp]
      rfl
    · cases hp
  rw [DeltaBatch.statements, List.filterMap_append, List.filterMap_append, hdelete, hcleanup,
    List.append_nil, List.nil_append, DeltaBatch.upsertStatements, List.filterMap_flatMap,
    List.flatMap_def, List.flatMap_def]
  refine congrArg List.flatten (List.Forall₂.map_eq
    ((List.forall₂_and_left _ _).mpr ⟨fun view hview => h.key_length hview, h.plans⟩) ?_).symm
  rintro view ⟨name, plan⟩ ⟨hkey, rfl, storage, hp⟩
  rw [List.filterMap_map, eq_comm, List.filterMap_eq_map_iff_forall_eq_some]
  exact fun g hg => emittedDeltas_upsert hp (hkey g hg) g.2

/-- Every delta of every upsert is the exact signed sum over its group's events. -/
def ExactAfter (views : List ViewSpec) (events : List (RowEvent F)) : Prop :=
  ∃ b, foldEvents views events = .ok b ∧
    b.statements.filterMap emittedDeltas = exactUpserts views events

theorem Tracks.emitted_iff (h : Tracks views events b) :
    b.statements.filterMap emittedDeltas = exactUpserts views events ↔ InStep views events b := by
  rw [h.emitted, exactUpserts, eq_comm, List.flatMap_eq_iff]
  · refine forall₂_congr fun view _ => ?_
    rw [List.Forall₂.map_eq_iff]
    refine Iff.of_eq (congrArg (fun R => List.Forall₂ R _ _) ?_)
    funext p q
    simp [Values, eq_comm]
  · intro view hview
    rw [List.length_map, List.length_map, (h.groups view hview).length_eq]

/-! ### The rounding condition -/

/-- The event's signed value, and then its sum with the exact running total of its group, are
rounded to themselves. -/
def RoundsNothing (view : ViewSpec) (ledger : Ledger F) (e : RowEvent F) : Prop :=
  view.name = e.view → ∀ sign row, e.entry = some (sign, row) → ∀ c, Slot.sum c ∈ slots view →
    let total := (Slot.sum c).total (entriesOf view ledger row)
    let x := sign * (Slot.sum c).value row
    roundedAdd total x = some (total + x)

def NotRounded (views : List ViewSpec) (events : List (RowEvent F)) : Prop :=
  ∀ p e, p ++ [e] <+: events → ∀ view ∈ views, RoundsNothing view (ledger view p) e

omit [PyFloat F] in
theorem slotsExact_iff (slots : List Slot) (entries : List (ℤ × Row F)) (sign : ℤ) (row : Row F) :
    SlotsExact slots entries sign row ↔ ∀ c, Slot.sum c ∈ slots →
      roundedAdd ((Slot.sum c).total entries) (sign * (Slot.sum c).value row) =
        some ((Slot.sum c).total entries + sign * (Slot.sum c).value row) := by
  constructor
  · intro h c hc
    simpa [Slot.add, Slot.isSum] using h _ hc
  · intro h slot hslot
    cases slot with
    | sum c => simpa [Slot.add, Slot.isSum] using h c hslot
    | rows => rfl
    | count c => rfl
    | nonNull c => rfl

def Good (views : List ViewSpec) (events : List (RowEvent F)) : Prop :=
  ∃ b, foldEvents views events = .ok b ∧ Tracks views events b ∧ InStep views events b

theorem foldEvents_append (views : List ViewSpec) (events : List (RowEvent F)) (e : RowEvent F) :
    foldEvents views (events ++ [e]) = foldEvents views events >>= fun b => b.applyEvent e := by
  rw [foldEvents, foldEvents, bind_assoc]
  refine bind_congr fun b => ?_
  rw [List.foldlM_append]
  refine bind_congr fun b => ?_
  simp only [List.foldlM_cons, List.foldlM_nil, bind_pure]

theorem Good.exactAfter (h : Good views events) : ExactAfter views events := by
  obtain ⟨b, hb, ht, hs⟩ := h
  exact ⟨b, hb, ht.emitted_iff.mpr hs⟩

theorem Good.step (hnames : (views.map ViewSpec.name).Nodup) (h : Good views events)
    (he : Feeds views e) :
    (ExactAfter views (events ++ [e]) → Good views (events ++ [e])) ∧
    (Good views (events ++ [e]) ↔ ∀ view ∈ views, RoundsNothing view (ledger view events) e) := by
  obtain ⟨b, hb, ht, hs⟩ := h
  obtain ⟨view, hview, hname, hrow⟩ := he
  have hfold : foldEvents views (events ++ [e]) = b.applyEvent e := by
    rw [foldEvents_append, hb]
    rfl
  have hrounds : (∀ v ∈ views, RoundsNothing v (ledger v events) e) ↔
      ∀ sign row, e.entry = some (sign, row) →
        SlotsExact (slots view) (entriesOf view (ledger view events) row) sign row := by
    simp only [slotsExact_iff]
    constructor
    · exact fun h sign row => h view hview hname sign row
    · intro h v hv hvn
      rw [eq_of_name_eq hnames hv hview (hvn.trans hname.symm)]
      exact h
  rw [hrounds]
  simp only [ExactAfter, Good, hfold]
  cases hentry : e.entry with
  | none =>
    obtain ⟨b', hb', ht', hs'⟩ := step_truncate hnames ht hview hname hentry
    exact ⟨fun _ => ⟨b', hb', ht', hs' hs⟩, fun _ => nofun, fun _ => ⟨b', hb', ht', hs' hs⟩⟩
  | some entry =>
    obtain ⟨sign, row⟩ := entry
    have hstep := step_row hnames ht hs hview hname hentry (hrow sign row hentry)
    cases happ : b.applyEvent e with
    | error err =>
      rw [happ] at hstep
      exact ⟨nofun, nofun, fun h => absurd (h sign row rfl) hstep⟩
    | ok b' =>
      rw [happ] at hstep
      obtain ⟨ht', hiff⟩ := hstep
      refine ⟨?_, ?_, fun h => ⟨b', rfl, ht', hiff.mpr (h sign row rfl)⟩⟩
      · rintro ⟨_, ⟨⟩, hexact⟩
        exact ⟨b', rfl, ht', ht'.emitted_iff.mp hexact⟩
      · rintro ⟨_, ⟨⟩, -, hs'⟩ _ _ ⟨⟩
        exact hiff.mp hs'

theorem notRounded_append {e : RowEvent F} : NotRounded views (events ++ [e]) ↔
    NotRounded views events ∧ ∀ view ∈ views, RoundsNothing view (ledger view events) e := by
  constructor
  · exact fun h => ⟨fun p e' hp => h p e' (hp.trans (List.prefix_append _ _)),
      h events e List.prefix_rfl⟩
  · rintro ⟨h, he⟩ p e' hp
    rcases List.prefix_concat_iff.mp hp with heq | hp
    · obtain ⟨rfl, hlast⟩ := List.append_inj' heq rfl
      cases hlast
      exact he
    · exact h p e' hp

theorem good_nil (hnames : (views.map ViewSpec.name).Nodup)
    (hinit : ∃ b : DeltaBatch F, DeltaBatch.init views = .ok b) :
    Good views ([] : List (RowEvent F)) := by
  obtain ⟨b, hb⟩ := hinit
  obtain ⟨ht, hs⟩ := init_tracks hnames hb
  exact ⟨b, by rw [foldEvents, hb]; rfl, ht, hs⟩

theorem good_iff (hnames : (views.map ViewSpec.name).Nodup)
    (hinit : ∃ b : DeltaBatch F, DeltaBatch.init views = .ok b)
    (hfeeds : ∀ e ∈ events, Feeds views e) (h : NotRounded views events) : Good views events := by
  induction events using List.reverseRecOn with
  | nil => exact good_nil hnames hinit
  | append_singleton events e ih =>
    obtain ⟨h, he⟩ := notRounded_append.mp h
    have hgood := ih (fun e he => hfeeds e (List.mem_append_left _ he)) h
    exact (hgood.step hnames (hfeeds e (by simp))).2.mpr he

def Representable (q : ℚ) : Prop :=
  ∃ d : Decimal, d.toRat = q ∧ d.coeff.natAbs < 10 ^ defaultContext.prec ∧
    defaultContext.etiny ≤ d.exp ∧ d.exp ≤ defaultContext.etop

theorem Representable.round_eq {q : ℚ} (h : Representable q) : defaultContext.round q = some q := by
  obtain ⟨d, rfl, hc, hlo, hhi⟩ := h
  exact Decimal.round_toRat _ d hc hlo hhi

theorem roundsNothing_of_representable {view : ViewSpec} {ledger : Ledger F}
    (h : ∀ sign row, e.entry = some (sign, row) → ∀ c, Slot.sum c ∈ slots view →
      Representable (sign * (Slot.sum c).value row) ∧
      Representable ((Slot.sum c).total (entriesOf view ledger row) + sign *
        (Slot.sum c).value row)) :
    RoundsNothing view ledger e := by
  intro _ sign row he c hc
  obtain ⟨hx, htotal⟩ := h sign row he c hc
  simp only [roundedAdd]
  rw [hx.round_eq, Option.bind_some, htotal.round_eq]

/-- The emitted deltas are the exact signed sums after every event of a run, if and only if no event
of the run is rounded. -/
theorem exactAfter_iff (hnames : (views.map ViewSpec.name).Nodup)
    (hinit : ∃ b : DeltaBatch F, DeltaBatch.init views = .ok b)
    (hfeeds : ∀ e ∈ events, Feeds views e) :
    (∀ p, p <+: events → ExactAfter views p) ↔ NotRounded views events := by
  induction events using List.reverseRecOn with
  | nil =>
    refine ⟨fun _ p e hp => absurd (List.prefix_nil.mp hp) (by simp), fun _ p hp => ?_⟩
    rw [List.prefix_nil.mp hp]
    exact (good_nil hnames hinit).exactAfter
  | append_singleton events e ih =>
    have hfeeds' := fun e he => hfeeds e (List.mem_append_left _ he)
    have ih := ih hfeeds'
    have hstep := fun h : NotRounded views events =>
      (good_iff hnames hinit hfeeds' h).step hnames (hfeeds e (by simp))
    rw [notRounded_append]
    constructor
    · intro h
      have hold := ih.mp fun p hp => h p (hp.trans (List.prefix_append _ _))
      exact ⟨hold, (hstep hold).2.mp ((hstep hold).1 (h _ List.prefix_rfl))⟩
    · rintro ⟨hold, he⟩ p hp
      rcases List.prefix_concat_iff.mp hp with rfl | hp
      · exact ((hstep hold).2.mpr he).exactAfter
      · exact ih.mpr hold p hp

/-! ### Samples -/

instance : PyFloat Empty := ⟨fun _ => none, nofun, nofun⟩

def sampleView : ViewSpec :=
  ⟨"order_totals", "public", "orders", ["status"], [⟨.sum, some "amount", "revenue"⟩]⟩

def sampleRow (coeff exp : ℤ) : Row Empty :=
  [("status", .str "open"), ("amount", .decimal (.finite ⟨coeff, exp⟩))]

theorem sampleRow_fits (coeff exp : ℤ) : Fits sampleView (sampleRow coeff exp) where
  complete := by simp [sampleView, sampleRow, Dict.get?]
  finite := by simp [sampleView, sampleRow, Row.value, Dict.get?, numberOf]

theorem sampleView_init : ∃ b : DeltaBatch Empty, DeltaBatch.init [sampleView] = .ok b :=
  Except.exists_of_isOk (by decide +kernel)

theorem feeds_insert (coeff exp : ℤ) :
    Feeds [sampleView] (.insert "order_totals" (sampleRow coeff exp)) := by
  refine ⟨sampleView, List.mem_singleton_self _, rfl, ?_⟩
  rintro sign row ⟨⟩
  exact sampleRow_fits coeff exp

theorem feeds_delete (coeff exp : ℤ) :
    Feeds [sampleView] (.delete "order_totals" (sampleRow coeff exp)) := by
  refine ⟨sampleView, List.mem_singleton_self _, rfl, ?_⟩
  rintro sign row ⟨⟩
  exact sampleRow_fits coeff exp

theorem exactAfter_iff_tenths :
    let events := [RowEvent.insert "order_totals" (sampleRow 1 (-1)),
      .insert "order_totals" (sampleRow 2 (-1))]
    (∀ p, p <+: events → ExactAfter [sampleView] p) ↔ NotRounded [sampleView] events :=
  exactAfter_iff (by simp) sampleView_init
    (by simp only [List.forall_mem_cons, feeds_insert, true_and]; exact nofun)

/-- The sum of 10^28 and 1 has 29 digits; the batch emits 10^28. -/
theorem exactAfter_fails :
    let events := [RowEvent.insert "order_totals" (sampleRow (10 ^ 28) 0),
      .insert "order_totals" (sampleRow 1 0)]
    (∀ e ∈ events, Feeds [sampleView] e) ∧ ¬ ExactAfter [sampleView] events := by
  refine ⟨?_, ?_⟩
  · simp only [List.forall_mem_cons, feeds_insert, true_and]
    exact nofun
  · rintro ⟨b, hb, hexact⟩
    have hrun : (foldEvents [sampleView] [RowEvent.insert "order_totals" (sampleRow (10 ^ 28) 0),
        .insert "order_totals" (sampleRow 1 0)]).map (·.statements.filterMap emittedDeltas) =
        .ok [("order_totals", [Value.str "open"], [2, 10 ^ 28, 2])] := by decide +kernel
    rw [hb] at hrun
    have hemit : b.statements.filterMap emittedDeltas = _ := Except.ok.inj hrun
    rw [hexact] at hemit
    revert hemit
    decide +kernel

end WalFlux.Aggregates
