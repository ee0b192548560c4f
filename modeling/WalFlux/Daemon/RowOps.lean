import WalFlux.Bootstrap
import WalFlux.Daemon.Transactions

/-! The ops of a row message against the views they are for: one op for each view on the table, with
row images that have every column the view reads. -/

namespace WalFlux

open Aggregates Protocol Python

variable {F : Type}

namespace Aggregates

def Op.view : Op F → String
  | .insert view _ => view
  | .update view _ _ => view
  | .delete view _ => view
  | .truncate view => view

def Op.rows : Op F → List (Row F)
  | .insert _ new => [new]
  | .update _ old new => [old, new]
  | .delete _ old => [old]
  | .truncate _ => []

end Aggregates

namespace Daemon

/-! ### Decoded rows -/

def cellOf : List Column → TupleData → String → Option (Column × ColumnValue)
  | column :: columns, value :: data, name =>
    (cellOf columns data name).or (if column.name = name then some (column, value) else none)
  | _, _, _ => none

variable [PyFloat F]

/-- A row holds, under the name of each column, the decoded value of the last column of
that name. -/
structure RowOf (columns : List Column) (data : TupleData) (row : Row F) : Prop where
  length_eq : columns.length = data.length
  get?_eq : ∀ name,
    (cellOf columns data name = none ∧ Dict.get? row name = none) ∨
      ∃ column cell value, cellOf columns data name = some (column, cell) ∧
        decodeCell column cell = .ok value ∧ Dict.get? row name = some value

theorem go_ok {columns : List Column} {data : TupleData} {row row' : Row F}
    (h : decodeRow.go columns data row = .ok row') : columns.length = data.length ∧ ∀ name,
      (cellOf columns data name = none ∧ Dict.get? row' name = Dict.get? row name) ∨
        ∃ column cell value, cellOf columns data name = some (column, cell) ∧
          decodeCell column cell = .ok value ∧ Dict.get? row' name = some value := by
  induction columns generalizing data row with
  | nil =>
    cases data with
    | nil =>
      cases h
      exact ⟨rfl, fun name => .inl ⟨rfl, rfl⟩⟩
    | cons value data => cases h
  | cons column columns ih =>
    cases data with
    | nil => cases h
    | cons cell data =>
      obtain ⟨value, hvalue, h⟩ := Except.bind_eq_ok.mp h
      obtain ⟨hlen, hcells⟩ := ih h
      refine ⟨congrArg (· + 1) hlen, fun name => ?_⟩
      rw [cellOf]
      obtain ⟨hnone, hget⟩ | ⟨column', cell', value', hsome, hdecode, hget⟩ := hcells name
      · rw [hnone, Option.none_or, hget, Dict.get?_set]
        split_ifs with hname
        · exact .inr ⟨column, cell, value, rfl, hvalue, rfl⟩
        · exact .inl ⟨rfl, rfl⟩
      · rw [hsome, Option.some_or]
        exact .inr ⟨column', cell', value', rfl, hdecode, hget⟩

theorem decodeRow_ok {columns : List Column} {data : TupleData} {row : Row F}
    (h : decodeRow columns data = .ok row) : RowOf columns data row := by
  obtain ⟨hlen, hcells⟩ := go_ok h
  exact ⟨hlen, hcells⟩

theorem cellOf_isSome {columns : List Column} {data : TupleData}
    (hlen : columns.length = data.length) {name : String} (h : name ∈ columns.map Column.name) :
    (cellOf columns data name).isSome := by
  induction columns generalizing data with
  | nil => cases h
  | cons column columns ih =>
    cases data with
    | nil => cases hlen
    | cons value data =>
      rw [cellOf, Option.isSome_or, Bool.or_eq_true]
      rcases List.mem_cons.mp h with h | h
      · rw [if_pos h.symm]
        exact .inr rfl
      · exact .inl (ih (Nat.succ.inj hlen) h)

theorem RowOf.isSome {columns : List Column} {data : TupleData} {row : Row F}
    (h : RowOf columns data row) {name : String} (hname : name ∈ columns.map Column.name) :
    (Dict.get? row name).isSome := by
  have hcell := cellOf_isSome h.length_eq hname
  obtain ⟨hnone, -⟩ | ⟨_, _, _, _, _, hget⟩ := h.get?_eq name
  · rw [hnone] at hcell
    cases hcell
  · rw [hget]
    rfl

omit [PyFloat F] in
theorem isSome_get?_congr {row row' : Row F} (h : Dict.keys row' = Dict.keys row) (name : String) :
    (Dict.get? row' name).isSome = (Dict.get? row name).isSome := by
  rw [Bool.eq_iff_iff, Option.isSome_iff_ne_none, Option.isSome_iff_ne_none, ne_eq, ne_eq,
    Dict.get?_eq_none_iff, Dict.get?_eq_none_iff, h]

omit [PyFloat F] in
theorem keys_fillUnchanged {old new new' : Row F} (h : fillUnchanged old new = .ok new') :
    Dict.keys new' = Dict.keys new := by
  refine ((Except.mapM_eq_ok.mp h).map_eq fun p q hpq => ?_).symm
  cases hp : p.2 with
  | unchangedToast =>
    simp only [hp] at hpq
    obtain ⟨value, -, hpq⟩ := Except.bind_eq_ok.mp hpq
    rw [← Except.pure_eq_ok.mp hpq]
  | _ =>
    simp only [hp] at hpq
    rw [← Except.pure_eq_ok.mp hpq]

/-! ### One row message -/

def rowId : Message → Option ℕ
  | .insert m => some m.relId
  | .update m => some m.relId
  | .delete m => some m.relId
  | _ => none

/-- The ops of a message about a row of a configured table, as the columns of `rel` decode it. -/
inductive OpsOf (config : Config) (rel : Relation) : Message → List (Op F) → Prop
  | insert {m : Insert} {row : Row F} (hrow : decodeRow rel.columns m.new = .ok row) :
      OpsOf config rel (.insert m) ((viewsOf config rel).map fun v => .insert v.name row)
  | update {m : Update} {data : TupleData} {old new new' : Row F} (hdata : m.old = some data)
      (hold : decodeRow rel.columns data = .ok old) (hnew : decodeRow rel.columns m.new = .ok new)
      (hfill : fillUnchanged old new = .ok new') :
      OpsOf config rel (.update m) ((viewsOf config rel).map fun v => .update v.name old new')
  | delete {m : Delete} {data : TupleData} {row : Row F} (hdata : m.old = some data)
      (hrow : decodeRow rel.columns data = .ok row) :
      OpsOf config rel (.delete m) ((viewsOf config rel).map fun v => .delete v.name row)

omit [PyFloat F] in
theorem lookup_ok {config : Config} {a : Assembly F} {id : ℕ} {ops : List (Op F)}
    (body : Relation → Except Error (List (Op F)))
    (h : (relationOf a id >>= fun rel => if viewsOf config rel = [] then .ok [] else body rel) =
      .ok ops) : ∃ rel, Dict.get? a.relations id = some rel ∧
        ((viewsOf config rel = [] ∧ ops = []) ∨ (viewsOf config rel ≠ [] ∧
          body rel = .ok ops)) := by
  obtain ⟨rel, hrel, h⟩ := Except.bind_eq_ok.mp h
  unfold relationOf at hrel
  cases hget : Dict.get? a.relations id with
  | none =>
    rw [hget] at hrel
    cases hrel
  | some r =>
    rw [hget] at hrel
    cases hrel
    refine ⟨rel, rfl, ?_⟩
    split_ifs at h with hviews
    · exact .inl ⟨hviews, (Except.ok.inj h).symm⟩
    · exact .inr ⟨hviews, h⟩

theorem rowOps_ok {config : Config} {a : Assembly F} {m : Message} {ops : List (Op F)}
    (h : rowOps config a m = .ok ops) {id : ℕ} (hid : rowId m = some id) :
    ∃ rel, Dict.get? a.relations id = some rel ∧
      ((viewsOf config rel = [] ∧ ops = []) ∨
        (viewsOf config rel ≠ [] ∧ OpsOf config rel m ops)) := by
  cases m with
  | insert m =>
    cases hid
    change insertOps config a m = .ok ops at h
    unfold insertOps at h
    obtain ⟨rel, hrel, hops⟩ := lookup_ok _ h
    refine ⟨rel, hrel, hops.imp_right fun ⟨hviews, hops⟩ => ⟨hviews, ?_⟩⟩
    obtain ⟨row, hrow, hops⟩ := Except.bind_eq_ok.mp hops
    cases Except.pure_eq_ok.mp hops
    exact .insert hrow
  | update m =>
    cases hid
    change updateOps config a m = .ok ops at h
    unfold updateOps at h
    obtain ⟨rel, hrel, hops⟩ := lookup_ok _ h
    refine ⟨rel, hrel, hops.imp_right fun ⟨hviews, hops⟩ => ⟨hviews, ?_⟩⟩
    cases hdata : m.old with
    | none =>
      rw [hdata] at hops
      cases hops
    | some data =>
      rw [hdata] at hops
      obtain ⟨old, hold, hops⟩ := Except.bind_eq_ok.mp hops
      obtain ⟨new, hnew, hops⟩ := Except.bind_eq_ok.mp hops
      obtain ⟨new', hfill, hops⟩ := Except.bind_eq_ok.mp hops
      cases Except.pure_eq_ok.mp hops
      exact .update hdata hold hnew hfill
  | delete m =>
    cases hid
    change deleteOps config a m = .ok ops at h
    unfold deleteOps at h
    obtain ⟨rel, hrel, hops⟩ := lookup_ok _ h
    refine ⟨rel, hrel, hops.imp_right fun ⟨hviews, hops⟩ => ⟨hviews, ?_⟩⟩
    cases hdata : m.old with
    | none =>
      rw [hdata] at hops
      cases hops
    | some data =>
      rw [hdata] at hops
      obtain ⟨row, hrow, hops⟩ := Except.bind_eq_ok.mp hops
      cases Except.pure_eq_ok.mp hops
      exact .delete hdata hrow
  | _ => cases hid

structure OpFor (view : ViewSpec) (op : Op F) : Prop where
  view_eq : op.view = view.name
  complete : ∀ row ∈ op.rows, ∀ c ∈ requiredColumns view, (Dict.get? row c).isSome

theorem missingColumns_eq_nil {view : ViewSpec} {available : List String} :
    missingColumns view available = [] ↔ ∀ c ∈ requiredColumns view, c ∈ available := by
  have hperm := List.perm_insertionSort (· ≤ ·) ((requiredColumns view).filter fun c =>
    c ∉ available)
  rw [missingColumns]
  constructor
  · intro h
    rw [h] at hperm
    have hnil := List.filter_eq_nil_iff.mp hperm.symm.eq_nil
    intro c hc
    simpa using hnil c hc
  · intro h
    rw [List.filter_eq_nil_iff.mpr (by simpa using h), List.insertionSort_nil]

theorem OpsOf.opFor {config : Config} {rel : Relation} {m : Message} {ops : List (Op F)}
    (h : OpsOf config rel m ops)
    (hcols : ∀ view ∈ viewsOf config rel, missingColumns view (rel.columns.map Column.name) = []) :
    List.Forall₂ OpFor (viewsOf config rel) ops := by
  have hcomplete {data : TupleData} {row : Row F} (hrow : decodeRow rel.columns data = .ok row)
      {view : ViewSpec} (hview : view ∈ viewsOf config rel) :
      ∀ c ∈ requiredColumns view, (Dict.get? row c).isSome := fun c hc =>
    (decodeRow_ok hrow).isSome (missingColumns_eq_nil.mp (hcols view hview) c hc)
  have hmap (f : ViewSpec → Op F) (hf : ∀ view ∈ viewsOf config rel, OpFor view (f view)) :
      List.Forall₂ OpFor (viewsOf config rel) ((viewsOf config rel).map f) := by
    rwa [List.forall₂_map_right_iff, List.forall₂_same]
  cases h with
  | insert hrow =>
    exact hmap _ fun view hview => ⟨rfl, List.forall_mem_singleton.mpr (hcomplete hrow hview)⟩
  | delete hdata hrow =>
    exact hmap _ fun view hview => ⟨rfl, List.forall_mem_singleton.mpr (hcomplete hrow hview)⟩
  | update hdata hold hnew hfill =>
    refine hmap _ fun view hview => ⟨rfl, List.forall_mem_cons.mpr ⟨hcomplete hold hview,
      List.forall_mem_singleton.mpr fun c hc => ?_⟩⟩
    -- the fill changes values only, so the new image has its columns still
    rw [isSome_get?_congr (keys_fillUnchanged hfill)]
    exact hcomplete hnew hview c hc

/-! ### Every op the loop makes -/

def Fitting (config : Config) (op : Op F) : Prop := ∃ view ∈ config.views, OpFor view op

theorem rowOps_fitting {config : Config} {ms : List Message} {a : Assembly F}
    (ha : Recorded config ms a) {m : Message} {ops : List (Op F)}
    (h : rowOps config a m = .ok ops) :
    ∀ op ∈ ops, Fitting config op := by
  intro op hop
  cases hid : rowId m with
  | none =>
    cases m with
    | truncate t =>
      cases h
      obtain ⟨id, -, hop⟩ := List.mem_flatMap.mp hop
      cases hrel : Dict.get? a.relations id with
      | none =>
        rw [hrel] at hop
        cases hop
      | some rel =>
        rw [hrel] at hop
        obtain ⟨view, hview, rfl⟩ := List.mem_map.mp hop
        exact ⟨view, (mem_viewsOf.mp hview).1, rfl, fun row hrow => (by cases hrow)⟩
    | insert m => cases hid
    | update m => cases hid
    | delete m => cases hid
    | _ =>
      cases h
      cases hop
  | some id =>
    obtain ⟨rel, hrel, ⟨-, rfl⟩ | ⟨-, hops⟩⟩ := rowOps_ok h hid
    · cases hop
    · rw [ha.relations] at hrel
      obtain ⟨view, hview, hop⟩ := (hops.opFor (ha.columns id rel hrel)).exists_of_mem_right hop
      exact ⟨view, (mem_viewsOf.mp hview).1, hop⟩

structure AllFitting (config : Config) (l : Loop F) (handed : List (SealedTxn F)) : Prop where
  buffer : ∀ op ∈ l.assembly.openOps.getD [], Fitting config op
  txns : ∀ t ∈ handed ++ l.pending, ∀ op ∈ t.ops, Fitting config op

theorem AllFitting.handle {config : Config} {ms : List Message} {l l' : Loop F}
    {m : Message} {now : ℚ} {handed : List (SealedTxn F)} (hl : Follows config ms l)
    (h : AllFitting config l handed) (hm : l.handle config m now = .ok l') :
    AllFitting config l' handed := by
  obtain ⟨ha, -, hpending⟩ := Loop.handle_ok hm
  obtain ⟨ops, hops⟩ := assemble_ok ha
  have hnew := rowOps_fitting (assembleAll_recorded hl.assembled) hops.rowOps_eq
  refine ⟨?_, ?_⟩
  · rw [hops.openOps_eq]
    intro op hop
    have hbuffer : op ∈ l.assembly.openOps.getD [] ++ ops := by
      cases m with
      | begin b => cases hop
      | commit c => cases hop
      | _ =>
        cases hopen : l.assembly.openOps with
        | none =>
          rw [hopen] at hop
          cases hop
        | some buffered =>
          rw [hopen] at hop
          exact hop
    exact (List.mem_append.mp hbuffer).elim (h.buffer op) (hnew op)
  · obtain ⟨c, -, -, hpending⟩ | ⟨-, hpending⟩ := hpending
    · rw [hpending, ← List.append_assoc]
      intro t ht
      rcases List.mem_append.mp ht with ht | ht
      · exact h.txns t ht
      · cases List.mem_singleton.mp ht
        exact h.buffer
    · rw [hpending]
      exact h.txns

theorem AllFitting.flush {config : Config} {ms : List Message} {l : Loop F}
    {handed : List (SealedTxn F)} (hl : Follows config ms l) (h : AllFitting config l handed) :
    AllFitting config l.flush.1 (handed ++ l.flush.2) := by
  obtain ⟨hassembly, hsealed, -, -⟩ := flush_frame hl.above
  refine ⟨hassembly ▸ h.buffer, ?_⟩
  rw [List.append_assoc, hsealed]
  exact h.txns

theorem loop_allFitting {config : Config} {checkpoint : ℕ} {items : List Item}
    {s : Loop F × List (SealedTxn F)} (h : loop config checkpoint items = .ok s) :
    AllFitting config s.1 s.2 := by
  refine (Except.foldlM_induction (P := fun items s => Follows config (messages items) s.1 ∧
    AllFitting config s.1 s.2) h ⟨⟨rfl, rfl, fun t ht => (by cases ht)⟩, ?_⟩ ?_).2
  · exact ⟨fun op hop => (by cases hop), fun t ht => (by cases ht)⟩
  rintro pre item s s' ⟨hs, hfit⟩ hitem
  cases item with
  | wake =>
    cases hitem
    rw [messages_concat_wake]
    exact ⟨flush_follows hs, hfit.flush hs⟩
  | message m now later =>
    rw [messages_concat_message]
    refine ⟨(iterate_message hs hitem).1, ?_⟩
    obtain ⟨l, hl, hs'⟩ := iterate_ok hitem
    have hfit' := hfit.handle hs hl
    rcases hs' with rfl | rfl
    · exact hfit'
    · exact hfit'.flush (hs.handle hl)

/-! ### The fold over them -/

theorem apply_plans {b b' : DeltaBatch F} {name : String} {row : Row F} {sign : ℤ}
    (h : b.apply name row sign = .ok b') : b'.plans = b.plans := by
  obtain ⟨plan, -, h⟩ := Except.bind_eq_ok.mp h
  obtain ⟨_, -, h⟩ := Except.bind_eq_ok.mp h
  obtain ⟨key, -, h⟩ := Except.bind_eq_ok.mp h
  obtain ⟨group, -, h⟩ := Except.bind_eq_ok.mp h
  cases Except.pure_eq_ok.mp h
  rfl

theorem applyEvent_plans {b b' : DeltaBatch F} {e : RowEvent F} (h : b.applyEvent e = .ok b') :
    b'.plans = b.plans := by
  cases e with
  | insert view row => exact apply_plans h
  | delete view row => exact apply_plans h
  | truncate view =>
    obtain ⟨plan, -, h⟩ := Except.bind_eq_ok.mp h
    cases Except.pure_eq_ok.mp h
    rfl

theorem foldEvents_plans {views : List ViewSpec} (hnames : (views.map ViewSpec.name).Nodup)
    {events : List (RowEvent F)} {b : DeltaBatch F} (h : foldEvents views events = .ok b) :
    PlansFor views b.plans := by
  obtain ⟨b₀, hinit, h⟩ := Except.bind_eq_ok.mp h
  exact Except.foldlM_induction (P := fun _ b => PlansFor views b.plans) h
    (init_tracks hnames hinit).1.plans fun _ _ _ _ hplans he => applyEvent_plans he ▸ hplans

/-- `DeltaBatch` finds the plan of the op, and in its rows every column the plan reads. -/
def Found (b : DeltaBatch F) (op : Op F) : Prop :=
  ∃ plan, b.plan op.view = .ok plan ∧
    ∀ row ∈ op.rows, ∀ c ∈ plan.needed, (Dict.get? row c).isSome

omit [PyFloat F] in
theorem Fitting.found {config : Config} (hnames : (config.views.map ViewSpec.name).Nodup)
    {op : Op F} (h : Fitting config op) {b : DeltaBatch F} (hb : PlansFor config.views b.plans) :
    Found b op := by
  obtain ⟨view, hview, hop⟩ := h
  obtain ⟨plan, storage, hplan, hfor⟩ := hb.get? hnames hview
  refine ⟨plan, ?_, ?_⟩
  · rw [DeltaBatch.plan, hop.view_eq, hplan]
  · rw [hfor.needed_eq]
    exact hop.complete

/-- After any stream of messages: a message about a row of a configured table gives one op to each
of its views, with rows decoded by the latest Relation that have every column the view reads; a
Relation without such a column is refused; no op that is flushed meets an unknown view or a missing
column; and the three computations of the columns a view reads agree. -/
theorem row_ops_match_views {config : Config} (hnames : (config.views.map ViewSpec.name).Nodup)
    {checkpoint : ℕ} {items : List Item} {l : Loop F} {handed : List (SealedTxn F)}
    (h : loop config checkpoint items = .ok (l, handed)) :
    (∀ m now l', l.handle config m now = .ok l' → ∀ id, rowId m = some id →
      ∃ rel, latest (messages items) id = some rel ∧
        ((∃ view ∈ config.views, (view.sourceSchema, view.sourceTable) = (rel.ns, rel.name)) →
          ∃ ops, OpsOf config rel m ops ∧
            l'.assembly.openOps = l.assembly.openOps.map (· ++ ops) ∧
            List.Forall₂ OpFor (config.views.filter fun view =>
              (view.sourceSchema, view.sourceTable) = (rel.ns, rel.name)) ops)) ∧
    (∀ rel now, (∃ view ∈ config.views, (view.sourceSchema, view.sourceTable) = (rel.ns, rel.name) ∧
        ∃ c ∈ requiredColumns view, c ∉ rel.columns.map Column.name) →
      ∃ msg, l.handle config (.relation rel) now = .error (.schemaDrift msg)) ∧
    (∀ t ∈ handed ++ l.pending, ∀ op ∈ t.ops, ∀ events (b : DeltaBatch F),
      foldEvents config.views events = .ok b → Found b op) ∧
    ∀ view plan, buildPlan view = .ok plan →
      plan.needed = requiredColumns view ∧ Bootstrap.requiredColumns view =
      requiredColumns view := by
  obtain ⟨hfollows, -⟩ := loop_follows h
  have hrecorded := assembleAll_recorded hfollows.assembled
  refine ⟨fun m now l' hm id hid => ?_, fun rel now hmissing => ?_,
    fun t ht op hop events b hb => ?_, fun view plan hplan => ?_⟩
  · obtain ⟨ha, -, -⟩ := Loop.handle_ok hm
    obtain ⟨ops, hops⟩ := assemble_ok ha
    obtain ⟨rel, hrel, hcases⟩ := rowOps_ok hops.rowOps_eq hid
    rw [hrecorded.relations] at hrel
    refine ⟨rel, hrel, ?_⟩
    rintro ⟨view, hview, hsource⟩
    have hmem : view ∈ viewsOf config rel := mem_viewsOf.mpr ⟨hview, hsource⟩
    obtain ⟨hnil, -⟩ | ⟨-, hopsOf⟩ := hcases
    · rw [hnil] at hmem
      cases hmem
    · refine ⟨ops, hopsOf, ?_, ?_⟩
      · rw [hops.openOps_eq]
        cases m <;> first | rfl | cases hid
      · rw [← viewsOf_eq_filter]
        exact hopsOf.opFor (hrecorded.columns id rel hrel)
  · obtain ⟨view, hview, hsource, c, hc, hnot⟩ := hmissing
    have hmem : view ∈ viewsOf config rel := mem_viewsOf.mpr ⟨hview, hsource⟩
    -- an accepted Relation would have passed the column check of this view
    have hraise : ∃ msg, assemble config l.assembly (.relation rel) =
        .error (.schemaDrift msg) := by
      change ∃ msg, onRelation config l.assembly rel = _
      cases hresult : onRelation config l.assembly rel with
      | error e =>
        obtain ⟨msg, rfl⟩ := onRelation_error hresult
        exact ⟨msg, rfl⟩
      | ok a =>
        obtain ⟨hnil, -⟩ | ⟨-, hcheck, -⟩ := onRelation_ok.mp hresult
        · rw [hnil] at hmem
          cases hmem
        · exact absurd (missingColumns_eq_nil.mp (hcheck view hmem) c hc) hnot
    obtain ⟨msg, hraise⟩ := hraise
    refine ⟨msg, ?_⟩
    unfold Loop.handle
    rw [hraise]
    rfl
  · exact ((loop_allFitting h).txns t ht op hop).found hnames (foldEvents_plans hnames hb)
  · obtain ⟨storage, hfor⟩ := buildPlan_ok hplan
    exact ⟨hfor.needed_eq, rfl⟩

def ordersRelation : Relation :=
  ⟨1, "public", "orders", 'f', [⟨"status", 25, -1, false⟩, ⟨"amount", 1700, -1, false⟩]⟩

def ordersConfig : Config := ⟨"walflux", "walflux", 200, 500, [sampleView]⟩

def ordersLoop (ops : List (Op Empty)) : Loop Empty :=
  ⟨⟨[(1, ordersRelation)], [1], some ops⟩, 0, [], none⟩

theorem row_ops_match_views_orders : ∃ rel, latest
    (messages [.message sampleBegin 0 0, .message (.relation ordersRelation) 0 0]) 1 = some rel ∧
    ((∃ view ∈ ordersConfig.views, (view.sourceSchema, view.sourceTable) = (rel.ns, rel.name)) →
      ∃ ops : List (Op Empty),
        OpsOf ordersConfig rel (.insert ⟨1, [.text "open", .text "0.1"]⟩) ops ∧
        some [.insert "order_totals" (sampleRow 1 (-1))] = (some []).map (· ++ ops) ∧
        List.Forall₂ OpFor (ordersConfig.views.filter fun view =>
          (view.sourceSchema, view.sourceTable) = (rel.ns, rel.name)) ops) :=
  (row_ops_match_views (by decide) (show loop (F := Empty) ordersConfig 0
      [.message sampleBegin 0 0, .message (.relation ordersRelation) 0 0] =
    .ok (ordersLoop [], []) from rfl)).1 (.insert ⟨1, [.text "open", .text "0.1"]⟩) 0
    (ordersLoop [.insert "order_totals" (sampleRow 1 (-1))]) rfl 1 rfl

end Daemon

end WalFlux
