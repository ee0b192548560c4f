import WalFlux.Daemon.Objects
import WalFlux.System.Maintained

/-! Unchanged-TOAST markers: in a new tuple they change nothing but which object a NaN is, in an
image that should be complete they stop the flush. -/

namespace WalFlux

open Aggregates Protocol Python

namespace Daemon

variable {F : Type} [PyFloat F]

/-! ### Markers in a new tuple -/

def elide (S : ℕ → Bool) (data : TupleData) : TupleData :=
  data.mapIdx fun i cell => if S i then .unchangedToast else cell

def Complete (data : TupleData) : Prop := ∀ cell ∈ data, cell ≠ .unchangedToast

instance : DecidablePred Complete := fun data =>
  inferInstanceAs (Decidable (∀ cell ∈ data, cell ≠ .unchangedToast))

def SameOn (F : Type) [PyFloat F] (S : ℕ → Bool) (columns : List Column) (old new : TupleData) :
    Prop :=
  ∀ i column o n, S i = true → columns[i]? = some column → old[i]? = some o → new[i]? = some n →
    decodeCell (F := F) column o = decodeCell column n

theorem convertValue_ne_toast {text : Option String} {oid : ℕ} {value : Value F}
    (h : convertValue text oid = .ok value) : value ≠ .unchangedToast := by
  unfold convertValue at h
  rintro rfl
  cases text with
  | none => cases h
  | some text =>
    dsimp only at h
    split_ifs at h
    · cases h
    · cases hint : Python.int text 10 <;> rw [hint] at h <;> cases h
    · cases hfloat : PyFloat.ofText (F := F) text <;> rw [hfloat] at h <;> cases h
    · cases hdec : decimalOfText text <;> rw [hdec] at h <;> cases h
    · cases h

theorem decodeCell_ne_toast {column : Column} {cell : ColumnValue} {value : Value F}
    (hcell : cell ≠ .unchangedToast) (h : decodeCell column cell = .ok value) :
    value ≠ .unchangedToast := by
  cases cell with
  | null =>
    cases h
    simp
  | unchangedToast => exact absurd rfl hcell
  | text s =>
    change convertValue (some s) column.typeOid = .ok value at h
    exact convertValue_ne_toast h

/-- Under one key: the old value, the new one, and the new one as sent. -/
abbrev Images (F : Type) := Dict String (Value F × Value F × Value F)

/-- The value as sent is the new one, or a marker for an unchanged one. -/
def Sent (x : Value F × Value F × Value F) : Prop :=
  x.2.1 ≠ .unchangedToast ∧ (x.2.2 = x.2.1 ∨ x.2.2 = .unchangedToast ∧ x.2.1 = x.1)

namespace Images

def old (t : Images F) : Row F := t.map fun p => (p.1, p.2.1)

def new (t : Images F) : Row F := t.map fun p => (p.1, p.2.2.1)

def sent (t : Images F) : Row F := t.map fun p => (p.1, p.2.2.2)

omit [PyFloat F] in
theorem fillUnchanged_sent {t : Images F} (hkeys : (Dict.keys t).Nodup) (h : ∀ p ∈ t, Sent p.2) :
    fillUnchanged t.old t.sent = .ok t.new := by
  rw [fillUnchanged, Except.mapM_eq_ok, sent, new, List.forall₂_map_left_iff,
    List.forall₂_map_right_iff, List.forall₂_same]
  rintro ⟨name, o, n, e⟩ hp
  obtain ⟨hn, hsent⟩ := h _ hp
  dsimp only at hn hsent ⊢
  rcases hsent with rfl | ⟨rfl, rfl⟩
  · cases e with
    | unchangedToast => exact absurd rfl hn
    | _ => rfl
  · have hget : Dict.get? t.old name = some n := by
      rw [old, Dict.get?_map t Prod.fst, Dict.get?_eq_some_of_mem hkeys hp]
      rfl
    dsimp only
    rw [Row.index, hget]
    rfl

def whole (t : Images F) : Images F := t.map fun p => (p.1, p.2.1, p.2.2.1, p.2.2.1)

omit [PyFloat F] in
theorem keys_whole (t : Images F) : Dict.keys t.whole = Dict.keys t := by
  simp [whole, Dict.keys, Function.comp_def]

omit [PyFloat F] in
theorem whole_sent {t : Images F} (h : ∀ p ∈ t, Sent p.2) : ∀ p ∈ t.whole, Sent p.2 := by
  intro p hp
  obtain ⟨q, hq, rfl⟩ := List.mem_map.mp hp
  exact ⟨(h q hq).1, .inl rfl⟩

omit [PyFloat F] in
theorem fillUnchanged_new {t : Images F} (hkeys : (Dict.keys t).Nodup) (h : ∀ p ∈ t, Sent p.2) :
    fillUnchanged t.old t.new = .ok t.new := by
  have hfill := fillUnchanged_sent (t := t.whole) (by rwa [keys_whole]) (whole_sent h)
  simpa [whole, old, new, sent, Function.comp_def] using hfill

def isMarker : Value F → Bool
  | .unchangedToast => true
  | _ => false

def objects (message : ℕ) (t : Images F) : ObjRow F :=
  t.map fun p => (p.1, ⟨⟨message, !isMarker p.2.2.2, p.1⟩, p.2.2.1⟩)

omit [PyFloat F] in
theorem fillObjects_sent (message : ℕ) {t : Images F} (hkeys : (Dict.keys t).Nodup)
    (h : ∀ p ∈ t, Sent p.2) :
    fillObjects (.make message false t.old) (.make message true t.sent) =
      .ok (t.objects message) := by
  have hmake : ObjRow.make message true t.sent =
      t.map fun p => (p.1, ⟨⟨message, true, p.1⟩, p.2.2.2⟩) := by
    rw [ObjRow.make, sent, List.map_map]
    rfl
  rw [fillObjects, Except.mapM_eq_ok, hmake, objects, List.forall₂_map_left_iff,
    List.forall₂_map_right_iff, List.forall₂_same]
  rintro ⟨name, o, n, e⟩ hp
  obtain ⟨hn, hsent⟩ := h _ hp
  dsimp only at hn hsent ⊢
  rcases hsent with rfl | ⟨rfl, rfl⟩
  · cases e with
    | unchangedToast => exact absurd rfl hn
    | _ => rfl
  · have hget : Dict.get? (ObjRow.make message false t.old) name =
        some ⟨⟨message, false, name⟩, n⟩ := by
      refine Dict.get?_eq_some_of_mem ?_ ?_
      · simpa [Dict.keys, ObjRow.make, old, Function.comp_def] using hkeys
      · exact List.mem_map.mpr ⟨(name, n), List.mem_map.mpr ⟨_, hp, rfl⟩, rfl⟩
    dsimp only
    rw [ObjRow.index, hget]
    rfl

omit [PyFloat F] in
theorem fillObjects_new (message : ℕ) {t : Images F} (hkeys : (Dict.keys t).Nodup)
    (h : ∀ p ∈ t, Sent p.2) : fillObjects (.make message false t.old) (.make message true t.new) =
      .ok (t.whole.objects message) := by
  have hfill := fillObjects_sent message (t := t.whole) (by rwa [keys_whole]) (whole_sent h)
  simpa [whole, old, new, sent, Function.comp_def] using hfill

theorem objects_alike (message : ℕ) {t : Images F} (h : ∀ p ∈ t, Sent p.2) {cols : List String}
    (hnan : ∀ p ∈ t, p.1 ∈ cols → isMarker p.2.2.2 = true → isNan p.2.2.1 = false) :
    (t.objects message).Alike cols (t.whole.objects message) := by
  rw [ObjRow.Alike, objects, objects, whole, List.map_map, List.forall₂_map_left_iff,
    List.forall₂_map_right_iff, List.forall₂_same]
  intro p hp
  refine ⟨rfl, rfl, fun hc => ⟨rfl, fun hisnan => ?_⟩⟩
  have hnew : isMarker p.2.2.1 = false := by
    cases hvalue : p.2.2.1 with
    | unchangedToast => exact absurd hvalue (h p hp).1
    | _ => rfl
  cases hmarker : isMarker p.2.2.2 with
  | true =>
    rw [hnan p hp hc hmarker] at hisnan
    cases hisnan
  | false => simp [hnew]

end Images

theorem elide_cons (S : ℕ → Bool) (cell : ColumnValue) (data : TupleData) :
    elide S (cell :: data) =
      (if S 0 then .unchangedToast else cell) :: elide (fun i => S (i + 1)) data := by
  rw [elide, List.mapIdx_cons]
  rfl

/-- Decoding the whole new tuple and the tuple as sent: both fail alike, or the rows differ in
markers only. -/
theorem go_elide {columns : List Column} {old new : TupleData} {S : ℕ → Bool} {t : Images F}
    {row : Row F} (hold : decodeRow.go columns old t.old = .ok row) (hnew : Complete new)
    (hsame : SameOn F S columns old new) (hkeys : (Dict.keys t).Nodup) (ht : ∀ p ∈ t, Sent p.2) :
    (∃ t' : Images F, (Dict.keys t').Nodup ∧ (∀ p ∈ t', Sent p.2) ∧ row = t'.old ∧
      decodeRow.go columns new t.new = .ok t'.new ∧
        decodeRow.go columns (elide S new) t.sent = .ok t'.sent) ∨
      ∃ e, decodeRow.go columns new t.new = .error e ∧
        decodeRow.go columns (elide S new) t.sent = .error e := by
  induction columns generalizing old new S t with
  | nil =>
    cases new with
    | nil =>
      cases old with
      | nil =>
        cases hold
        exact .inl ⟨t, hkeys, ht, rfl, rfl, rfl⟩
      | cons o old => cases hold
    | cons n new => exact .inr ⟨.value, rfl, by rw [elide_cons]; rfl⟩
  | cons column columns ih =>
    cases new with
    | nil => exact .inr ⟨.value, rfl, rfl⟩
    | cons n new =>
      cases old with
      | nil => cases hold
      | cons o old =>
        obtain ⟨hn, hnew⟩ := List.forall_mem_cons.mp hnew
        obtain ⟨ov, hov, hold⟩ := Except.bind_eq_ok.mp hold
        have hsame' : SameOn F (fun i => S (i + 1)) columns old new := fun i c o' n' hS hc ho hn' =>
          hsame (i + 1) c o' n' hS hc ho hn'
        have hgo : ∀ (cell : ColumnValue) (data : TupleData) (r : Row F),
            decodeRow.go (column :: columns) (cell :: data) r =
              decodeCell column cell >>= fun v => decodeRow.go columns data (r.set column.name v) :=
          fun _ _ _ => rfl
        rw [elide_cons, hgo, hgo]
        cases hnv : decodeCell (F := F) column n with
        | error e =>
          have h0 : S 0 = false := by
            by_contra h0
            rw [Bool.not_eq_false] at h0
            have := hsame 0 column o n h0 rfl rfl rfl
            rw [hov, hnv] at this
            cases this
          refine .inr ⟨e, rfl, ?_⟩
          rw [h0, if_neg Bool.false_ne_true, hnv]
          rfl
        | ok nv =>
          -- what is stored for the elided tuple
          obtain ⟨ev, hev, hsent⟩ : ∃ ev : Value F,
              decodeCell column (if S 0 then .unchangedToast else n) = .ok ev ∧
                  Sent (ov, nv, ev) := by
            have hne := decodeCell_ne_toast hn hnv
            by_cases h0 : S 0 = true
            · have heq := hsame 0 column o n h0 rfl rfl rfl
              rw [hov, hnv, Except.ok.injEq] at heq
              exact ⟨.unchangedToast, by rw [if_pos h0]; rfl, hne, .inr ⟨rfl, heq.symm⟩⟩
            · exact ⟨nv, by rw [if_neg h0, hnv], hne, .inl rfl⟩
          rw [hev]
          change (∃ t', _ ∧ _ ∧ _ ∧ decodeRow.go columns new (t.new.set column.name nv) = _ ∧
              decodeRow.go columns _ (t.sent.set column.name ev) = _) ∨
            ∃ e, decodeRow.go columns new (t.new.set column.name nv) = _ ∧
              decodeRow.go columns _ (t.sent.set column.name ev) = _
          have hset (f : Value F × Value F × Value F → Value F) :=
            Dict.set_map t f column.name (ov, nv, ev)
          rw [show t.new.set column.name nv = Images.new (Dict.set t column.name (ov, nv, ev)) from
              hset fun x => x.2.1,
            show t.sent.set column.name ev = Images.sent (Dict.set t column.name (ov, nv, ev)) from
              hset fun x => x.2.2]
          refine ih ?_ hnew hsame' (Dict.nodup_keys_set hkeys _ _)
            (Dict.forall_mem_set (P := fun _ x => Sent x) ht hsent fun _ _ _ => hsent)
          rw [show Images.old (Dict.set t column.name (ov, nv, ev)) = t.old.set column.name ov from
            (hset fun x => x.1).symm]
          exact hold

theorem decode_elide {columns : List Column} {old new : TupleData} {S : ℕ → Bool} {row : Row F}
    (hold : decodeRow columns old = .ok row) (hnew : Complete new)
    (hsame : SameOn F S columns old new) :
    (∃ t : Images F, (Dict.keys t).Nodup ∧ (∀ p ∈ t, Sent p.2) ∧ row = t.old ∧
      decodeRow columns new = .ok t.new ∧ decodeRow columns (elide S new) = .ok t.sent) ∨
      ∃ e, decodeRow (F := F) columns new = .error e ∧
        decodeRow (F := F) columns (elide S new) = .error e :=
  go_elide (t := []) hold hnew hsame (by simp [Dict.keys]) (by simp)

theorem fill_elide {columns : List Column} {old new : TupleData} {S : ℕ → Bool} {row : Row F}
    (hold : decodeRow columns old = .ok row) (hnew : Complete new)
    (hsame : SameOn F S columns old new) :
    (do fillUnchanged row (← decodeRow columns (elide S new))) =
      (do fillUnchanged row (← decodeRow columns new)) := by
  obtain ⟨t, hkeys, ht, rfl, hdecode, hsent⟩ | ⟨e, hdecode, hsent⟩ := decode_elide hold hnew hsame
  · rw [hdecode, hsent]
    change fillUnchanged t.old t.sent = fillUnchanged t.old t.new
    rw [Images.fillUnchanged_new hkeys ht, Images.fillUnchanged_sent hkeys ht]
  · rw [hdecode, hsent]

theorem updateOps_eq {config : Config} {a : Assembly F} {m : Update} {old : TupleData}
    (hold : m.old = some old) {rel : Relation} (hrel : Dict.get? a.relations m.relId = some rel)
    (hviews : viewsOf config rel ≠ []) :
    updateOps config a m = decodeRow rel.columns old >>= fun row =>
      (do fillUnchanged row (← decodeRow rel.columns m.new)) >>= fun new =>
        pure ((viewsOf config rel).map fun view => .update view.name row new) := by
  have hlookup : relationOf a m.relId = .ok rel := by rw [relationOf, hrel]
  unfold updateOps
  rw [hlookup]
  change (if viewsOf config rel = [] then _ else _) = _
  rw [if_neg hviews, hold]
  exact bind_congr fun row => (bind_assoc _ _ _).symm

theorem updateOps_elide {config : Config} {a : Assembly F} {m : Update} {old : TupleData}
    (hold : m.old = some old) (hnew : Complete m.new) {S : ℕ → Bool}
    (hsame : ∀ rel, Dict.get? a.relations m.relId = some rel → SameOn F S rel.columns old m.new) :
    updateOps config a { m with new := elide S m.new } = updateOps config a m := by
  cases hrel : Dict.get? a.relations m.relId with
  | none =>
    have hlookup : ∃ e, relationOf a m.relId = .error e := ⟨_, by rw [relationOf, hrel]⟩
    obtain ⟨e, hlookup⟩ := hlookup
    unfold updateOps
    rw [hlookup]
    rfl
  | some rel =>
    by_cases hviews : viewsOf config rel = []
    · have hlookup : relationOf a m.relId = .ok rel := by rw [relationOf, hrel]
      unfold updateOps
      rw [hlookup]
      change (if viewsOf config rel = [] then _ else _) = if viewsOf config rel = [] then _ else _
      rw [if_pos hviews, if_pos hviews]
    · rw [updateOps_eq (m := { m with new := elide S m.new }) hold hrel hviews,
        updateOps_eq hold hrel hviews]
      cases hrow : decodeRow (F := F) rel.columns old with
      | error e => rfl
      | ok row =>
        have hfill := fill_elide hrow hnew (hsame rel hrel)
        exact congrArg (· >>= fun new => pure ((viewsOf config rel).map fun view =>
          Op.update view.name row new)) hfill

/-! ### Objects of a new row -/

/-- No column that a view on the table groups by is elided while it holds a NaN. -/
def ElidesNoNan (F : Type) [PyFloat F] (config : Config) (rel : Relation) (S : ℕ → Bool)
    (new : TupleData) : Prop :=
  ∀ sent row : Row F, decodeRow rel.columns (elide S new) = .ok sent →
    decodeRow rel.columns new = .ok row → ∀ view ∈ viewsOf config rel, ∀ c ∈ view.groupBy,
      sent.value c = .unchangedToast → isNan (row.value c) = false

theorem fillObjects_elide {config : Config} {rel : Relation} {old new : TupleData} {S : ℕ → Bool}
    {row : Row F} (hold : decodeRow rel.columns old = .ok row) (hnew : Complete new)
    (hsame : SameOn F S rel.columns old new) (hnan : ElidesNoNan F config rel S new) (message : ℕ) :
    Except.Rel (fun objects objects' => ∀ view ∈ viewsOf config rel,
      objects.Alike view.groupBy objects')
      (do fillObjects (.make message false row) (.make message true
        (← decodeRow rel.columns (elide S new))))
      (do fillObjects (.make message false row) (.make message true
        (← decodeRow rel.columns new))) := by
  obtain ⟨t, hkeys, ht, rfl, hdecode, hsent⟩ | ⟨e, hdecode, hsent⟩ := decode_elide hold hnew hsame
  · rw [hdecode, hsent]
    change Except.Rel _ (fillObjects _ (.make message true t.sent))
      (fillObjects _ (.make message true t.new))
    rw [Images.fillObjects_sent message hkeys ht, Images.fillObjects_new message hkeys ht]
    refine .ok fun view hview => Images.objects_alike message ht fun p hp hc hmarker => ?_
    have hget {f : Value F × Value F × Value F → Value F} :
        Row.value (t.map fun p => (p.1, f p.2)) p.1 = f p.2 := by
      rw [Row.value, Dict.get?_map t f, Dict.get?_eq_some_of_mem hkeys hp]
      rfl
    have hfree := hnan _ _ hsent hdecode view hview p.1 hc
    rw [Images.sent, hget (f := fun x => x.2.2), Images.new, hget (f := fun x => x.2.1)] at hfree
    refine hfree ?_
    cases hvalue : p.2.2.2 with
    | unchangedToast => rfl
    | _ =>
      rw [hvalue] at hmarker
      cases hmarker
  · rw [hdecode, hsent]
    exact .error e

theorem updateObjects_elide {config : Config} {a : Assembly F} {m : Update} {old : TupleData}
    (hnames : (config.views.map ViewSpec.name).Nodup) (hold : m.old = some old)
    (hnew : Complete m.new) {S : ℕ → Bool} (hsame : ∀ rel,
      Dict.get? a.relations m.relId = some rel →
      SameOn F S rel.columns old m.new ∧ ElidesNoNan F config rel S m.new) (message : ℕ) :
    Except.Rel (List.Forall₂ (ObjOp.Alike config.views))
      (updateObjects config a message { m with new := elide S m.new })
      (updateObjects config a message m) := by
  unfold updateObjects
  cases hrel : Dict.get? a.relations m.relId with
  | none =>
    rw [relationOf, hrel]
    exact .error _
  | some rel =>
    rw [relationOf, hrel]
    change Except.Rel _ (if viewsOf config rel = [] then _ else _)
      (if viewsOf config rel = [] then _ else _)
    split_ifs
    · exact .ok .nil
    rw [hold]
    dsimp only
    cases hrow : decodeRow (F := F) rel.columns old with
    | error e => exact .error e
    | ok row =>
      obtain ⟨hsame, hnan⟩ := hsame rel hrel
      have hfill := fillObjects_elide hrow hnew hsame hnan message
      have hops := hfill.bind (f := fun new => pure ((viewsOf config rel).map fun view =>
          ObjOp.update view.name (.make message false row) new))
        (g := fun new => pure ((viewsOf config rel).map fun view =>
          ObjOp.update view.name (.make message false row) new))
        (S := List.Forall₂ (ObjOp.Alike config.views)) fun objects objects' halike => .ok ?_
      · rw [bind_assoc, bind_assoc] at hops
        exact hops
      · rw [List.forall₂_map_left_iff, List.forall₂_map_right_iff, List.forall₂_same]
        intro view hview
        refine .update (fun v _ _ => .refl _ _) fun v hv hname => ?_
        cases eq_of_name_eq hnames hv (mem_viewsOf.mp hview).1 hname
        exact halike _ hview

theorem foldObjects_elide [DecidableEq F] {config : Config} {a : Assembly F} {m : Update}
    {old : TupleData} (hnames : (config.views.map ViewSpec.name).Nodup) (hold : m.old = some old)
    (hnew : Complete m.new) {S : ℕ → Bool} (hsame : ∀ rel,
      Dict.get? a.relations m.relId = some rel →
      SameOn F S rel.columns old m.new ∧ ElidesNoNan F config rel S m.new) (message : ℕ)
    (before after : List (ObjOp F)) :
    (updateObjects config a message { m with new := elide S m.new } >>= fun ops =>
      (foldObjects config.views (before ++ ops ++ after)).map ObjBatch.batch) =
    updateObjects config a message m >>= fun ops =>
      (foldObjects config.views (before ++ ops ++ after)).map ObjBatch.batch := by
  have hops := updateObjects_elide hnames hold hnew hsame message
  generalize updateObjects config a message { m with new := elide S m.new } = x at hops ⊢
  generalize updateObjects config a message m = y at hops ⊢
  have hsame : ∀ ops : List (ObjOp F), List.Forall₂ (ObjOp.Alike config.views) ops ops := fun ops =>
    List.forall₂_same.mpr fun op _ => .refl _ op
  cases hops with
  | ok h => exact foldObjects_alike (List.rel_append (List.rel_append (hsame before) h)
    (hsame after))
  | error e => rfl

/-! ### Markers in an image that should be complete -/

/-- The images of a message that hold every column. -/
def completeImages : Message → List TupleData
  | .insert m => [m.new]
  | .update m => m.old.toList
  | .delete m => m.old.toList
  | _ => []

omit [PyFloat F] in
theorem checkNeeded_marker (view : ViewSpec) {row : Row F} {cols : List String} {c : String}
    (hc : c ∈ cols) (hmarker : Dict.get? row c = some .unchangedToast) :
    ∃ msg, DeltaBatch.checkNeeded view row cols = .error (.schemaDrift msg) := by
  induction cols with
  | nil => cases hc
  | cons col cols ih =>
    unfold DeltaBatch.checkNeeded
    cases hget : Dict.get? row col with
    | none => exact ⟨_, rfl⟩
    | some value =>
      cases value with
      | unchangedToast => exact ⟨_, rfl⟩
      | _ =>
        rcases List.mem_cons.mp hc with rfl | hc
        · rw [hmarker] at hget
          cases hget
        · exact ih hc

/-- The op is one of the view, and the first row folded for it has a marker where the view reads. -/
structure Marked (view : ViewSpec) (op : Op F) : Prop where
  view_eq : op.view = view.name
  marked : ∃ row rest, op.rows = row :: rest ∧
    ∃ c ∈ requiredColumns view, Dict.get? row c = some .unchangedToast

theorem apply_marked {config : Config} (hnames : (config.views.map ViewSpec.name).Nodup)
    {b : DeltaBatch F} (hb : PlansFor config.views b.plans) {view : ViewSpec}
    (hview : view ∈ config.views) {row : Row F} {c : String} (hc : c ∈ requiredColumns view)
    (hmarker : Dict.get? row c = some .unchangedToast) (sign : ℤ) :
    ∃ msg, b.apply view.name row sign = .error (.schemaDrift msg) := by
  obtain ⟨plan, storage, hplan, hfor⟩ := hb.get? hnames hview
  have hlookup : b.plan view.name = .ok plan := by rw [DeltaBatch.plan, hplan]
  have hneeded : c ∈ plan.needed := by
    rw [hfor.needed_eq]
    exact hc
  obtain ⟨msg, hcheck⟩ := checkNeeded_marker plan.view hneeded hmarker
  refine ⟨msg, ?_⟩
  unfold DeltaBatch.apply
  rw [hlookup]
  change (DeltaBatch.checkNeeded plan.view row plan.needed >>= _) = _
  rw [hcheck]
  rfl

theorem Marked.applyOp {config : Config} (hnames : (config.views.map ViewSpec.name).Nodup)
    {b : DeltaBatch F} (hb : PlansFor config.views b.plans) {view : ViewSpec}
    (hview : view ∈ config.views) {op : Op F} (h : Marked view op) :
    ∃ msg, b.applyOp op = .error (.schemaDrift msg) := by
  obtain ⟨hname, row, rest, hrows, c, hc, hmarker⟩ := h
  have happly := apply_marked hnames hb hview hc hmarker
  rw [← hname] at happly
  cases op with
  | insert name new =>
    cases hrows
    exact happly 1
  | update name old new =>
    cases hrows
    obtain ⟨msg, hraise⟩ := happly (-1)
    refine ⟨msg, ?_⟩
    change (b.apply name row (-1) >>= _) = _
    rw [show b.apply name row (-1) = _ from hraise]
    rfl
  | delete name old =>
    cases hrows
    exact happly (-1)
  | truncate name => cases hrows

theorem foldOps_marked {config : Config} (hnames : (config.views.map ViewSpec.name).Nodup)
    {view : ViewSpec} (hview : view ∈ config.views) {op : Op F} (h : Marked view op)
    {ops : List (Op F)} (hop : op ∈ ops) : ∃ e, foldOps config.views ops = .error e := by
  obtain ⟨pre, post, rfl⟩ := List.append_of_mem hop
  cases hfold : foldOps config.views (pre ++ op :: post) with
  | error e => exact ⟨e, rfl⟩
  | ok b =>
    obtain ⟨b₀, hinit, hfold⟩ := Except.bind_eq_ok.mp hfold
    obtain ⟨b₁, hpre, hfold⟩ := Except.foldlM_append_eq_ok.mp hfold
    have hevents : foldEvents config.views (pre.flatMap Op.events) = .ok b₁ := by
      rw [← foldOps_eq, foldOps, hinit]
      exact hpre
    obtain ⟨msg, hraise⟩ := h.applyOp hnames (foldEvents_plans hnames hevents) hview
    rw [List.foldlM_cons, hraise] at hfold
    cases hfold

theorem marked_of_image {config : Config} {rel : Relation} {m : Message} {ops : List (Op F)}
    (h : OpsOf config rel m ops) {data : TupleData} (hdata : data ∈ completeImages m)
    {view : ViewSpec} (hview : view ∈ viewsOf config rel) {c : String}
    (hc : c ∈ requiredColumns view) {column : Column} (hcell : cellOf rel.columns data c =
      some (column, .unchangedToast)) :
    ∃ op ∈ ops, Marked view op := by
  have hmarker {row : Row F} (hrow : decodeRow rel.columns data = .ok row) :
      Dict.get? row c = some .unchangedToast := by
    obtain ⟨hnone, -⟩ | ⟨column', cell, value, hsome, hdecode, hget⟩ :=
      (decodeRow_ok hrow).get?_eq c
    · rw [hcell] at hnone
      cases hnone
    · rw [hcell] at hsome
      cases hsome
      cases hdecode
      exact hget
  cases h with
  | insert hrow =>
    cases List.mem_singleton.mp hdata
    exact ⟨_, List.mem_map_of_mem hview, rfl, _, _, rfl, c, hc, hmarker hrow⟩
  | update hold hdecode =>
    rw [completeImages, hold] at hdata
    cases List.mem_singleton.mp hdata
    exact ⟨_, List.mem_map_of_mem hview, rfl, _, _, rfl, c, hc, hmarker hdecode⟩
  | delete hold hdecode =>
    rw [completeImages, hold] at hdata
    cases List.mem_singleton.mp hdata
    exact ⟨_, List.mem_map_of_mem hview, rfl, _, _, rfl, c, hc, hmarker hdecode⟩

/-- After any stream of messages, and whatever the statements do. An update means the same whichever
unchanged columns are elided from its new tuple, and every batch it is in comes out the same unless
a view groups by an elided NaN. A marker that a view reads in an image that should be complete makes
an op that no batch accepts, and a flush that comes to it ends with nothing changed. -/
theorem markers_fill_or_halt {ι K : Type} [DecidableEq ι] [DecidableEq F] [DecidableEq K]
    {config : Config} (hnames : (config.views.map ViewSpec.name).Nodup)
    (read : String → Value F → K) (types : String × String → Dict String String)
    (contents : List (SealedTxn F) → String × String → Multiset (Row F)) {checkpoint : ℕ}
    {items : List Item} {l : Loop F} {handed : List (SealedTxn F)}
    (h : loop config checkpoint items = .ok (l, handed)) :
    (∀ (m : Update) old, m.old = some old → Complete old → Complete m.new → ∀ S,
      (∀ rel, latest (messages items) m.relId = some rel → SameOn F S rel.columns old m.new) →
        rowOps config l.assembly (.update { m with new := elide S m.new }) =
          rowOps config l.assembly (.update m) ∧
        ((∀ rel, latest (messages items) m.relId = some rel → ElidesNoNan F config rel S m.new) →
          ∀ message before after,
            (rowObjects config l.assembly message
                (.update { m with new := elide S m.new }) >>= fun ops =>
              (foldObjects config.views (before ++ ops ++ after)).map ObjBatch.batch) =
            rowObjects config l.assembly message (.update m) >>= fun ops =>
              (foldObjects config.views (before ++ ops ++ after)).map ObjBatch.batch)) ∧
    (∀ m now l', l.handle config m now = .ok l' → ∀ id, rowId m = some id →
      ∀ rel, latest (messages items) id = some rel →
        ∀ view ∈ config.views, (view.sourceSchema, view.sourceTable) = (rel.ns, rel.name) →
          ∀ c ∈ requiredColumns view, ∀ data ∈ completeImages m,
            ∀ column, cellOf rel.columns data c = some (column, .unchangedToast) →
      ∃ ops, l'.assembly.openOps = l.assembly.openOps.map (· ++ ops) ∧ ∃ op ∈ ops,
        op.view = view.name ∧
        (∀ events (b : DeltaBatch F), foldEvents config.views events = .ok b →
          ∃ msg, b.applyOp op = .error (.schemaDrift msg)) ∧
        ∀ (s s' : Sys ι (Sql.Tables K) F) d r last, s.daemons d = .streaming r →
          r.phase = .flushing last → op ∈ r.loop.pending.flatMap SealedTxn.ops →
          Sys.step config (maintenance read config.views types contents) s (.flush d) = some s' →
            (∃ e, foldOps config.views (r.loop.pending.flatMap SealedTxn.ops) = .error e) ∧
              s'.server = s.server ∧ s'.daemons d = .down) := by
  obtain ⟨hfollows, -⟩ := loop_follows h
  have hrecorded := assembleAll_recorded hfollows.assembled
  refine ⟨fun m old hold _ hnew S hsame => ⟨?_, fun hnan message before after => ?_⟩, ?_⟩
  · exact updateOps_elide hold hnew fun rel hrel => hsame rel (hrecorded.relations _ ▸ hrel)
  · exact foldObjects_elide hnames hold hnew (fun rel hrel =>
      ⟨hsame rel (hrecorded.relations _ ▸ hrel), hnan rel (hrecorded.relations _ ▸ hrel)⟩)
        message before after
  intro m now l' hm id hid rel hrel view hview hsource c hc data hdata column hcell
  obtain ⟨ha, -, -⟩ := Loop.handle_ok hm
  obtain ⟨ops, hops⟩ := assemble_ok ha
  obtain ⟨rel', hrel', hcases⟩ := rowOps_ok hops.rowOps_eq hid
  rw [hrecorded.relations, hrel] at hrel'
  cases hrel'
  have hmem : view ∈ viewsOf config rel := mem_viewsOf.mpr ⟨hview, hsource⟩
  have hopsOf : OpsOf config rel m ops := by
    obtain ⟨hnil, -⟩ | ⟨-, hopsOf⟩ := hcases
    · rw [hnil] at hmem
      cases hmem
    · exact hopsOf
  obtain ⟨op, hop, hmarked⟩ := marked_of_image hopsOf hdata hmem hc hcell
  refine ⟨ops, ?_, op, hop, hmarked.view_eq, fun events b hb => ?_, ?_⟩
  · rw [hops.openOps_eq]
    -- a row message neither opens nor closes the buffer
    cases m <;> first | rfl | cases hid
  · exact hmarked.applyOp hnames (foldEvents_plans hnames hb) hview
  · intro s s' d r last hr hphase hpending hstep
    obtain ⟨e, he⟩ := foldOps_marked hnames hview hmarked hpending
    -- the batch is folded before the first statement
    have hflush : s.server.flush (maintenance read config.views types contents) r.loop.pending =
        .error e := by
      unfold Server.flush
      change (foldOps config.views (r.loop.pending.flatMap SealedTxn.ops) >>= _) >>= _ = _
      rw [he]
      rfl
    refine ⟨⟨e, he⟩, ?_⟩
    rw [Sys.step, Sys.withRun, hr] at hstep
    dsimp only at hstep
    rw [hphase, hflush] at hstep
    cases hstep
    exact ⟨rfl, Function.update_self _ _ _⟩

theorem markers_fill_or_halt_orders :
    (rowOps ordersConfig (ordersLoop []).assembly
        (.update ⟨1, some [.text "open", .text "5"], none,
          elide (fun i => i = 0) [.text "open", .text "7"]⟩) =
      rowOps ordersConfig (ordersLoop []).assembly
        (.update ⟨1, some [.text "open", .text "5"], none, [.text "open", .text "7"]⟩) ∧
    ∀ message before after,
      (rowObjects ordersConfig (ordersLoop []).assembly message
          (.update ⟨1, some [.text "open", .text "5"], none,
            elide (fun i => i = 0) [.text "open", .text "7"]⟩) >>= fun ops =>
        (foldObjects ordersConfig.views (before ++ ops ++ after)).map ObjBatch.batch) =
      rowObjects ordersConfig (ordersLoop []).assembly message
          (.update ⟨1, some [.text "open", .text "5"], none, [.text "open", .text "7"]⟩)
          >>= fun ops =>
        (foldObjects ordersConfig.views (before ++ ops ++ after)).map ObjBatch.batch) ∧
    ∃ ops : List (Op Empty), some [.insert "order_totals" [("status", .str "open"),
        ("amount", .unchangedToast)]] = (some []).map (· ++ ops) ∧ ∃ op ∈ ops,
      op.view = "order_totals" ∧ ∀ events (b : DeltaBatch Empty),
        foldEvents ordersConfig.views events = .ok b →
          ∃ msg, b.applyOp op = .error (.schemaDrift msg) := by
  have h := markers_fill_or_halt (ι := Unit) (K := Unit) (by decide) (fun _ _ => ()) (fun _ => [])
    (fun _ _ => 0) (show loop (F := Empty) ordersConfig 0
      [.message sampleBegin 0 0, .message (.relation ordersRelation) 0 0] =
        .ok (ordersLoop [], []) from rfl)
  have hupdate := h.1 ⟨1, some [.text "open", .text "5"], none, [.text "open", .text "7"]⟩ _ rfl
    (by decide) (by decide) (fun i => i = 0) fun rel _ i column o n hS _ ho hn => by
      cases of_decide_eq_true hS
      cases ho
      cases hn
      rfl
  refine ⟨⟨hupdate.1, hupdate.2 fun rel hrel sent row _ hrow view hview c hc _ => ?_⟩, ?_⟩
  · cases hrel
    cases hrow
    cases List.mem_singleton.mp hview
    cases List.mem_singleton.mp hc
    rfl
  · obtain ⟨ops, hops, op, hop, hview, happly, -⟩ := h.2
      (.insert ⟨1, [.text "open", .unchangedToast]⟩) 0
      (ordersLoop [.insert "order_totals" [("status", .str "open"), ("amount", .unchangedToast)]])
        rfl 1
      rfl ordersRelation rfl sampleView
      (by decide) rfl "amount" (by decide) _ List.mem_cons_self ⟨"amount", 1700, -1, false⟩ rfl
    exact ⟨ops, hops, op, hop, hview, happly⟩

def numericRelation : Relation :=
  ⟨1, "public", "orders", 'f', [⟨"status", 1700, -1, false⟩, ⟨"amount", 1700, -1, false⟩]⟩

def numericLoop : Loop Empty := ⟨⟨[(1, numericRelation)], [1], some []⟩, 0, [], none⟩

def nanUpdate (S : ℕ → Bool) : Message :=
  .update ⟨1, some [.text "NaN", .text "5"], none, elide S [.text "NaN", .text "7"]⟩

def nanDeltas (S : ℕ → Bool) : Except Error (Groups Empty) :=
  rowObjects ordersConfig numericLoop.assembly 0 (nanUpdate S) >>= fun ops =>
    (foldObjects ordersConfig.views ops).map fun b => b.batch.groups "order_totals"

/-- The elided NaN is the object of the old row and finds its group again, the one written out opens
a second group. -/
theorem elided_nan_differs :
    loop (F := Empty) ordersConfig 0
        [.message sampleBegin 0 0, .message (.relation numericRelation) 0 0] =
          .ok (numericLoop, []) ∧
    SameOn Empty (fun i => i = 0) numericRelation.columns [.text "NaN", .text "5"]
      [.text "NaN", .text "7"] ∧
    rowOps ordersConfig numericLoop.assembly (nanUpdate fun i => i = 0) =
      rowOps ordersConfig numericLoop.assembly (nanUpdate fun _ => false) ∧
    nanDeltas (fun i => i = 0) =
      .ok [([.decimal (.nan "NaN")], [.int 0, .dec ⟨2, 0⟩, .int 0])] ∧
    nanDeltas (fun _ => false) =
      .ok [([.decimal (.nan "NaN")], [.int (-1), .dec ⟨-5, 0⟩, .int (-1)]),
        ([.decimal (.nan "NaN")], [.int 1, .dec ⟨7, 0⟩, .int 1])] := by
  refine ⟨rfl, fun i column o n hS _ ho hn =>
    ?_, by decide +kernel, by decide +kernel, by decide +kernel⟩
  cases of_decide_eq_true hS
  cases ho
  cases hn
  rfl

end Daemon

end WalFlux
