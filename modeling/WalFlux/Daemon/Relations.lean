import WalFlux.Aggregates.Exactness
import WalFlux.Daemon

/-! The relation cache over a run of messages: it holds the latest Relation of every id, and the
views an id feeds change only under a swap of names between configured tables. -/

namespace WalFlux.Daemon

open Aggregates Protocol Python

variable {F : Type}

def Assembly.fresh : Assembly F := ⟨[], [], none⟩

/-! ### The views of a table -/

theorem viewsOf_eq_filter (config : Config) (rel : Relation) :
    viewsOf config rel =
      config.views.filter fun v => (v.sourceSchema, v.sourceTable) = (rel.ns, rel.name) :=
  Dict.get?_foldl_push (fun v : ViewSpec => (v.sourceSchema, v.sourceTable)) _ _

theorem mem_viewsOf {config : Config} {rel : Relation} {view : ViewSpec} :
    view ∈ viewsOf config rel ↔
      view ∈ config.views ∧ (view.sourceSchema, view.sourceTable) = (rel.ns, rel.name) := by
  rw [viewsOf_eq_filter, List.mem_filter, decide_eq_true_iff]

theorem viewsOf_congr (config : Config) {rel rel' : Relation}
    (h : (rel.ns, rel.name) = (rel'.ns, rel'.name)) : viewsOf config rel = viewsOf config rel' := by
  rw [viewsOf, h]
  rfl

/-! ### One Relation message -/

theorem checkColumns_ok {rel : Relation} {views : List ViewSpec} :
    checkColumns rel views = .ok () ↔
      ∀ view ∈ views, missingColumns view (rel.columns.map Column.name) = [] := by
  induction views with
  | nil => simp [checkColumns]
  | cons view views ih =>
    unfold checkColumns
    dsimp only
    rw [List.forall_mem_cons, ← ih]
    split_ifs with h
    · simp [h]
    · rw [not_not] at h
      simp [h]

theorem checkColumns_error {rel : Relation} {views : List ViewSpec} {e : Error}
    (h : checkColumns rel views = .error e) : ∃ msg, e = .schemaDrift msg := by
  induction views with
  | nil => cases h
  | cons view views ih =>
    unfold checkColumns at h
    dsimp only at h
    split_ifs at h
    · exact ⟨_, (Except.error.inj h).symm⟩
    · exact ih h

theorem onRelation_ok {config : Config} {a a' : Assembly F} {rel : Relation} :
    onRelation config a rel = .ok a' ↔
      (viewsOf config rel = [] ∧ rel.relId ∉ a.viewRelIds ∧
        a' = { a with relations := a.relations.set rel.relId rel }) ∨
      (viewsOf config rel ≠ [] ∧
        (∀ view ∈ viewsOf config rel, missingColumns view (rel.columns.map Column.name) = []) ∧
        a' = { a with
          relations := a.relations.set rel.relId rel
          viewRelIds := a.viewRelIds.insert rel.relId }) := by
  unfold onRelation
  dsimp only
  split_ifs with hviews hid
  · constructor
    · intro h
      cases h
    · rintro (⟨-, hnot, -⟩ | ⟨hne, -⟩)
      · exact absurd hid hnot
      · exact absurd hviews hne
  · constructor
    · intro h
      exact .inl ⟨hviews, hid, (Except.ok.inj h).symm⟩
    · rintro (⟨-, -, rfl⟩ | ⟨hne, -⟩)
      · rfl
      · exact absurd hviews hne
  · rw [Except.bind_eq_ok, ← checkColumns_ok]
    constructor
    · rintro ⟨⟨⟩, hcheck, h⟩
      exact .inr ⟨hviews, hcheck, (Except.pure_eq_ok.mp h).symm⟩
    · rintro (⟨hnil, -⟩ | ⟨-, hcheck, rfl⟩)
      · exact absurd hnil hviews
      · exact ⟨(), hcheck, rfl⟩

theorem onRelation_error {config : Config} {a : Assembly F} {rel : Relation} {e : Error}
    (h : onRelation config a rel = .error e) : ∃ msg, e = .schemaDrift msg := by
  unfold onRelation at h
  dsimp only at h
  split_ifs at h
  · exact ⟨_, (Except.error.inj h).symm⟩
  · cases hcheck : checkColumns rel (viewsOf config rel) with
    | error e' =>
      rw [hcheck] at h
      cases h
      exact checkColumns_error hcheck
    | ok u =>
      rw [hcheck] at h
      cases h

/-! ### One message -/

def relation? : Message → Option Relation
  | .relation rel => some rel
  | _ => none

def isChange : Message → Bool
  | .insert _ => true
  | .update _ => true
  | .delete _ => true
  | .truncate _ => true
  | _ => false

def changed : Message → List ℕ
  | .insert m => [m.relId]
  | .update m => [m.relId]
  | .delete m => [m.relId]
  | .truncate m => m.relIds
  | _ => []

def bufferAfter (buffer : Option (List (Op F))) (ops : List (Op F)) : Message → Option (List (Op F))
  | .begin _ => some []
  | .commit _ => none
  | _ => buffer.map (· ++ ops)

variable [PyFloat F]

/-- `_row_ops`; the other messages have none. -/
def rowOps (config : Config) (a : Assembly F) : Message → Except Error (List (Op F))
  | .insert m => insertOps config a m
  | .update m => updateOps config a m
  | .delete m => deleteOps config a m
  | .truncate m => .ok (truncateOps config a m.relIds)
  | _ => .ok []

omit [PyFloat F] in
theorem extendOpen_ok {a a' : Assembly F} {kind : String} {ops : Except Error (List (Op F))}
    (h : extendOpen a kind ops = .ok a') : ∃ new, ops = .ok new ∧ a.openOps.isSome ∧
      a' = { a with openOps := a.openOps.map (· ++ new) } := by
  unfold extendOpen at h
  cases hopen : a.openOps with
  | none => simp [hopen] at h
  | some buffered =>
    simp only [hopen] at h
    obtain ⟨new, hnew, h⟩ := Except.bind_eq_ok.mp h
    exact ⟨new, hnew, rfl, (Except.pure_eq_ok.mp h).symm⟩

/-- What a handled message does: a Relation goes to the cache, a row message adds its ops to the
open buffer, and nothing else changes. -/
structure Handled (config : Config) (a a' : Assembly F) (m : Message) (ops : List (Op F)) :
    Prop where
  rowOps_eq : rowOps config a m = .ok ops
  isOpen : isChange m = true → a.openOps.isSome
  openOps_eq : a'.openOps = bufferAfter a.openOps ops m
  relation : ∀ rel, relation? m = some rel → onRelation config a rel = .ok a'
  frame : relation? m = none → a'.relations = a.relations ∧ a'.viewRelIds = a.viewRelIds

theorem Handled.ops_eq_nil {config : Config} {a a' : Assembly F} {m : Message} {ops : List (Op F)}
    (h : Handled config a a' m ops) (hm : isChange m = false) : ops = [] := by
  have hops := h.rowOps_eq
  cases m with
  | insert m => cases hm
  | update m => cases hm
  | delete m => cases hm
  | truncate m => cases hm
  | _ => exact (Except.ok.inj hops).symm

omit [PyFloat F] in
theorem bufferAfter_nil {m : Message} (buffer : Option (List (Op F))) (h : ∀ b, m ≠ .begin b)
    (h' : ∀ c, m ≠ .commit c) : bufferAfter buffer [] m = buffer := by
  cases m with
  | begin b => exact absurd rfl (h b)
  | commit c => exact absurd rfl (h' c)
  | _ => cases buffer <;> simp [bufferAfter]

theorem handled_change {config : Config} {a a' : Assembly F} {m : Message} {kind : String}
    {ops : Except Error (List (Op F))} (hops : rowOps config a m = ops) (hrel : relation? m = none)
    (hbuffer : ∀ (buffer : Option (List (Op F))) new, bufferAfter buffer new m =
      buffer.map (· ++ new))
    (h : extendOpen a kind ops = .ok a') : ∃ ops, Handled config a a' m ops := by
  obtain ⟨new, hnew, hopen, rfl⟩ := extendOpen_ok h
  refine ⟨new, hops.trans hnew, fun _ => hopen, (hbuffer _ _).symm, fun rel h => ?_,
    fun _ => ⟨rfl, rfl⟩⟩
  rw [hrel] at h
  cases h

theorem assemble_ok {config : Config} {a a' : Assembly F} {m : Message}
    (h : assemble config a m = .ok a') : ∃ ops, Handled config a a' m ops := by
  have hframe {b : Assembly F} {m : Message} (hops : rowOps config a m = .ok [])
      (hchange : isChange m = false) (hopen : b.openOps = bufferAfter a.openOps [] m)
      (hrel : relation? m = none) (hb : b.relations = a.relations ∧ b.viewRelIds = a.viewRelIds) :
      ∃ ops, Handled config a b m ops :=
    ⟨[], hops, by simp [hchange], hopen, by simp [hrel], fun _ => hb⟩
  cases m with
  | insert m => exact handled_change rfl rfl (fun _ _ => rfl) h
  | update m => exact handled_change rfl rfl (fun _ _ => rfl) h
  | delete m => exact handled_change rfl rfl (fun _ _ => rfl) h
  | truncate m => exact handled_change rfl rfl (fun _ _ => rfl) h
  | relation rel =>
    have hopen : a'.openOps = a.openOps := by
      obtain ⟨-, -, rfl⟩ | ⟨-, -, rfl⟩ := onRelation_ok.mp h <;> rfl
    refine ⟨[], rfl, by simp [isChange], ?_, fun rel' hrel => ?_, by simp [relation?]⟩
    · rw [hopen, bufferAfter_nil _ (by simp) (by simp)]
    · cases hrel
      exact h
  | begin m =>
    cases h
    exact hframe rfl rfl rfl rfl ⟨rfl, rfl⟩
  | commit m =>
    cases h
    exact hframe rfl rfl rfl rfl ⟨rfl, rfl⟩
  | origin m =>
    cases h
    exact hframe rfl rfl (bufferAfter_nil _ (by simp) (by simp)).symm rfl ⟨rfl, rfl⟩
  | typeInfo m =>
    cases h
    exact hframe rfl rfl (bufferAfter_nil _ (by simp) (by simp)).symm rfl ⟨rfl, rfl⟩

/-! ### A run of messages -/

def assembleAll (config : Config) (a : Assembly F) (ms : List Message) :
    Except Error (Assembly F) :=
  ms.foldlM (assemble config) a

theorem assembleAll_append {config : Config} {a c : Assembly F} {ms ms' : List Message} :
    assembleAll config a (ms ++ ms') = .ok c ↔
      ∃ b, assembleAll config a ms = .ok b ∧ assembleAll config b ms' = .ok c :=
  Except.foldlM_append_eq_ok

theorem assembleAll_cons {config : Config} {a c : Assembly F} {m : Message} {ms : List Message} :
    assembleAll config a (m :: ms) = .ok c ↔
      ∃ b, assemble config a m = .ok b ∧ assembleAll config b ms = .ok c := by
  rw [assembleAll, List.foldlM_cons, Except.bind_eq_ok]
  rfl

def announced (ms : List Message) : List Relation := ms.filterMap relation?

def latest (ms : List Message) (relId : ℕ) : Option Relation :=
  ((announced ms).filter fun rel => rel.relId = relId).getLast?

def Resolved (config : Config) (ms : List Message) (relId : ℕ) : Prop :=
  ∃ rel ∈ announced ms, rel.relId = relId ∧ viewsOf config rel ≠ []

theorem announced_concat_relation {ms : List Message} {m : Message} {rel : Relation}
    (h : relation? m = some rel) : announced (ms ++ [m]) = announced ms ++ [rel] := by
  simp [announced, h]

theorem announced_concat {ms : List Message} {m : Message} (h : relation? m = none) :
    announced (ms ++ [m]) = announced ms := by
  simp [announced, h]

theorem latest_concat_relation {ms : List Message} {m : Message} {rel : Relation}
    (h : relation? m = some rel) (relId : ℕ) :
    latest (ms ++ [m]) relId = if rel.relId = relId then some rel else latest ms relId := by
  rw [latest, announced_concat_relation h, List.filter_append]
  split_ifs with hid <;> simp [hid, latest]

theorem latest_concat {ms : List Message} {m : Message} (h : relation? m = none) (relId : ℕ) :
    latest (ms ++ [m]) relId = latest ms relId := by
  rw [latest, announced_concat h, latest]

theorem resolved_concat_relation {config : Config} {ms : List Message} {m : Message}
    {rel : Relation} (h : relation? m = some rel) (relId : ℕ) : Resolved config (ms ++ [m]) relId ↔
      Resolved config ms relId ∨ (rel.relId = relId ∧ viewsOf config rel ≠ []) := by
  simp only [Resolved, announced_concat_relation h, List.mem_append,
    List.mem_singleton, or_and_right, exists_or, exists_eq_left]

theorem resolved_concat {config : Config} {ms : List Message} {m : Message} (h : relation? m = none)
    (relId : ℕ) : Resolved config (ms ++ [m]) relId ↔ Resolved config ms relId := by
  rw [Resolved, announced_concat h, Resolved]

/-- The state that the messages of a run leave, but for the buffer. An id that fed views still does,
and the cached columns suffice for the views. -/
structure Recorded (config : Config) (ms : List Message) (a : Assembly F) : Prop where
  relations : ∀ relId, Dict.get? a.relations relId = latest ms relId
  viewRelIds : ∀ relId, relId ∈ a.viewRelIds ↔ Resolved config ms relId
  resolves : ∀ relId, Resolved config ms relId →
    ∃ rel, latest ms relId = some rel ∧ viewsOf config rel ≠ []
  columns : ∀ relId rel, latest ms relId = some rel → ∀ view ∈ viewsOf config rel,
    missingColumns view (rel.columns.map Column.name) = []

omit [PyFloat F] in
theorem Recorded.onRelation {config : Config} {ms : List Message} {a a' : Assembly F} {m : Message}
    {rel : Relation} (h : Recorded config ms a) (hm : relation? m = some rel)
    (hrel : Daemon.onRelation config a rel = .ok a') : Recorded config (ms ++ [m]) a' := by
  have hrelations : ∀ relId, Dict.get? (a.relations.set rel.relId rel) relId =
      latest (ms ++ [m]) relId := by
    intro relId
    rw [Dict.get?_set, latest_concat_relation hm, h.relations]
  have hcolumns :
      (∀ view ∈ viewsOf config rel, missingColumns view (rel.columns.map Column.name) = []) →
      ∀ relId r, latest (ms ++ [m]) relId = some r → ∀ view ∈ viewsOf config r,
        missingColumns view (r.columns.map Column.name) = [] := by
    intro hnew relId r hr
    rw [latest_concat_relation hm] at hr
    split_ifs at hr
    · cases hr
      exact hnew
    · exact h.columns relId r hr
  obtain ⟨hnil, hid, rfl⟩ | ⟨hne, hcheck, rfl⟩ := onRelation_ok.mp hrel
  · refine ⟨hrelations, fun relId => ?_, fun relId hres => ?_, hcolumns (by simp [hnil])⟩
    · rw [resolved_concat_relation hm, h.viewRelIds, or_iff_left (fun hres => hres.2 hnil)]
    · rw [resolved_concat_relation hm, or_iff_left (fun hres => hres.2 hnil)] at hres
      have hother : rel.relId ≠ relId := fun heq => hid ((h.viewRelIds _).mpr (heq ▸ hres))
      rw [latest_concat_relation hm, if_neg hother]
      exact h.resolves relId hres
  · refine ⟨hrelations, fun relId => ?_, fun relId hres => ?_, hcolumns hcheck⟩
    · rw [resolved_concat_relation hm, List.mem_insert_iff, h.viewRelIds, or_comm, eq_comm]
      simp [hne]
    · rw [latest_concat_relation hm]
      split_ifs with heq
      · exact ⟨rel, rfl, hne⟩
      · rw [resolved_concat_relation hm, or_iff_left (fun hres => heq hres.1)] at hres
        exact h.resolves relId hres

theorem Recorded.step {config : Config} {ms : List Message} {a a' : Assembly F} {m : Message}
    (h : Recorded config ms a) (hm : assemble config a m = .ok a') :
    Recorded config (ms ++ [m]) a' := by
  obtain ⟨ops, hm⟩ := assemble_ok hm
  cases hrel : relation? m with
  | some rel => exact h.onRelation hrel (hm.relation rel hrel)
  | none =>
    obtain ⟨hrelations, hids⟩ := hm.frame hrel
    refine ⟨fun relId => ?_, fun relId => ?_, fun relId => ?_, fun relId rel => ?_⟩
    · rw [hrelations, latest_concat hrel, h.relations]
    · rw [hids, resolved_concat hrel, h.viewRelIds]
    · rw [latest_concat hrel, resolved_concat hrel]
      exact h.resolves relId
    · rw [latest_concat hrel]
      exact h.columns relId rel

omit [PyFloat F] in
theorem recorded_fresh (config : Config) : Recorded config [] (.fresh : Assembly F) :=
  ⟨fun _ => rfl, fun relId => by simp [Assembly.fresh, Resolved, announced],
    fun relId h => by simp [Resolved, announced] at h, fun relId rel h => by cases h⟩

theorem assembleAll_recorded {config : Config} {ms : List Message} {a : Assembly F}
    (h : assembleAll config .fresh ms = .ok a) : Recorded config ms a :=
  Except.foldlM_induction h (recorded_fresh config) fun _ _ _ _ h hm => h.step hm

/-! ### Renames -/

def Renames (config : Config) (ms : List Message) (rel' : Relation) : Prop :=
  ∃ rel ∈ announced ms, rel.relId = rel'.relId ∧ viewsOf config rel ≠ [] ∧
    (rel.ns, rel.name) ≠ (rel'.ns, rel'.name)

def TakesOver (config : Config) (rel : Relation) : Prop :=
  viewsOf config rel ≠ [] ∧
    ∀ view ∈ viewsOf config rel, missingColumns view (rel.columns.map Column.name) = []

/-- Every id keeps feeding the views it fed, and a Relation under another name raises. -/
structure KeepsViews (F : Type) [PyFloat F] (config : Config) (ms : List Message) : Prop where
  same : ∀ a : Assembly F, assembleAll config .fresh ms = .ok a → ∀ pre rel' post,
    ms = pre ++ .relation rel' :: post → ∀ rel ∈ announced pre, rel.relId = rel'.relId →
      viewsOf config rel ≠ [] → viewsOf config rel' = viewsOf config rel
  raises : ∀ pre rel' post, ms = pre ++ .relation rel' :: post → Renames config pre rel' →
    ∀ a : Assembly F, assembleAll config .fresh pre = .ok a →
      ∃ msg, assemble config a (.relation rel') = .error (.schemaDrift msg)

theorem renames_raises_iff {config : Config} {ms : List Message} {a : Assembly F}
    (h : assembleAll config .fresh ms = .ok a) {rel' : Relation} (hren : Renames config ms rel') :
    (∃ msg, assemble config a (.relation rel') = .error (.schemaDrift msg)) ↔
      ¬ TakesOver config rel' := by
  obtain ⟨rel, hrel, hid, hne, -⟩ := hren
  have hmem : rel'.relId ∈ a.viewRelIds :=
    ((assembleAll_recorded h).viewRelIds _).mpr ⟨rel, hrel, hid, hne⟩
  change (∃ msg, onRelation config a rel' = _) ↔ _
  constructor
  · rintro ⟨msg, hraise⟩ ⟨hviews, hcheck⟩
    rw [onRelation_ok.mpr (.inr ⟨hviews, hcheck, rfl⟩)] at hraise
    cases hraise
  · intro hnot
    cases hraise : onRelation config a rel' with
    | error e =>
      obtain ⟨msg, rfl⟩ := onRelation_error hraise
      exact ⟨msg, rfl⟩
    | ok a' =>
      obtain ⟨-, hnone, -⟩ | ⟨hviews, hcheck, -⟩ := onRelation_ok.mp hraise
      · exact absurd hmem hnone
      · exact absurd ⟨hviews, hcheck⟩ hnot

/-- A run keeps every relation on its views exactly if no id that fed views is announced again under
the name, and with the columns, of another configured table. -/
theorem keepsViews_iff (config : Config) (ms : List Message) :
    KeepsViews F config ms ↔ ∀ pre rel' post, ms = pre ++ .relation rel' :: post →
      (∃ a : Assembly F, assembleAll config .fresh pre = .ok a) → Renames config pre rel' →
        ¬ TakesOver config rel' := by
  constructor
  · rintro h pre rel' post hms ⟨a, ha⟩ hren
    exact (renames_raises_iff ha hren).mp (h.raises pre rel' post hms hren a ha)
  · intro h
    have hraises : ∀ pre rel' post, ms = pre ++ .relation rel' :: post → Renames config pre rel' →
        ∀ a : Assembly F, assembleAll config .fresh pre = .ok a →
          ∃ msg, assemble config a (.relation rel') = .error (.schemaDrift msg) :=
      fun pre rel' post hms hren a ha =>
        (renames_raises_iff ha hren).mpr (h pre rel' post hms ⟨a, ha⟩ hren)
    refine ⟨fun a ha pre rel' post hms rel hrel hid hne => ?_, hraises⟩
    rw [hms] at ha
    obtain ⟨b, hb, ha⟩ := assembleAll_append.mp ha
    obtain ⟨c, hc, -⟩ := assembleAll_cons.mp ha
    by_contra hviews
    have hname : (rel.ns, rel.name) ≠ (rel'.ns, rel'.name) := fun hname =>
      hviews (viewsOf_congr config hname.symm)
    obtain ⟨msg, hraise⟩ := hraises pre rel' post hms ⟨rel, hrel, hid, hne, hname⟩ b hb
    rw [hraise] at hc
    cases hc

def countsConfig : Config :=
  ⟨"walflux", "walflux", 200, 500,
    [⟨"a_rows", "public", "a", [], [⟨.count, none, "n"⟩]⟩,
      ⟨"b_rows", "public", "b", [], [⟨.count, none, "n"⟩]⟩]⟩

/-- Table 1 takes over the name of the other source; from then on its rows count there. -/
theorem swapped_table_feeds_other_view : ¬ KeepsViews Empty countsConfig
    [.relation ⟨1, "public", "a", 'f', []⟩, .relation ⟨1, "public", "b", 'f', []⟩] := by
  intro h
  have hrun : assembleAll (F := Empty) countsConfig .fresh
      [.relation ⟨1, "public", "a", 'f', []⟩, .relation ⟨1, "public", "b", 'f', []⟩] =
      .ok ⟨[(1, ⟨1, "public", "b", 'f', []⟩)], [1], none⟩ := rfl
  have hsame := h.same _ hrun [.relation ⟨1, "public", "a", 'f', []⟩]
    ⟨1, "public", "b", 'f', []⟩ [] rfl
    ⟨1, "public", "a", 'f', []⟩ (by decide) rfl (by decide)
  revert hsame
  decide

end WalFlux.Daemon
