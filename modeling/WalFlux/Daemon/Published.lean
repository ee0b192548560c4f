import WalFlux.Daemon.RowOps
import WalFlux.Publication

/-! The loop on what the publisher sends: it follows the publisher message by message, and seals the
source's transactions with the rows they changed. -/

namespace WalFlux.Daemon

open Aggregates Protocol Python

variable {F : Type} [PyFloat F] {config : Config} {tables : Set PublishedTable}

/-! ### Rows -/

theorem decodeCell_field {c : WireColumn} {d : SourceField F} (h : FieldOf c d) :
    decodeCell c.column d.cell = .ok d.value := by
  cases d with
  | none => rfl
  | some d => exact convertValue_output (h.typed d rfl)

theorem decodeRow_go {columns : List WireColumn} {pairs : List (ColumnValue × Value F)}
    (h : List.Forall₂ (fun c p => decodeCell (WireColumn.column c) p.1 = .ok p.2) columns pairs)
    {row : Row F} (hdistinct : (Dict.keys row ++ columns.map WireColumn.name).Nodup) :
    decodeRow.go (columns.map WireColumn.column) (pairs.map Prod.fst) row =
      .ok (row ++ (columns.map WireColumn.name).zip (pairs.map Prod.snd)) := by
  induction h generalizing row with
  | nil =>
    rw [List.map_nil, List.map_nil, List.map_nil, List.zip_nil_left, List.append_nil]
    rfl
  | @cons c p columns pairs hcell _ ih =>
    have hnew : c.name ∉ Dict.keys row := fun hmem =>
      (List.nodup_append.mp hdistinct).2.2 _ hmem _ List.mem_cons_self rfl
    have hset : Dict.set row c.name p.2 = row ++ [(c.name, p.2)] := Dict.set_of_not_mem hnew p.2
    have hkeys : (Dict.keys (row ++ [(c.name, p.2)]) ++ columns.map WireColumn.name).Nodup := by
      simpa [Dict.keys, List.append_assoc] using hdistinct
    have hrest := ih hkeys
    rw [List.map_cons, List.map_cons, decodeRow.go, hcell]
    change decodeRow.go _ _ (Dict.set row c.name p.2) = _
    rw [hset, hrest, List.append_assoc]
    rfl

theorem decodeRow_map {α : Type} {t : PublishedTable} {fields : List α} (cell : α → ColumnValue)
    (value : α → Value F) (hlen : t.columns.length = fields.length)
    (h : ∀ p ∈ t.columns.zip fields, decodeCell p.1.column (cell p.2) = .ok (value p.2)) :
    decodeRow t.relation.columns (fields.map cell) = .ok (t.names.zip (fields.map value)) := by
  have hpairs : List.Forall₂ (fun c p => decodeCell (WireColumn.column c) p.1 = .ok p.2) t.columns
      (fields.map fun a => (cell a, value a)) := by
    rw [List.forall₂_map_right_iff, List.forall₂_iff_zip]
    exact ⟨hlen, fun {c a} hmem => h (c, a) hmem⟩
  have hdistinct : (Dict.keys ([] : Row F) ++ t.columns.map WireColumn.name).Nodup := t.distinct
  have hgo := decodeRow_go hpairs hdistinct
  rwa [List.map_map, List.map_map] at hgo

theorem decodeRow_data {t : PublishedTable} (r : SourceRow F t) :
    decodeRow t.relation.columns r.data = .ok r.row := by
  obtain ⟨hlen, hfields⟩ := List.forall₂_iff_zip.mp r.typed
  exact decodeRow_map _ _ hlen fun p hp => decodeCell_field (hfields hp)

def sentValue : FieldUpdate F → Value F
  | .stored _ new => new.value
  | .kept _ => .unchangedToast

theorem decodeRow_update {t : PublishedTable} (u : SourceUpdate F t) :
    decodeRow t.relation.columns u.data = .ok (t.names.zip (u.fields.map sentValue)) := by
  obtain ⟨hlen, hfields⟩ := List.forall₂_iff_zip.mp (List.forall₂_map_right_iff.mp u.newTyped)
  refine decodeRow_map _ _ hlen fun p hp => ?_
  obtain ⟨c, f⟩ := p
  cases f with
  | kept d => rfl
  | stored old new => exact decodeCell_field (hfields hp)

theorem fillUnchanged_update {t : PublishedTable} (u : SourceUpdate F t) :
    fillUnchanged u.old.row (t.names.zip (u.fields.map sentValue)) = .ok u.new.row := by
  have hlen : t.names.length = u.fields.length := by
    rw [PublishedTable.names, List.length_map, u.oldTyped.length_eq, List.length_map]
  have hkeys : (Dict.keys u.old.row).Nodup := by
    have hnames : Dict.keys u.old.row = t.names := by
      refine List.map_fst_zip ?_
      simp [SourceUpdate.old, hlen]
    rw [hnames]
    exact t.distinct
  have hold : ∀ name f, (name, f) ∈ t.names.zip u.fields →
      Row.index u.old.row name = .ok f.old.value := by
    intro name f hmem
    have hrow : (name, f.old.value) ∈ u.old.row := by
      rw [SourceRow.row, SourceUpdate.old, List.map_map, List.zip_map_right]
      exact List.mem_map.mpr ⟨(name, f), hmem, rfl⟩
    rw [Row.index, Dict.get?_eq_some_of_mem hkeys hrow]
  have hnew : u.new.row = t.names.zip (u.fields.map (SourceField.value ∘ FieldUpdate.new)) := by
    rw [SourceRow.row, SourceUpdate.new, List.map_map]
  rw [hnew, fillUnchanged, Except.mapM_eq_ok, List.zip_map_right, List.zip_map_right,
    List.forall₂_map_left_iff, List.forall₂_map_right_iff, List.forall₂_same]
  rintro ⟨name, f⟩ hmem
  cases f with
  | kept d =>
    change (do return (name, ← u.old.row.index name)) = _
    rw [hold name _ hmem]
    rfl
  | stored old new =>
    cases new with
    | none => rfl
    | some d => cases d <;> rfl

/-! ### Changes -/

theorem viewsOf_relation (config : Config) (t : PublishedTable) :
    viewsOf config t.relation = t.views config := viewsOf_eq_filter config t.relation

theorem rowOps_change {a : Assembly F} (c : Change F)
    (hknown : ∀ t ∈ c.tables, Dict.get? a.relations t.relId = some t.relation) :
    rowOps config a c.wire.message = .ok (c.ops config) := by
  have hrel : ∀ t ∈ c.tables, relationOf a t.relId = .ok t.relation := fun t ht => by
    rw [relationOf, hknown t ht]
  cases c with
  | insert t new =>
    change insertOps config a ⟨t.relId, new.data⟩ = _
    rw [insertOps, hrel t (List.mem_singleton_self t), Change.ops, ← viewsOf_relation]
    dsimp only [bind, Except.bind]
    split_ifs with hviews
    · rw [hviews]
      rfl
    · rw [decodeRow_data]
      rfl
  | update t u =>
    change updateOps config a ⟨t.relId, some u.old.data, none, u.data⟩ = _
    rw [updateOps, hrel t (List.mem_singleton_self t), Change.ops, ← viewsOf_relation]
    dsimp only [bind, Except.bind]
    split_ifs with hviews
    · rw [hviews]
      rfl
    · rw [decodeRow_data]
      dsimp only
      rw [decodeRow_update]
      dsimp only
      rw [fillUnchanged_update]
      rfl
  | delete t old =>
    change deleteOps config a ⟨t.relId, some old.data, none⟩ = _
    rw [deleteOps, hrel t (List.mem_singleton_self t), Change.ops, ← viewsOf_relation]
    dsimp only [bind, Except.bind]
    split_ifs with hviews
    · rw [hviews]
      rfl
    · rw [decodeRow_data]
      rfl
  | truncate ts =>
    change Except.ok (truncateOps config a (ts.tables.map PublishedTable.relId)) = _
    rw [truncateOps, List.flatMap_map, Change.ops]
    congr 1
    refine List.flatMap_congr fun t ht => ?_
    rw [hknown t ht]
    dsimp only
    rw [viewsOf_relation]

theorem assemble_change {a : Assembly F} {buffered new : List (Op F)} (c : Change F)
    (hopen : a.openOps = some buffered) (hnew : rowOps config a c.wire.message = .ok new) :
    assemble config a c.wire.message = .ok { a with openOps := some (buffered ++ new) } := by
  have hextend : ∀ kind : String, extendOpen a kind (rowOps config a c.wire.message) =
      .ok { a with openOps := some (buffered ++ new) } := by
    intro kind
    rw [extendOpen, hopen, hnew]
    rfl
  cases c with
  | insert t new => exact hextend "Insert"
  | update t u => exact hextend "Update"
  | delete t old => exact hextend "Delete"
  | truncate ts => exact hextend "Truncate"

/-! ### The daemon beside the publisher -/

structure Assembled (config : Config) (w : Publisher F) (a : Assembly F) : Prop where
  relations : ∀ id, Dict.get? a.relations id = (w.known id).map PublishedTable.relation
  openOps : a.openOps = w.current.map fun changes => changes.flatMap (Change.ops config)

/-- In all their versions the tables have the columns the views on them need, and an id that feeds
views goes on feeding some. -/
structure Compatible (config : Config) (tables : Set PublishedTable) : Prop where
  columns : ∀ t ∈ tables, ∀ view ∈ t.views config, ∀ c ∈ requiredColumns view, c ∈ t.names
  feeding : ∀ t ∈ tables, ∀ t' ∈ tables, t.relId = t'.relId → t.views config ≠ [] →
    t'.views config ≠ []

structure Noted (config : Config) (tables : Set PublishedTable) (w : Publisher F) (a : Assembly F) :
    Prop where
  known : ∀ id t, w.known id = some t → t ∈ tables ∧ t.relId = id
  viewRelIds : ∀ id ∈ a.viewRelIds, ∃ t, w.known id = some t ∧ t.views config ≠ []

theorem assembled_fresh (config : Config) : Assembled config (.fresh : Publisher F) .fresh :=
  ⟨fun _ => rfl, rfl⟩

theorem noted_fresh (config : Config) (tables : Set PublishedTable) :
    Noted config tables (.fresh : Publisher F) .fresh :=
  ⟨fun _ _ h => (by cases h), fun _ h => (by cases h)⟩

theorem Assembled.announce {w : Publisher F} {a a' : Assembly F} {t : PublishedTable}
    (h : Assembled config w a) (ht : onRelation config a t.relation = .ok a') :
    Assembled config (w.announce t) a' := by
  have hknown : ∀ id, Dict.get? (a.relations.set t.relId t.relation) id =
      ((w.announce t).known id).map PublishedTable.relation := by
    intro id
    rw [Dict.get?_set]
    split_ifs with hid
    · rw [← hid, w.announce_known_self]
      rfl
    · rw [w.announce_known_of_ne (Ne.symm hid), h.relations]
  obtain ⟨-, -, rfl⟩ | ⟨-, -, rfl⟩ := onRelation_ok.mp ht
  · exact ⟨hknown, h.openOps⟩
  · exact ⟨hknown, h.openOps⟩

theorem Assembled.step {w w' : Publisher F} {a : Assembly F} {m : Wire} (h : Assembled config w a)
    (hsends : w.Sends tables m w') :
    (∃ a', assemble config a m.message = .ok a' ∧ Assembled config w' a') ∨
      ∃ t ∈ tables, m = t.wire ∧ ∃ e, onRelation config a t.relation = .error e := by
  cases hsends with
  | begin => exact .inl ⟨_, rfl, h.relations, rfl⟩
  | origin hsome => exact .inl ⟨_, rfl, h⟩
  | type hsome => exact .inl ⟨_, rfl, h⟩
  | commit => exact .inl ⟨_, rfl, h.relations, rfl⟩
  | @announce t hsome ht =>
    cases hrel : onRelation config a t.relation with
    | ok a' => exact .inl ⟨a', hrel, h.announce hrel⟩
    | error e => exact .inr ⟨t, ht, rfl, e, hrel⟩
  | @change c changes hcurrent hknown =>
    have hopen : a.openOps = some (changes.flatMap (Change.ops config)) := by
      rw [h.openOps, hcurrent, Option.map_some]
    have hops : rowOps config a c.wire.message = .ok (c.ops config) :=
      rowOps_change c fun t ht => by rw [h.relations, hknown t ht, Option.map_some]
    refine .inl ⟨_, assemble_change c hopen hops, h.relations, ?_⟩
    simp only [Option.map_some, List.flatMap_append, List.flatMap_cons, List.flatMap_nil,
      List.append_nil]

theorem Noted.onRelation {w : Publisher F} {a : Assembly F} {t : PublishedTable}
    (hcompatible : Compatible config tables) (h : Noted config tables w a) (ht : t ∈ tables) :
    ∃ a', onRelation config a t.relation = .ok a' ∧ Noted config tables (w.announce t) a' := by
  have hknown : ∀ id u, (w.announce t).known id = some u → u ∈ tables ∧ u.relId = id := by
    intro id u hu
    by_cases hid : id = t.relId
    · rw [hid, w.announce_known_self] at hu
      cases hu
      exact ⟨ht, hid.symm⟩
    · rw [w.announce_known_of_ne hid] at hu
      exact h.known id u hu
  have hother : ∀ id ≠ t.relId, id ∈ a.viewRelIds →
      ∃ u, (w.announce t).known id = some u ∧ u.views config ≠ [] := by
    intro id hid hmem
    rw [w.announce_known_of_ne hid]
    exact h.viewRelIds id hmem
  have hof := viewsOf_relation config t
  by_cases hviews : t.views config = []
  · have hnew : t.relId ∉ a.viewRelIds := by
      intro hmem
      obtain ⟨u, hu, hfeeds⟩ := h.viewRelIds _ hmem
      obtain ⟨humem, hid⟩ := h.known _ _ hu
      exact hcompatible.feeding u humem t ht hid hfeeds hviews
    refine ⟨_, onRelation_ok.mpr (.inl ⟨hof ▸ hviews, hnew, rfl⟩), hknown, fun id hid => ?_⟩
    exact hother id (fun heq => hnew (heq ▸ hid)) hid
  · have hcolumns : ∀ view ∈ viewsOf config t.relation,
        missingColumns view (t.relation.columns.map Column.name) = [] := by
      intro view hview
      have hnames : t.relation.columns.map Column.name = t.names := by
        rw [PublishedTable.relation, List.map_map]
        rfl
      rw [missingColumns_eq_nil, hnames]
      exact hcompatible.columns t ht view (hof ▸ hview)
    refine ⟨_, onRelation_ok.mpr (.inr ⟨hof ▸ hviews, hcolumns, rfl⟩), hknown, fun id hid => ?_⟩
    rcases List.mem_insert_iff.mp hid with rfl | hid
    · exact ⟨t, w.announce_known_self t, hviews⟩
    · by_cases heq : id = t.relId
      · exact heq ▸ ⟨t, w.announce_known_self t, hviews⟩
      · exact hother id heq hid

theorem Noted.step {w w' : Publisher F} {a : Assembly F} {m : Wire}
    (hcompatible : Compatible config tables) (h : Assembled config w a)
    (hnoted : Noted config tables w a) (hsends : w.Sends tables m w') :
    ∃ a', assemble config a m.message = .ok a' ∧ Assembled config w' a' ∧
      Noted config tables w' a' := by
  obtain ⟨a', ha', hassembled⟩ | ⟨t, ht, rfl, e, he⟩ := h.step hsends
  · refine ⟨a', ha', hassembled, ?_⟩
    cases hsends with
    | @announce t hsome ht =>
      obtain ⟨a'', ha'', hnoted'⟩ := hnoted.onRelation hcompatible ht
      cases ha'.symm.trans ha''
      exact hnoted'
    | @change c changes hcurrent hknown =>
      obtain ⟨ops, hops⟩ := assemble_ok ha'
      have hframe := hops.frame (by cases c <;> rfl)
      exact ⟨hnoted.known, hframe.2 ▸ hnoted.viewRelIds⟩
    | _ =>
      cases ha'
      exact ⟨hnoted.known, hnoted.viewRelIds⟩
  · obtain ⟨a'', ha'', -⟩ := hnoted.onRelation hcompatible ht
    cases he.symm.trans ha''

/-! ### The loop beside the publisher -/

/-- What was handed to flushes and what is pending are the transactions sent above the checkpoint
the daemon started at. -/
structure Following (config : Config) (tables : Set PublishedTable) (checkpoint : ℕ)
    (w : Publisher F) (s : Loop F × List (SealedTxn F)) : Prop where
  assembled : Assembled config w s.1.assembly
  noted : Noted config tables w s.1.assembly
  sealed_eq : s.2 ++ s.1.pending =
    (w.sent.map (SourceTxn.sealed config)).filter fun t => checkpoint < t.endLsn
  reached : s.1.checkpointLsn = checkpoint ∨
    checkpoint < s.1.checkpointLsn ∧ ∃ t ∈ w.sent, t.endLsn = s.1.checkpointLsn
  timed : s.1.pending ≠ [] → s.1.oldest.isSome

theorem following_init (config : Config) (tables : Set PublishedTable) (checkpoint : ℕ) :
    Following config tables checkpoint (.fresh : Publisher F) (.init checkpoint, []) :=
  ⟨assembled_fresh config, noted_fresh config tables, rfl, .inl rfl, fun h => absurd rfl h⟩

theorem Following.flush {checkpoint : ℕ} {w : Publisher F} {l : Loop F}
    {handed : List (SealedTxn F)} (h : Following config tables checkpoint w (l, handed)) :
    Following config tables checkpoint w (l.flush.1, handed ++ l.flush.2) := by
  unfold Loop.flush
  cases hlast : l.pending.getLast? with
  | none =>
    dsimp only
    rwa [List.append_nil]
  | some t =>
    have hmem : t ∈ handed ++ l.pending := List.mem_append_right _ (List.mem_of_getLast? hlast)
    rw [h.sealed_eq, List.mem_filter, decide_eq_true_iff] at hmem
    obtain ⟨hsent, habove⟩ := hmem
    obtain ⟨u, hu, rfl⟩ := List.mem_map.mp hsent
    refine ⟨h.assembled, h.noted, ?_, .inr ⟨habove, u, hu, rfl⟩, fun hne => absurd rfl hne⟩
    dsimp only [Loop.flushed]
    rw [List.append_nil, h.sealed_eq]

omit [PyFloat F] in
theorem Loop.due_ok (config : Config) {l : Loop F} (h : l.pending ≠ [] → l.oldest.isSome)
    (now : ℚ) :
    ∃ due, l.due config now = .ok due := by
  unfold Loop.due
  split_ifs with hnil
  · exact ⟨_, rfl⟩
  · exact ⟨_, rfl⟩
  · obtain ⟨oldest, holdest⟩ := Option.isSome_iff_exists.mp (h hnil)
    rw [holdest]
    exact ⟨_, rfl⟩

theorem Following.checkpoint_lt_iff {checkpoint : ℕ} {w : Publisher F} {l : Loop F}
    {handed : List (SealedTxn F)} (h : Following config tables checkpoint w (l, handed))
    {t : SourceTxn F} (hnewer : ∀ u ∈ w.sent, u.endLsn < t.endLsn) : l.checkpointLsn < t.endLsn ↔
      checkpoint < t.endLsn := by
  rcases h.reached with heq | ⟨hlt, u, hu, heq⟩
  · rw [heq]
  · have hbelow : l.checkpointLsn < t.endLsn := heq ▸ hnewer u hu
    exact ⟨fun _ => hlt.trans hbelow, fun _ => hbelow⟩

theorem Following.handle {checkpoint : ℕ} {w w' : Publisher F} {l : Loop F}
    {handed : List (SealedTxn F)} {m : Wire} (hcompatible : Compatible config tables)
    (h : Following config tables checkpoint w (l, handed)) (hsends : w.Sends tables m w')
    (hincreasing : (w'.sent.map SourceTxn.endLsn).Pairwise (· < ·)) (now : ℚ) :
    ∃ l', l.handle config m.message now = .ok l' ∧
      Following config tables checkpoint w' (l', handed) := by
  obtain ⟨a', ha', hassembled, hnoted⟩ := h.noted.step hcompatible h.assembled hsends
  have hother (hcommit : ∀ c, m.message ≠ .commit c) (hsent : w'.sent = w.sent) :
      ∃ l', l.handle config m.message now = .ok l' ∧
        Following config tables checkpoint w' (l', handed) := by
    refine ⟨{ l with assembly := a' }, ?_, hassembled, hnoted, ?_, ?_, h.timed⟩
    · unfold Loop.handle
      rw [ha']
      cases hm : m.message with
      | commit c => exact absurd hm (hcommit c)
      | _ => rfl
    · rw [hsent]
      exact h.sealed_eq
    · rw [hsent]
      exact h.reached
  cases hsends with
  | begin => exact hother (fun c hc => by cases hc) rfl
  | announce => exact hother (fun c hc => by cases hc) rfl
  | origin => exact hother (fun c hc => by cases hc) rfl
  | type => exact hother (fun c hc => by cases hc) rfl
  | @change c => exact hother (fun d hd => by cases c <;> cases hd) rfl
  -- the only message that seals; its position is above all earlier ones
  | @commit flags commitLsn commitTs t hcurrent =>
    have hnewer : ∀ u ∈ w.sent, u.endLsn < t.endLsn := by
      rw [List.map_append, List.pairwise_append] at hincreasing
      intro u hu
      exact hincreasing.2.2 _ (List.mem_map_of_mem hu) _ (List.mem_singleton_self _)
    have hops : l.assembly.openOps.getD [] = t.changes.flatMap (Change.ops config) := by
      rw [h.assembled.openOps, hcurrent]
      rfl
    have hreached : l.checkpointLsn = checkpoint ∨
        checkpoint < l.checkpointLsn ∧ ∃ u ∈ w.sent ++ [t], u.endLsn = l.checkpointLsn :=
      h.reached.imp_right fun ⟨hlt, u, hu, heq⟩ => ⟨hlt, u, List.mem_append_left _ hu, heq⟩
    have hhandle : l.handle config (Wire.commit flags commitLsn t.endLsn commitTs).message now =
        .ok (if l.checkpointLsn < t.endLsn then
          { l with
            assembly := a'
            pending := l.pending ++ [t.sealed config]
            oldest := some (l.oldest.getD now) }
        else { l with assembly := a' }) := by
      unfold Loop.handle
      rw [ha', hops]
      change (if _ then _ else _) = _
      split_ifs <;> rfl
    refine ⟨_, hhandle, ?_⟩
    have hsealed : ((w.sent ++ [t]).map (SourceTxn.sealed config)).filter (fun t =>
      checkpoint < t.endLsn) =
        handed ++ l.pending ++ if checkpoint < t.endLsn then [t.sealed config] else [] := by
      rw [List.map_append, List.filter_append, ← h.sealed_eq]
      congr 1
      split_ifs with hlt <;> simp [SourceTxn.sealed, hlt]
    split_ifs with hlt
    · refine ⟨hassembled, hnoted, ?_, hreached, fun _ => rfl⟩
      rw [hsealed, if_pos ((h.checkpoint_lt_iff hnewer).mp hlt), List.append_assoc]
    · refine ⟨hassembled, hnoted, ?_, hreached, h.timed⟩
      rw [hsealed, if_neg (fun hlt' => hlt ((h.checkpoint_lt_iff hnewer).mpr hlt')),
        List.append_nil]

theorem Following.message {checkpoint : ℕ} {w w' : Publisher F} {s : Loop F × List (SealedTxn F)}
    {m : Wire} (hcompatible : Compatible config tables) (h : Following config tables checkpoint w s)
    (hsends : w.Sends tables m w') (hincreasing : (w'.sent.map SourceTxn.endLsn).Pairwise (· < ·))
    (now later : ℚ) : ∃ s', iterate config s (.message m.message now later) = .ok s' ∧
      Following config tables checkpoint w' s' := by
  obtain ⟨l, handed⟩ := s
  obtain ⟨l', hl', hfollowing⟩ := h.handle hcompatible hsends hincreasing now
  obtain ⟨due, hdue⟩ := Loop.due_ok config hfollowing.timed later
  dsimp only [iterate]
  rw [hl']
  change ∃ s', (l'.due config later >>= _) = _ ∧ _
  rw [hdue]
  cases due with
  | true => exact ⟨_, rfl, hfollowing.flush⟩
  | false => exact ⟨_, rfl, hfollowing⟩

theorem sent_le_sent {w w' : Publisher F} {ms : List Wire} (h : Publisher.SendsAll tables w ms w') :
    w.sent <+: w'.sent := by
  induction h with
  | nil => exact List.prefix_rfl
  | cons hsends _ ih =>
    refine List.IsPrefix.trans ?_ ih
    cases hsends with
    | commit => exact List.prefix_append _ _
    | _ => exact List.prefix_rfl

theorem Following.run {checkpoint : ℕ} {w w' : Publisher F} {s : Loop F × List (SealedTxn F)}
    {ms : List Wire} (hcompatible : Compatible config tables)
    (h : Following config tables checkpoint w s) (hsends : Publisher.SendsAll tables w ms w')
    (hincreasing : (w'.sent.map SourceTxn.endLsn).Pairwise (· < ·)) {items : List Item}
    (hitems : messages items = ms.map Wire.message) :
    ∃ s', items.foldlM (iterate config) s = .ok s' ∧ Following config tables checkpoint w' s' := by
  induction items generalizing w s ms with
  | nil =>
    cases hsends with
    | nil => exact ⟨s, rfl, h⟩
    | cons => cases hitems
  | cons item items ih =>
    cases item with
    | wake => exact ih (s := (s.1.flush.1, s.2 ++ s.1.flush.2)) h.flush hsends hitems
    | message m now later =>
      cases hsends with
      | nil => cases hitems
      | cons hfirst hrest =>
        obtain ⟨rfl, hlater⟩ := List.cons.inj hitems
        have hsublist := ((sent_le_sent hrest).map SourceTxn.endLsn).sublist
        obtain ⟨s', hs', hfollowing⟩ := h.message hcompatible hfirst
          (hincreasing.sublist hsublist) now later
        obtain ⟨s'', hs'', hfollowing'⟩ := ih hfollowing hrest hlater
        refine ⟨s'', ?_, hfollowing'⟩
        rw [List.foldlM_cons, hs']
        exact hs''

/-- Whatever a source with compatible tables commits and however the publisher cuts it into
messages, the loop raises on none of them; it seals exactly the transactions above its checkpoint,
in order, each with the ops of all its changes: the rows as the source had them, to the last digit,
with the values that were not sent filled in. -/
theorem published_sealed (hcompatible : Compatible config tables) {w : Publisher F} {ms : List Wire}
    (hsends : Publisher.SendsAll tables .fresh ms w)
    (hincreasing : (w.sent.map SourceTxn.endLsn).Pairwise (· < ·)) (checkpoint : ℕ)
    {items : List Item} (hitems : (messages items).map Except.ok = ms.map fun m =>
      decodeMessage (encodeMessage m)) :
    ∃ l handed, loop config checkpoint items = .ok (l, handed) ∧
      handed ++ l.pending =
        (w.sent.map (SourceTxn.sealed config)).filter (fun t => checkpoint < t.endLsn) ∧
      l.assembly.openOps = w.current.map fun changes => changes.flatMap (Change.ops config) := by
  have hmessages : messages items = ms.map Wire.message := by
    refine List.map_injective_iff.mpr (fun _ _ => Except.ok.inj) (hitems.trans ?_)
    rw [List.map_map]
    exact List.map_congr_left fun m hm => hsends.decodes m hm
  obtain ⟨⟨l, handed⟩, hrun, hfollowing⟩ :=
    (following_init config tables checkpoint).run hcompatible hsends hincreasing hmessages
  exact ⟨l, handed, hrun, hfollowing.sealed_eq, hfollowing.assembled.openOps⟩

/-! Orders, with the status stored out of line, and their totals by status. -/

def ordersTable : PublishedTable where
  relId := 1
  ns := "public"
  name := "orders"
  columns := [⟨1, "status", 25, -1⟩, ⟨0, "amount", numericOid, -1⟩]
  distinct := by decide
  fits := by
    refine ⟨by decide, by decide +kernel, by decide +kernel, by decide, by decide, ?_⟩
    rw [List.forall_mem_cons, List.forall_mem_singleton]
    exact ⟨⟨by decide, by decide +kernel, by decide, by decide⟩,
      ⟨by decide, by decide +kernel, by decide, by decide⟩⟩

theorem ordersField_status (s : String) (h : (Bytes.encodeUtf8 s).length < 2 ^ 31) :
    FieldOf (F := Empty) ⟨1, "status", 25, -1⟩ (some (.text s)) :=
  ⟨fun x hx => by cases hx; exact ⟨by decide, by decide, by decide, by decide⟩, h⟩

theorem ordersField_amount (coeff : ℤ) (scale : ℕ)
    (h : (Bytes.encodeUtf8 (Datum.numeric (F := Empty) coeff scale).output).length < 2 ^ 31) :
    FieldOf (F := Empty) ⟨0, "amount", numericOid, -1⟩ (some (.numeric coeff scale)) :=
  ⟨fun x hx => by cases hx; rfl, h⟩

def ordersUpdate : SourceUpdate Empty ordersTable where
  fields := [.kept (some (.text "open")), .stored (some (.numeric 150 2)) (some (.numeric 200 2))]
  oldTyped := .cons (ordersField_status _ (by decide +kernel))
    (.cons (ordersField_amount _ _ (by decide +kernel)) .nil)
  newTyped := .cons (ordersField_status _ (by decide +kernel))
    (.cons (ordersField_amount _ _ (by decide +kernel)) .nil)

def ordersTxn : SourceTxn Empty := ⟨20, [.update ordersTable ordersUpdate], by decide⟩

def ordersMessages : List Wire :=
  [.begin 20 .epoch 7, ordersTable.wire, (Change.update ordersTable ordersUpdate).wire,
    .commit 0 20 20 .epoch]

theorem ordersTable_compatible : Compatible ordersConfig {ordersTable} := by
  constructor
  · rintro t rfl
    decide +kernel
  · rintro t rfl t' rfl - h
    exact h

theorem ordersMessages_sent :
    Publisher.SendsAll {ordersTable} .fresh ordersMessages
      ⟨Function.update (fun _ => none) 1 (some ordersTable), [ordersTxn], none⟩ := by
  refine .cons (.begin rfl ⟨by decide, by decide⟩) (.cons (.announce rfl rfl) ?_)
  refine .cons (.change rfl ?_) (.cons (.commit (t := ordersTxn) rfl
    ⟨by decide, by decide, by decide⟩) (.nil _))
  exact List.forall_mem_singleton.mpr (Publisher.announce_known_self _ _)

theorem published_sealed_orders : ∃ l handed, loop (F := Empty) ordersConfig 10
      (ordersMessages.map fun m => .message m.message 0 0) = .ok (l, handed) ∧
    handed ++ l.pending = [⟨20, [.update "order_totals"
      [("status", .str "open"), ("amount", .decimal (.finite ⟨150, -2⟩))]
      [("status", .str "open"), ("amount", .decimal (.finite ⟨200, -2⟩))]]⟩] := by
  have hitems : (messages (ordersMessages.map fun m => .message m.message 0 0)).map Except.ok =
      ordersMessages.map fun m => decodeMessage (encodeMessage m) :=
    List.map_congr_left (l := ordersMessages) fun m hm => (ordersMessages_sent.decodes m hm).symm
  obtain ⟨l, handed, hrun, hsealed, -⟩ := published_sealed ordersTable_compatible
    ordersMessages_sent (List.pairwise_singleton _ _) 10 hitems
  exact ⟨l, handed, hrun, hsealed⟩

end WalFlux.Daemon
