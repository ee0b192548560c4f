import WalFlux.Daemon.Relations

/-! A daemon that resumes after a restart: the server announces each relation anew before its first
change, and only then does the new daemon know which views the relation fed. -/

namespace WalFlux.Daemon

open Aggregates Protocol Python

/-! ### The stream of a new connection -/

def mentioned (m : Message) : List ℕ := changed m ++ ((relation? m).map Relation.relId).toList

def Mentioned (ms : List Message) : Set ℕ := {id | ∃ m ∈ ms, id ∈ mentioned m}

/-- What a connection sends for the messages of the log after `past`, having gone through `sent`: a
relation is announced, as it was last, before its first change on this connection. -/
def reannounce (past : List Message) : List Message → List Message → List Message
  | _, [] => []
  | sent, m :: ms =>
    let due := (changed m).dedup.filter fun id => ∀ m' ∈ sent, id ∉ mentioned m'
    (due.filterMap (latest (past ++ sent))).map .relation ++ m :: reannounce past (sent ++ [m]) ms

theorem reannounce_append (past sent ms ms' : List Message) :
    reannounce past sent (ms ++ ms') =
      reannounce past sent ms ++ reannounce past (sent ++ ms) ms' := by
  induction ms generalizing sent with
  | nil => simp [reannounce]
  | cons m ms ih => simp [reannounce, ih]

theorem mentioned_concat (ms : List Message) (m : Message) :
    Mentioned (ms ++ [m]) = Mentioned ms ∪ {id | id ∈ mentioned m} := by
  ext id
  simp [Mentioned, or_and_right, exists_or]

/-! ### The resumed run beside the uninterrupted one -/

variable {F : Type}

/-- On the ids `known` to the resumed daemon its cache is that of the uninterrupted one, and so are
the ids that fed views. -/
structure Resumed (known : Set ℕ) (s c : Assembly F) : Prop where
  openOps : c.openOps = s.openOps
  relations : ∀ id ∈ known, Dict.get? c.relations id = Dict.get? s.relations id
  unknown : ∀ id ∉ known, Dict.get? c.relations id = none
  viewRelIds : ∀ id, id ∈ c.viewRelIds ↔ id ∈ known ∧ id ∈ s.viewRelIds

theorem resumed_fresh {s : Assembly F} (h : s.openOps = none) : Resumed ∅ s .fresh :=
  ⟨h.symm, fun _ h => (by cases h), fun _ _ => rfl, by simp [Assembly.fresh]⟩

theorem latest_eq_some {ms : List Message} {id : ℕ} {rel : Relation} (h : latest ms id = some rel) :
    rel ∈ announced ms ∧ rel.relId = id := by
  have hmem := List.mem_of_getLast? h
  rw [List.mem_filter, decide_eq_true_iff] at hmem
  exact hmem

variable {config : Config} {past ms : List Message} {s s' c : Assembly F} {known : Set ℕ}

theorem Resumed.relation {rel : Relation} (h : Resumed known s c)
    (hrel : onRelation config s rel = .ok s') :
    ∃ c', onRelation config c rel = .ok c' ∧ Resumed (insert rel.relId known) s' c' := by
  have hcache : ∀ id ∈ insert rel.relId known,
      Dict.get? (c.relations.set rel.relId rel) id = Dict.get?
          (s.relations.set rel.relId rel) id := by
    intro id hid
    rw [Dict.get?_set, Dict.get?_set]
    split_ifs with heq
    · rfl
    · exact h.relations id (hid.resolve_left fun e => heq e.symm)
  have hunknown : ∀ id ∉ insert rel.relId known,
      Dict.get? (c.relations.set rel.relId rel) id = none := by
    intro id hid
    rw [Set.mem_insert_iff, not_or] at hid
    rw [Dict.get?_set_ne _ _ (Ne.symm hid.1)]
    exact h.unknown id hid.2
  obtain ⟨hnil, hnot, rfl⟩ | ⟨hne, hcheck, rfl⟩ := onRelation_ok.mp hrel
  · have hc : rel.relId ∉ c.viewRelIds := fun hmem => hnot ((h.viewRelIds _).mp hmem).2
    refine ⟨_, onRelation_ok.mpr (.inl ⟨hnil, hc, rfl⟩), h.openOps, hcache, hunknown, fun id => ?_⟩
    rw [h.viewRelIds, Set.mem_insert_iff]
    refine ⟨fun hmem => ⟨.inr hmem.1, hmem.2⟩, fun hmem => ⟨hmem.1.resolve_left ?_, hmem.2⟩⟩
    rintro rfl
    exact hnot hmem.2
  · refine ⟨_, onRelation_ok.mpr (.inr ⟨hne, hcheck, rfl⟩), h.openOps, hcache,
      hunknown, fun id => ?_⟩
    simp only [List.mem_insert_iff, h.viewRelIds, Set.mem_insert_iff]
    rw [← or_and_left]

theorem announced_again (hs : Recorded config past s) {id : ℕ} {rel : Relation}
    (hrel : latest past id = some rel) : ∃ s', onRelation config s rel = .ok s' ∧
      s'.openOps = s.openOps ∧ (∀ id', Dict.get? s'.relations id' = Dict.get? s.relations id') ∧
      ∀ id', id' ∈ s'.viewRelIds ↔ id' ∈ s.viewRelIds := by
  obtain ⟨hmem, rfl⟩ := latest_eq_some hrel
  have hcache : ∀ id', Dict.get? (s.relations.set rel.relId rel) id' =
      Dict.get? s.relations id' := by
    intro id'
    rw [Dict.get?_set]
    split_ifs with heq
    · rw [← heq, hs.relations, hrel]
    · rfl
  by_cases hviews : viewsOf config rel = []
  · have hnot : rel.relId ∉ s.viewRelIds := by
      rw [hs.viewRelIds]
      intro hres
      obtain ⟨rel', hrel', hne⟩ := hs.resolves _ hres
      rw [hrel] at hrel'
      cases hrel'
      exact hne hviews
    exact ⟨_, onRelation_ok.mpr (.inl ⟨hviews, hnot, rfl⟩), rfl, hcache, fun _ => .rfl⟩
  · have hres : rel.relId ∈ s.viewRelIds := (hs.viewRelIds _).mpr ⟨rel, hmem, rfl, hviews⟩
    refine ⟨_, onRelation_ok.mpr (.inr ⟨hviews, hs.columns _ rel hrel, rfl⟩), rfl, hcache,
      fun id' => ?_⟩
    rw [List.insert_of_mem hres]

theorem Resumed.announce (h : Resumed known s c) (hs : Recorded config past s) {id : ℕ}
    {rel : Relation} (hrel : latest past id = some rel) :
    ∃ c', onRelation config c rel = .ok c' ∧ Resumed (insert id known) s c' := by
  obtain ⟨s', hs', hopen, hcache, hids⟩ := announced_again hs hrel
  obtain ⟨-, rfl⟩ := latest_eq_some hrel
  obtain ⟨c', hc', hres⟩ := h.relation hs'
  refine ⟨c', hc', hres.openOps.trans hopen, fun id hid => ?_, hres.unknown, fun id => ?_⟩
  · rw [hres.relations id hid, hcache]
  · rw [hres.viewRelIds, hids]

theorem Resumed.skip (h : Resumed known s c) (hs : Recorded config past s) {id : ℕ}
    (hid : id ∉ known) (hrel : latest past id = none) : Resumed (insert id known) s c := by
  refine ⟨h.openOps, fun id' hid' => ?_, fun id' hid' => h.unknown id' fun hk => hid' (.inr hk),
    fun id' => ?_⟩
  · rcases hid' with rfl | hid'
    · rw [h.unknown _ hid, hs.relations, hrel]
    · exact h.relations id' hid'
  · rw [h.viewRelIds, Set.mem_insert_iff]
    refine ⟨fun hmem => ⟨.inr hmem.1, hmem.2⟩, fun hmem => ⟨hmem.1.resolve_left ?_, hmem.2⟩⟩
    rintro rfl
    obtain ⟨rel, hrel', -⟩ := hs.resolves _ ((hs.viewRelIds _).mp hmem.2)
    rw [hrel] at hrel'
    cases hrel'

variable [PyFloat F]

theorem Resumed.announceAll (hs : Recorded config past s) {ids : List ℕ} (hids : ids.Nodup)
    (h : Resumed known s c) (hnew : ∀ id ∈ ids, id ∉ known) :
    ∃ c', assembleAll config c ((ids.filterMap (latest past)).map .relation) = .ok c' ∧
      Resumed (known ∪ {id | id ∈ ids}) s c' := by
  induction ids generalizing known c with
  | nil => exact ⟨c, rfl, by simpa using h⟩
  | cons id ids ih =>
    obtain ⟨hid, hnew⟩ := List.forall_mem_cons.mp hnew
    obtain ⟨hnot, hids⟩ := List.nodup_cons.mp hids
    have hnew' : ∀ id' ∈ ids, id' ∉ insert id known := by
      rintro id' hid' (rfl | hk)
      · exact hnot hid'
      · exact hnew id' hid' hk
    have hset : insert id known ∪ {id' | id' ∈ ids} = known ∪ {id' | id' ∈ id :: ids} := by
      ext id'
      simp only [Set.mem_union, Set.mem_insert_iff, Set.mem_ofPred_eq, List.mem_cons, or_assoc,
        or_left_comm]
    cases hrel : latest past id with
    | none =>
      obtain ⟨c', hc', hres⟩ := ih hids (h.skip hs hid hrel) hnew'
      rw [List.filterMap_cons_none hrel]
      exact ⟨c', hc', hset ▸ hres⟩
    | some rel =>
      obtain ⟨c₁, hc₁, hres₁⟩ := h.announce hs hrel
      obtain ⟨c', hc', hres⟩ := ih hids hres₁ hnew'
      rw [List.filterMap_cons_some hrel]
      exact ⟨c', assembleAll_cons.mpr ⟨c₁, hc₁, hc'⟩, hset ▸ hres⟩

/-! ### A message on both -/

theorem rowOps_congr {m : Message}
    (h : ∀ id ∈ changed m, Dict.get? c.relations id = Dict.get? s.relations id) :
    rowOps config c m = rowOps config s m := by
  have hrel : ∀ id ∈ changed m, relationOf c id = relationOf s id := fun id hid => by
    rw [relationOf, relationOf, h id hid]
  cases m with
  | insert m => simp only [rowOps, insertOps, hrel m.relId List.mem_cons_self]
  | update m => simp only [rowOps, updateOps, hrel m.relId List.mem_cons_self]
  | delete m => simp only [rowOps, deleteOps, hrel m.relId List.mem_cons_self]
  | truncate m =>
    refine congrArg Except.ok (List.flatMap_congr fun id hid => ?_)
    rw [h id hid]
  | _ => rfl

omit [PyFloat F] in
theorem extendOpen_of_ok {kind : String} {ops : Except Error (List (Op F))}
    (hopen : c.openOps = s.openOps) (h : extendOpen s kind ops = .ok s') :
    extendOpen c kind ops = .ok { c with openOps := s'.openOps } := by
  unfold extendOpen at h ⊢
  rw [hopen]
  cases hbuf : s.openOps with
  | none => simp [hbuf] at h
  | some buffered =>
    simp only [hbuf] at h ⊢
    obtain ⟨new, rfl, h⟩ := Except.bind_eq_ok.mp h
    cases Except.pure_eq_ok.mp h
    rfl

theorem assemble_of_ok {m : Message} (hrel : relation? m = none) (hopen : c.openOps = s.openOps)
    (hchanged : ∀ id ∈ changed m, Dict.get? c.relations id = Dict.get? s.relations id)
    (h : assemble config s m = .ok s') :
    assemble config c m = .ok { c with openOps := s'.openOps } := by
  have hops : rowOps config c m = rowOps config s m := rowOps_congr hchanged
  cases m with
  | insert m =>
    change insertOps config c m = insertOps config s m at hops
    rw [assemble, hops]
    exact extendOpen_of_ok hopen h
  | update m =>
    change updateOps config c m = updateOps config s m at hops
    rw [assemble, hops]
    exact extendOpen_of_ok hopen h
  | delete m =>
    change deleteOps config c m = deleteOps config s m at hops
    rw [assemble, hops]
    exact extendOpen_of_ok hopen h
  | truncate m =>
    have hops := Except.ok.inj hops
    rw [assemble, hops]
    exact extendOpen_of_ok hopen h
  | relation rel => cases hrel
  | _ =>
    cases h
    simp [assemble, ← hopen]

theorem Resumed.step {sent : List Message} {m : Message} (hs : Recorded config (past ++ sent) s)
    (h : Resumed (Mentioned sent) s c) (hm : assemble config s m = .ok s') :
    ∃ c', assembleAll config c (reannounce past sent [m]) = .ok c' ∧
      Resumed (Mentioned (sent ++ [m])) s' c' := by
  have hdue : ∀ id ∈ (changed m).dedup.filter (fun id => ∀ m' ∈ sent, id ∉ mentioned m'),
      id ∉ Mentioned sent := by
    rintro id hid ⟨m', hm', hmem⟩
    rw [List.mem_filter, decide_eq_true_iff] at hid
    exact hid.2 m' hm' hmem
  obtain ⟨c₁, hc₁, h₁⟩ := h.announceAll hs (List.Nodup.filter _ (List.nodup_dedup _)) hdue
  -- announced again are the ids the change needs and this connection has not mentioned
  have hknown : Mentioned sent ∪ {id | id ∈ (changed m).dedup.filter
      (fun id => ∀ m' ∈ sent, id ∉ mentioned m')} = Mentioned sent ∪ {id | id ∈ changed m} := by
    ext id
    by_cases hid : id ∈ Mentioned sent
    · simp [hid]
    · have hnew : ∀ m' ∈ sent, id ∉ mentioned m' := fun m' hm' hmem => hid ⟨m', hm', hmem⟩
      simp only [Set.mem_union, hid, false_or, Set.mem_ofPred_eq, List.mem_filter, List.mem_dedup,
        decide_eq_true_iff, and_iff_left hnew]
  rw [hknown] at h₁
  suffices ∃ c', assemble config c₁ m = .ok c' ∧ Resumed (Mentioned (sent ++ [m])) s' c' by
    obtain ⟨c', hc', hres⟩ := this
    refine ⟨c', assembleAll_append.mpr ⟨c₁, hc₁, ?_⟩, hres⟩
    exact assembleAll_cons.mpr ⟨c', hc', rfl⟩
  rw [mentioned_concat]
  cases hrel : relation? m with
  | some rel =>
    cases m with
    | relation rel' =>
      cases hrel
      obtain ⟨c', hc', hres⟩ := h₁.relation hm
      refine ⟨c', hc', ?_⟩
      have hset : Mentioned sent ∪ {id | id ∈ mentioned (.relation rel)} =
          insert rel.relId (Mentioned sent ∪ {id | id ∈ changed (.relation rel)}) := by
        ext id
        simp [mentioned, changed, relation?, or_comm]
      rw [hset]
      exact hres
    | _ => cases hrel
  | none =>
    obtain ⟨ops, hhandled⟩ := assemble_ok hm
    obtain ⟨hrelations, hids⟩ := hhandled.frame hrel
    refine ⟨_, assemble_of_ok hrel h₁.openOps (fun id hid => h₁.relations id (.inr hid)) hm, ?_⟩
    have hset : ({id | id ∈ mentioned m} : Set ℕ) = {id | id ∈ changed m} := by
      simp [mentioned, hrel]
    rw [hset]
    refine ⟨rfl, fun id hid => ?_, h₁.unknown, fun id => ?_⟩
    · rw [hrelations]
      exact h₁.relations id hid
    · rw [hids]
      exact h₁.viewRelIds id

theorem Resumed.run {sent : List Message} (hs : Recorded config (past ++ sent) s)
    (h : Resumed (Mentioned sent) s c) (hms : assembleAll config s ms = .ok s') :
    ∃ c', assembleAll config c (reannounce past sent ms) = .ok c' ∧
      Resumed (Mentioned (sent ++ ms)) s' c' := by
  induction ms generalizing sent s c with
  | nil =>
    cases hms
    exact ⟨c, rfl, by simpa using h⟩
  | cons m ms ih =>
    obtain ⟨s₁, hm, hms⟩ := assembleAll_cons.mp hms
    obtain ⟨c₁, hc₁, h₁⟩ := h.step hs hm
    have hs₁ := hs.step hm
    rw [List.append_assoc] at hs₁
    obtain ⟨c', hc', hres⟩ := ih hs₁ h₁ hms
    rw [← List.singleton_append, reannounce_append, ← List.append_assoc]
    exact ⟨c', assembleAll_append.mpr ⟨c₁, hc₁, hc'⟩, hres⟩

/-! ### Renames across a restart -/

/-- The uninterrupted run, at rest after `past`, raises on `rel'` because a relation it had resolved
is now called so. -/
def RaisesOnRename (F : Type) [PyFloat F] (config : Config) (past ms : List Message)
    (rel' : Relation) : Prop :=
  ∃ b a : Assembly F, assembleAll config .fresh past = .ok b ∧ b.openOps = none ∧
    assembleAll config b ms = .ok a ∧ viewsOf config rel' = [] ∧ rel'.relId ∈ a.viewRelIds

/-- The daemon that resumes after `past` raises on the rename exactly if between the restart and the
rename there is a message about the relation. -/
theorem rename_survives_restart_iff {rel' : Relation} (h : RaisesOnRename F config past ms rel') :
    (∃ msg, assembleAll (F := F) config .fresh (reannounce past [] (ms ++ [.relation rel'])) =
      .error (.schemaDrift msg)) ↔ rel'.relId ∈ Mentioned ms := by
  obtain ⟨b, a, hpast, hopen, hms, hviews, hid⟩ := h
  have hs := assembleAll_recorded hpast
  rw [← List.append_nil past] at hs
  have hmentioned : Mentioned [] = ∅ := by simp [Mentioned]
  obtain ⟨c, hc, hres⟩ := Resumed.run hs (hmentioned ▸ resumed_fresh hopen) hms
  have hlast : assembleAll (F := F) config .fresh (reannounce past [] (ms ++ [.relation rel'])) =
      onRelation config c rel' := by
    rw [assembleAll] at hc ⊢
    rw [reannounce_append, List.foldlM_append, hc]
    exact bind_pure (m := Except Error) _
  rw [hlast]
  have hiff := hres.viewRelIds rel'.relId
  rw [List.nil_append] at hiff
  constructor
  · rintro ⟨msg, hraise⟩
    by_contra hnot
    have hc' : rel'.relId ∉ c.viewRelIds := fun hmem => hnot (hiff.mp hmem).1
    rw [onRelation_ok.mpr (.inl ⟨hviews, hc', rfl⟩)] at hraise
    cases hraise
  · intro hmem
    cases hraise : onRelation config c rel' with
    | error e =>
      obtain ⟨msg, rfl⟩ := onRelation_error hraise
      exact ⟨msg, rfl⟩
    | ok c' =>
      obtain ⟨-, hnot, -⟩ | ⟨hne, -⟩ := onRelation_ok.mp hraise
      · exact absurd (hiff.mpr ⟨hmem, hid⟩) hnot
      · exact absurd hviews hne

def sampleBegin : Message := .begin ⟨0, .epoch, 1⟩

def sampleCommit : Message := .commit ⟨0, 10, 20, .epoch⟩

def samplePast : List Message :=
  [sampleBegin, .relation ⟨1, "public", "a", 'f', []⟩, .insert ⟨1, []⟩, sampleCommit]

def sampleRenamed : Relation := ⟨1, "public", "a_old", 'f', []⟩

theorem rename_survives_restart_changed :
    (∃ msg, assembleAll (F := Empty) countsConfig .fresh (reannounce samplePast []
      ([sampleBegin, .insert ⟨1, []⟩] ++ [.relation sampleRenamed])) = .error (.schemaDrift msg)) ↔
        sampleRenamed.relId ∈ Mentioned [sampleBegin, .insert ⟨1, []⟩] :=
  rename_survives_restart_iff
    ⟨⟨[(1, ⟨1, "public", "a", 'f', []⟩)], [1], none⟩,
      ⟨[(1, ⟨1, "public", "a", 'f', []⟩)], [1], some [.insert "a_rows" []]⟩, rfl, rfl, rfl,
      by decide, by decide⟩

/-- Renamed right after the restart, the table is no longer known: its changes leave no op. -/
theorem rename_missed_after_restart :
    (¬ ∀ config past ms rel', RaisesOnRename Empty config past ms rel' →
      ∃ msg, assembleAll (F := Empty) config .fresh (reannounce past [] (ms ++ [.relation rel'])) =
        .error (.schemaDrift msg)) ∧
      assembleAll (F := Empty) countsConfig .fresh (reannounce samplePast []
        [sampleBegin, .relation sampleRenamed, .insert ⟨1, []⟩]) =
          .ok ⟨[(1, sampleRenamed)], [], some []⟩ := by
  refine ⟨fun h => ?_, rfl⟩
  obtain ⟨msg, hraise⟩ := h countsConfig samplePast [sampleBegin] sampleRenamed
    ⟨⟨[(1, ⟨1, "public", "a", 'f', []⟩)], [1], none⟩,
      ⟨[(1, ⟨1, "public", "a", 'f', []⟩)], [1], some []⟩, rfl, rfl, rfl, by decide, by decide⟩
  have hrun : assembleAll (F := Empty) countsConfig .fresh
      (reannounce samplePast [] ([sampleBegin] ++ [.relation sampleRenamed])) =
        .ok ⟨[(1, sampleRenamed)], [], some []⟩ := rfl
  rw [hrun] at hraise
  cases hraise

end WalFlux.Daemon
