import WalFlux.Bootstrap.Refusal

/-! What a call of `setup` or `teardown` comes to when no statement fails on its own: when it
finishes, and what it leaves. -/

namespace WalFlux.Bootstrap

open Aggregates

variable {ι T F : Type}

/-! ### Setup -/

def runSetup (config : Config) (fx : Effects T F) (force : Bool) (reply : Reply) :
    ℕ → Server ι T F → Stage F → Server ι T F × Status (Stage F)
  | 0, s, stage => (s, .running stage)
  | n + 1, s, stage =>
    match setupStep config fx force reply s stage with
    | (s, .running stage) => runSetup config fx force reply n s stage
    | r => r

def setup (config : Config) (fx : Effects T F) (force : Bool) (reply : Reply) (s : Server ι T F) :
    Server ι T F × Status (Stage F) :=
  runSetup config fx force reply ((sourceTables config).length + 11) s .version

/-- What setup asks for: a server that can serve it, its sources, names it may write into SQL, no
slot or one that `--force` may drop, and a backfill that goes through. -/
structure Ready (config : Config) (fx : Effects T F) (force : Bool) (text : String)
    (s : Server ι T F) : Prop where
  version : 150000 ≤ s.catalog.versionNum
  walLevel : s.catalog.walLevel = "logical"
  sources : ∀ name ∈ sourceTables config, (s.catalog.source name).isSome
  tables : ∃ tables, publicationTables config = .ok tables
  publication : ∃ name, quoteIdent config.publication = .ok name
  slotName : ∃ name, quoteIdent config.slot = .ok name
  slot : ∀ slot, s.slot = some slot → force = true ∧ slot.walsender = none
  backfill : ∃ targets, fx.backfill s.history s.targets = .ok targets
  consistentPoint : ∃ lsn, parseLsn text = .ok lsn

def fullIdentity (names : List (String × String)) (catalog : Catalog) : Catalog :=
  { catalog with source := fun name =>
      if name ∈ names then (catalog.source name).map fun table =>
        { table with replicaIdentity := 'f' }
      else catalog.source name }

/-- What a finished call leaves: the publication of the sources, the new slot, the backfilled
targets and their checkpoint at the consistent point. -/
structure Provisioned (config : Config) (fx : Effects T F) (lsn : ℕ) (text : String)
    (s s' : Server ι T F) : Prop where
  catalog : s'.catalog = fullIdentity (sourceTables config) s.catalog
  history : s'.history = s.history
  wal : s'.wal = lsn
  slot : s'.slot = some ⟨lsn, none, none⟩
  publication : ∃ tables, publicationTables config = .ok tables ∧ s'.publication = some tables
  targets : fx.backfill s.history s.targets = .ok s'.targets
  checkpoint : ∃ point, parseLsn text = .ok point ∧ s'.checkpoint = some (some point.toNat)

variable {config : Config} {fx : Effects T F} {force : Bool} {reply : Reply} {s s' : Server ι T F}
  {stage after : Stage F} {n : ℕ}

theorem Provisioned.unique {lsn : ℕ} {text : String} {s₁ s₂ t₁ t₂ : Server ι T F}
    (h₁ : Provisioned config fx lsn text s₁ t₁) (h₂ : Provisioned config fx lsn text s₂ t₂)
    (hcatalog : fullIdentity (sourceTables config) s₁.catalog =
      fullIdentity (sourceTables config) s₂.catalog)
    (hhistory : s₁.history = s₂.history) (htargets : s₁.targets = s₂.targets) : t₁ = t₂ := by
  obtain ⟨tables₁, htables₁, hpublication₁⟩ := h₁.publication
  obtain ⟨tables₂, htables₂, hpublication₂⟩ := h₂.publication
  obtain ⟨point₁, hpoint₁, hcheckpoint₁⟩ := h₁.checkpoint
  obtain ⟨point₂, hpoint₂, hcheckpoint₂⟩ := h₂.checkpoint
  have htables : tables₁ = tables₂ := Except.ok.inj (htables₁.symm.trans htables₂)
  have hpoint : point₁ = point₂ := Except.ok.inj (hpoint₁.symm.trans hpoint₂)
  have hcatalogs : t₁.catalog = t₂.catalog := by rw [h₁.catalog, h₂.catalog, hcatalog]
  have hhistories : t₁.history = t₂.history := by rw [h₁.history, h₂.history, hhistory]
  have hfilled : t₁.targets = t₂.targets := by
    refine Except.ok.inj (h₁.targets.symm.trans ?_)
    rw [hhistory, htargets]
    exact h₂.targets
  have hpublications : t₁.publication = t₂.publication := by
    rw [hpublication₁, hpublication₂, htables]
  have hcheckpoints : t₁.checkpoint = t₂.checkpoint := by
    rw [hcheckpoint₁, hcheckpoint₂, hpoint]
  cases t₁
  cases t₂
  exact Server.mk.injEq .. ▸ ⟨hcatalogs, hhistories, h₁.wal.trans h₂.wal.symm,
    h₁.slot.trans h₂.slot.symm, hpublications, hcheckpoints, hfilled⟩

theorem runSetup_running (h : setupStep config fx force reply s stage = (s', .running after)) :
    runSetup config fx force reply (n + 1) s stage = runSetup config fx force reply n s' after := by
  rw [runSetup, h]

theorem runSetup_raised {e : Error}
    (h : setupStep config fx force reply s stage = (s', .raised e)) :
    runSetup config fx force reply (n + 1) s stage = (s', .raised e) := by
  rw [runSetup, h]

theorem runSetup_finished (h : setupStep config fx force reply s stage = (s', .finished)) :
    runSetup config fx force reply (n + 1) s stage = (s', .finished) := by
  rw [runSetup, h]

/-! ### The sources -/

theorem fullIdentity_cons (name : String × String) (names : List (String × String))
    (catalog : Catalog) :
    fullIdentity (name :: names) catalog = fullIdentity names (fullIdentity [name] catalog) := by
  unfold fullIdentity
  refine congrArg (fun source => ({ catalog with source := source } : Catalog)) ?_
  funext other
  by_cases hname : other = name
  · subst hname
    cases hsource : catalog.source other <;> simp [hsource]
  · simp [hname]

theorem ensureSource_cases (name : String × String) (hsource : (s.catalog.source name).isSome) :
    ensureSource s name = .ok { s with catalog := fullIdentity [name] s.catalog } ∨
      (∃ e, ensureSource s name = .error e) ∧
        ¬ ∃ schema id, quoteIdent name.1 = .ok schema ∧ quoteIdent name.2 = .ok id := by
  obtain ⟨table, htable⟩ := Option.isSome_iff_exists.mp hsource
  have hfull : ∀ source, source = Function.update s.catalog.source name
      (some { table with replicaIdentity := 'f' }) →
      { s with catalog := { s.catalog with source := source } } =
        { s with catalog := fullIdentity [name] s.catalog } := by
    rintro _ rfl
    unfold fullIdentity
    refine congrArg (fun source => { s with catalog := { s.catalog with source := source } }) ?_
    funext other
    by_cases hname : other = name
    · subst hname
      simp [htable]
    · simp [hname]
  unfold ensureSource
  rw [htable]
  dsimp only
  split_ifs with hidentity
  · cases hschema : quoteIdent name.1 with
    | error e =>
      refine .inr ⟨⟨e, rfl⟩, ?_⟩
      rintro ⟨schema, id, hok, -⟩
      cases hok
    | ok schema =>
      cases hid : quoteIdent name.2 with
      | error e =>
        refine .inr ⟨⟨e, rfl⟩, ?_⟩
        rintro ⟨schema, id, -, hok⟩
        cases hok
      | ok id => exact .inl (congrArg Except.ok (hfull _ rfl))
  · refine .inl (congrArg Except.ok ?_)
    refine (hfull s.catalog.source ?_).symm ▸ rfl
    have htable' : { table with replicaIdentity := 'f' } = table := by
      rw [← not_not.mp hidentity]
    rw [htable', ← htable, Function.update_eq_self]

def Quotable (name : String × String) : Prop :=
  ∃ schema id, quoteIdent name.1 = .ok schema ∧ quoteIdent name.2 = .ok id

theorem quotable_of_tables (h : ∃ tables, publicationTables config = .ok tables) :
    ∀ name ∈ sourceTables config, Quotable name := by
  obtain ⟨tables, htables⟩ := h
  intro name hname
  obtain ⟨table, -, htable⟩ := (Except.mapM_eq_ok.mp htables).exists_of_mem_left hname
  obtain ⟨schema, hschema, htable⟩ := Except.bind_eq_ok.mp htable
  obtain ⟨id, hid, -⟩ := Except.bind_eq_ok.mp htable
  exact ⟨schema, id, hschema, hid⟩

theorem source_fullIdentity (names : List (String × String)) (catalog : Catalog)
    (name : String × String) :
    (fullIdentity names catalog).source name = none ↔ catalog.source name = none := by
  unfold fullIdentity
  dsimp only
  split_ifs with hname
  · exact Option.map_eq_none_iff
  · exact Iff.rfl

variable (config fx force) in
theorem runSetup_sources (hfault : reply.fault = none) (n : ℕ) (names : List (String × String))
    (s : Server ι T F) :
    ((∀ name ∈ names, (s.catalog.source name).isSome) ∧
      runSetup config fx force reply (n + 1 + names.length) s (.sources names) =
        runSetup config fx force reply n { s with catalog := fullIdentity names s.catalog }
          .checkpointTable) ∨
    ((∃ s' e, runSetup config fx force reply (n + 1 + names.length) s (.sources names) =
        (s', .raised e)) ∧
      ∃ name ∈ names, s.catalog.source name = none ∨ ¬ Quotable name) := by
  induction names generalizing s with
  | nil =>
    refine .inl ⟨fun name hname => (by cases hname), ?_⟩
    exact runSetup_running (by simp only [setupStep, hfault]; rfl)
  | cons name names ih =>
    change (_ ∧ runSetup config fx force reply (n + 1 + names.length + 1) s _ = _) ∨
      ((∃ s' e, runSetup config fx force reply (n + 1 + names.length + 1) s _ = (s', .raised e)) ∧
        _)
    have hnext : setupStep config fx force reply s (.sources (name :: names)) =
        next s (ensureSource s name) (.sources names) := by
      simp only [setupStep, hfault]
    have hraise : ∀ e, ensureSource s name = .error e → ∃ s' e,
        runSetup config fx force reply (n + 1 + names.length + 1) s (.sources (name :: names)) =
          (s', .raised e) := by
      intro e he
      exact ⟨_, _, runSetup_raised (by rw [hnext, he]; rfl)⟩
    cases hsource : s.catalog.source name with
    | none =>
      refine .inr ⟨hraise _ (by rw [ensureSource, hsource]), name, List.mem_cons_self, .inl hsource⟩
    | some table =>
      have hsome : (s.catalog.source name).isSome := hsource ▸ rfl
      rcases ensureSource_cases name hsome with hok | ⟨⟨e, he⟩, hname⟩
      · have hrun := runSetup_running (n := n + 1 + names.length) (hnext.trans (by rw [hok]; rfl))
        rw [hrun]
        rcases ih { s with catalog := fullIdentity [name] s.catalog } with ⟨hall, hlater⟩ |
          ⟨hlater, other, hmem, hbad⟩
        · refine .inl ⟨List.forall_mem_cons.mpr ⟨hsome, fun other hother => ?_⟩, ?_⟩
          · have hisSome := hall other hother
            rw [Option.isSome_iff_ne_none, ne_eq, source_fullIdentity] at hisSome
            exact Option.isSome_iff_ne_none.mpr hisSome
          · rw [hlater, fullIdentity_cons name names]
        · refine .inr ⟨hlater, other, List.mem_cons_of_mem _ hmem, ?_⟩
          rwa [source_fullIdentity] at hbad
      · exact .inr ⟨hraise e he, name, List.mem_cons_self, .inr hname⟩

/-! ### The other statements -/

/-- A call finishes with `P` if what it still asks for is there, and raises if not. -/
def Ends (r : Server ι T F × Status (Stage F)) (asked : Prop) (P : Server ι T F → Prop) : Prop :=
  (asked ∧ ∃ s', r = (s', .finished) ∧ P s') ∨ ¬ asked ∧ ∃ s' e, r = (s', .raised e)

theorem Ends.guard {r : Server ι T F × Status (Stage F)} {c asked : Prop} {P : Server ι T F → Prop}
    (hpass : c → Ends r asked P) (hstop : ¬ c → ∃ s' e, r = (s', .raised e)) :
    Ends r (c ∧ asked) P := by
  by_cases hc : c
  · rcases hpass hc with ⟨hasked, hend⟩ | ⟨hasked, hend⟩
    · exact .inl ⟨⟨hc, hasked⟩, hend⟩
    · exact .inr ⟨fun h => hasked h.2, hend⟩
  · exact .inr ⟨fun h => hc h.1, hstop hc⟩

theorem Ends.imp {r : Server ι T F × Status (Stage F)} {asked asked' : Prop}
    {P P' : Server ι T F → Prop} (h : Ends r asked P) (hasked : asked ↔ asked')
    (hP : ∀ s', P s' → P' s') : Ends r asked' P' := by
  rcases h with ⟨h, s', hr, hs'⟩ | ⟨h, hr⟩
  · exact .inl ⟨hasked.mp h, s', hr, hP s' hs'⟩
  · exact .inr ⟨fun h' => h (hasked.mpr h'), hr⟩

theorem exists_ok_or {α : Type} (x : Except Error α) : (∃ a, x = .ok a) ∨ ∃ e, x = .error e := by
  cases x with
  | ok a => exact .inl ⟨a, rfl⟩
  | error e => exact .inr ⟨e, rfl⟩

section

variable {lsn : ℕ} {text : String}

def answer (lsn : ℕ) (text : String) : Reply := ⟨none, lsn, some text⟩

def Creatable (config : Config) (fx : Effects T F) (text : String) (s : Server ι T F) : Prop :=
  (∃ name, quoteIdent config.slot = .ok name) ∧
    (∃ targets, fx.backfill s.history s.targets = .ok targets) ∧ ∃ point, parseLsn text = .ok point

def Created (fx : Effects T F) (lsn : ℕ) (text : String) (s s' : Server ι T F) : Prop :=
  ∃ targets point, fx.backfill s.history s.targets = .ok targets ∧ parseLsn text = .ok point ∧
    s' = { s with
      wal := lsn
      slot := some ⟨lsn, none, none⟩
      checkpoint := some (some point.toNat)
      targets := targets }

theorem runSetup_backfill (m : ℕ) {checkpoint : Option ℕ} (hrow : s.checkpoint = some checkpoint)
    (hslot : s.slot = some ⟨lsn, none, none⟩) (hwal : s.wal = lsn) :
    Ends (runSetup config fx force (answer lsn text) (m + 1) s (.backfill text s.history))
      ((∃ targets, fx.backfill s.history s.targets = .ok targets) ∧
        ∃ point, parseLsn text = .ok point)
      (Created fx lsn text s) := by
  have hraise : ∀ e, backfill fx s text s.history = .error e → ∃ s' e',
      runSetup config fx force (answer lsn text) (m + 1) s (.backfill text s.history) =
        (s', .raised e') := by
    intro e he
    exact ⟨_, _, runSetup_raised (by simp only [setupStep, answer, he]; rfl)⟩
  refine .guard (fun hbackfill => ?_) fun hnone => ?_
  · obtain ⟨targets, htargets⟩ := hbackfill
    rcases exists_ok_or (parseLsn text) with ⟨point, hpoint⟩ | ⟨e, he⟩
    · have hok : backfill fx s text s.history =
          .ok { s with checkpoint := some (some point.toNat), targets := targets } := by
        rw [backfill, htargets, hpoint]
        change writeCheckpoint { s with targets := targets } point.toNat = _
        rw [writeCheckpoint, hrow]
      have hrun : runSetup config fx force (answer lsn text) (m + 1) s (.backfill text s.history) =
          ({ s with checkpoint := some (some point.toNat), targets := targets }, .finished) :=
        runSetup_finished (by simp only [setupStep, answer, hok])
      exact .inl ⟨⟨point, hpoint⟩, _, hrun, targets, point, htargets,
        hpoint, by rw [← hslot, ← hwal]⟩
    · refine .inr ⟨?_, hraise e ?_⟩
      · rintro ⟨point, hpoint⟩
        rw [he] at hpoint
        cases hpoint
      · rw [backfill, htargets, he]
        rfl
  · rcases exists_ok_or (fx.backfill s.history s.targets) with hok | ⟨e, he⟩
    · exact absurd hok hnone
    · refine hraise e ?_
      rw [backfill, he]
      rfl

theorem runSetup_createSlot (m : ℕ) {checkpoint : Option ℕ} (hrow : s.checkpoint = some checkpoint)
    (hslot : s.slot = none) :
    Ends (runSetup config fx force (answer lsn text) (m + 2) s .createSlot)
      (Creatable config fx text s) (Created fx lsn text s) := by
  refine .guard (fun hquoted => ?_) fun hnone => ?_
  · obtain ⟨name, hname⟩ := hquoted
    have hok : createSlot config s lsn =
        .ok { s with slot := some ⟨lsn, none, none⟩, wal := lsn } := by
      rw [createSlot, hname]
      dsimp only [bind, Except.bind]
      rw [hslot]
      rfl
    rw [runSetup_running (by simp only [setupStep, answer, hok]; rfl)]
    exact runSetup_backfill (s := { s with slot := some ⟨lsn, none, none⟩, wal := lsn })
      m hrow rfl rfl
  · rcases exists_ok_or (quoteIdent config.slot) with hok | ⟨e, he⟩
    · exact absurd hok hnone
    · have herror : createSlot config s lsn = .error e := by
        rw [createSlot, he]
        rfl
      exact ⟨s, wrapPrivilege e, runSetup_raised (by simp only [setupStep, answer, herror]; rfl)⟩

theorem runSetup_deleteCheckpoint (m : ℕ) {checkpoint : Option ℕ}
    (hrow : s.checkpoint = some checkpoint) (hslot : s.slot = none) :
    Ends (runSetup config fx force (answer lsn text) (m + 4) s .deleteCheckpoint)
      (Creatable config fx text s) (Created fx lsn text s) := by
  have hdelete : deleteCheckpoint s = .ok { s with checkpoint := some none } := by
    rw [deleteCheckpoint, hrow]
  rw [runSetup_running (by simp only [setupStep, answer, hdelete]; rfl),
    runSetup_running (by simp only [setupStep, answer]; rfl)]
  exact runSetup_createSlot (s := { s with checkpoint := some none }) m rfl hslot

theorem runSetup_inspectSlot (m : ℕ) {checkpoint : Option ℕ}
    (hrow : s.checkpoint = some checkpoint) :
    Ends (runSetup config fx force (answer lsn text) (m + 6) s .inspectSlot)
      ((∀ slot, s.slot = some slot → force = true ∧ slot.walsender = none) ∧
        Creatable config fx text s)
      (Created fx lsn text s) := by
  cases hslot : s.slot with
  | none =>
    have hinspect : inspectSlot config force s = .ok false := by rw [inspectSlot, hslot]
    rw [runSetup_running (by simp only [setupStep, answer, hinspect]; rfl)]
    refine (runSetup_deleteCheckpoint (m + 1) hrow hslot).imp ?_ fun _ hs' => hs'
    exact ⟨fun h => ⟨fun slot hsome => (by cases hsome), h⟩, fun h => h.2⟩
  | some slot =>
    refine .guard (fun hfree => ?_) fun hheld => ?_
    · obtain ⟨rfl, hwalsender⟩ := hfree slot rfl
      have hinspect : inspectSlot config true s = .ok true := by
        simp only [inspectSlot, hslot, hwalsender]
        rfl
      have hdrop : dropSlot s = .ok { s with slot := none } := by
        simp [dropSlot, hslot, hwalsender]
      rw [runSetup_running (by simp only [setupStep, answer, hinspect]; rfl),
        runSetup_running (by simp only [setupStep, answer, hdrop]; rfl)]
      exact runSetup_deleteCheckpoint (s := { s with slot := none }) m hrow rfl
    · have hrefuse : ∃ e, inspectSlot config force s = .error e := by
        rw [inspectSlot, hslot]
        dsimp only
        split_ifs with hforce
        · exact ⟨_, rfl⟩
        · cases hwalsender : slot.walsender with
          | some walsender => exact ⟨_, rfl⟩
          | none =>
            refine absurd ?_ hheld
            rintro _ ⟨⟩
            exact ⟨Bool.eq_true_of_not_eq_false hforce, hwalsender⟩
      obtain ⟨e, he⟩ := hrefuse
      exact ⟨s, wrapPrivilege e, runSetup_raised (by simp only [setupStep, answer, he]; rfl)⟩

theorem runSetup_publication (m : ℕ) {checkpoint : Option ℕ}
    (hrow : s.checkpoint = some checkpoint) :
    Ends (runSetup config fx force (answer lsn text) (m + 7) s .publication)
      ((∃ tables, publicationTables config = .ok tables) ∧
        (∃ name, quoteIdent config.publication = .ok name) ∧
        (∀ slot, s.slot = some slot → force = true ∧ slot.walsender = none) ∧
        Creatable config fx text s)
      fun s' => ∃ tables, publicationTables config = .ok tables ∧
        Created fx lsn text { s with publication := some tables } s' := by
  have hraise : ∀ e, ensurePublication config s = .error e → ∃ s' e',
      runSetup config fx force (answer lsn text) (m + 7) s .publication = (s', .raised e') := by
    intro e he
    exact ⟨_, _, runSetup_raised (by simp only [setupStep, answer, he]; rfl)⟩
  have hunfold : ensurePublication config s = (do
      let tables ← publicationTables config
      let _ ← quoteIdent config.publication
      return { s with publication := some tables }) := rfl
  refine .guard (fun hquoted => ?_) fun hnone => ?_
  · obtain ⟨tables, htables⟩ := hquoted
    refine .guard (fun hquoted => ?_) fun hnone => ?_
    · obtain ⟨name, hname⟩ := hquoted
      have hensure : ensurePublication config s = .ok { s with publication := some tables } := by
        rw [hunfold, htables, hname]
        rfl
      rw [runSetup_running (by simp only [setupStep, answer, hensure]; rfl)]
      refine (runSetup_inspectSlot (s := { s with publication := some tables }) m hrow).imp Iff.rfl
        ?_
      exact fun s' hs' => ⟨tables, htables, hs'⟩
    · rcases exists_ok_or (quoteIdent config.publication) with hok | ⟨e, he⟩
      · exact absurd hok hnone
      · exact hraise e (by rw [hunfold, htables, he]; rfl)
  · rcases exists_ok_or (publicationTables config) with hok | ⟨e, he⟩
    · exact absurd hok hnone
    · exact hraise e (by rw [hunfold, he]; rfl)

/-- From the sources on. A source that may not be named stands in the way of the publication too. -/
theorem runSetup_fromSources (m : ℕ) :
    Ends (runSetup config fx force (answer lsn text) (m + 9 + (sourceTables config).length) s
        (.sources (sourceTables config)))
      ((∀ name ∈ sourceTables config, (s.catalog.source name).isSome) ∧
        (∃ tables, publicationTables config = .ok tables) ∧
        (∃ name, quoteIdent config.publication = .ok name) ∧
        (∀ slot, s.slot = some slot → force = true ∧ slot.walsender = none) ∧
        Creatable config fx text s)
      fun s' => ∃ tables, publicationTables config = .ok tables ∧
        Created fx lsn text
          { s with
            catalog := fullIdentity (sourceTables config) s.catalog
            publication := some tables } s' := by
  have hfault : (answer lsn text).fault = none := rfl
  rcases runSetup_sources config fx force hfault (m + 8) (sourceTables config) s with
    ⟨hall, hrun⟩ | ⟨hrun, name, hmem, hbad⟩
  · rw [hrun, runSetup_running (by simp only [setupStep, answer]; rfl)]
    refine (runSetup_publication m (s := { s with
      catalog := fullIdentity (sourceTables config) s.catalog, checkpoint := some s.row }) rfl).imp
        ?_ ?_
    · exact ⟨fun h => ⟨hall, h⟩, fun h => h.2⟩
    · exact fun s' hs' => hs'
  · refine .inr ⟨?_, hrun⟩
    rintro ⟨hall, htables, -⟩
    rcases hbad with hnone | hname
    · have hsome := hall name hmem
      rw [hnone] at hsome
      cases hsome
    · exact hname (quotable_of_tables htables name hmem)

variable (config fx force lsn text s) in
theorem setup_ends :
    Ends (setup config fx force (answer lsn text) s) (Ready config fx force text s)
      (Provisioned config fx lsn text s) := by
  have hends : Ends (setup config fx force (answer lsn text) s)
      (150000 ≤ s.catalog.versionNum ∧ s.catalog.walLevel = "logical" ∧
        (∀ name ∈ sourceTables config, (s.catalog.source name).isSome) ∧
        (∃ tables, publicationTables config = .ok tables) ∧
        (∃ name, quoteIdent config.publication = .ok name) ∧
        (∀ slot, s.slot = some slot → force = true ∧ slot.walsender = none) ∧
        Creatable config fx text s)
      fun s' => ∃ tables, publicationTables config = .ok tables ∧
        Created fx lsn text
          { s with
            catalog := fullIdentity (sourceTables config) s.catalog
            publication := some tables } s' := by
    have hsize : (sourceTables config).length + 11 =
        0 + 9 + (sourceTables config).length + 1 + 1 := by omega
    rw [setup, hsize]
    refine .guard (fun hversion => ?_) fun hversion => ?_
    · have hcheck : checkServerVersion s = .ok () := by
        rw [checkServerVersion, if_neg (Nat.not_lt.mpr hversion)]
      rw [runSetup_running (by simp only [setupStep, answer, hcheck]; rfl)]
      refine .guard (fun hlevel => ?_) fun hlevel => ?_
      · have hcheck : checkWalLevel s = .ok () := by
          rw [checkWalLevel, if_neg (not_not.mpr hlevel)]
        rw [runSetup_running (by simp only [setupStep, answer, hcheck]; rfl)]
        exact runSetup_fromSources 0
      · have hcheck : ∃ e, checkWalLevel s = .error e := ⟨_, by rw [checkWalLevel, if_pos hlevel]⟩
        obtain ⟨e, he⟩ := hcheck
        exact ⟨s, wrapPrivilege e, runSetup_raised (by simp only [setupStep, answer, he]; rfl)⟩
    · have hcheck : ∃ e, checkServerVersion s = .error e :=
        ⟨_, by rw [checkServerVersion, if_pos (Nat.not_le.mp hversion)]⟩
      obtain ⟨e, he⟩ := hcheck
      exact ⟨s, wrapPrivilege e, runSetup_raised (by simp only [setupStep, answer, he]; rfl)⟩
  refine hends.imp ⟨?_, ?_⟩ ?_
  · rintro ⟨hversion, hlevel, hall, htables, hpublication, hslot, hname, hbackfill, hpoint⟩
    exact ⟨hversion, hlevel, hall, htables, hpublication, hname, hslot, hbackfill, hpoint⟩
  · intro h
    exact ⟨h.version, h.walLevel, h.sources, h.tables, h.publication, h.slot,
      h.slotName, h.backfill, h.consistentPoint⟩
  · rintro s' ⟨tables, htables, targets, point, htargets, hpoint, rfl⟩
    exact ⟨rfl, rfl, rfl, rfl, ⟨tables, htables, rfl⟩, htargets, point, hpoint, rfl⟩

theorem finished_of_ready (h : Ready config fx force text s) :
    ∃ s', setup config fx force (answer lsn text) s = (s', .finished) ∧
      Provisioned config fx lsn text s s' := by
  rcases setup_ends config fx force s lsn text with ⟨-, hend⟩ | ⟨hready, -⟩
  · exact hend
  · exact absurd h hready

theorem provisioned_of_finished (h : setup config fx force (answer lsn text) s = (s', .finished)) :
    Ready config fx force text s ∧ Provisioned config fx lsn text s s' := by
  rcases setup_ends config fx force s lsn text with ⟨hready, s₁, hs₁,
    hprovisioned⟩ | ⟨-, s₁, e, hs₁⟩
  · cases hs₁.symm.trans h
    exact ⟨hready, hprovisioned⟩
  · cases hs₁.symm.trans h

/-- Setup finishes where everything it asks for is there and raises everywhere else. -/
theorem setup_outcome :
    ((∃ s', setup config fx force (answer lsn text) s = (s', .finished) ∧
      Provisioned config fx lsn text s s') ↔ Ready config fx force text s) ∧
    ((∃ s' e, setup config fx force (answer lsn text) s = (s', .raised e)) ↔
      ¬ Ready config fx force text s) := by
  rcases setup_ends config fx force s lsn text with ⟨hready, hend⟩ | ⟨hready, hraise⟩
  · refine ⟨⟨fun _ => hready, fun _ => hend⟩, ⟨?_, fun h => absurd hready h⟩⟩
    obtain ⟨s₁, hs₁, -⟩ := hend
    rintro ⟨s₂, e, hs₂⟩
    cases hs₁.symm.trans hs₂
  · refine ⟨⟨?_, fun h => absurd h hready⟩, ⟨fun _ => hready, fun _ => hraise⟩⟩
    obtain ⟨s₁, e, hs₁⟩ := hraise
    rintro ⟨s₂, hs₂, -⟩
    cases hs₁.symm.trans hs₂

end

/-! ### Teardown -/

def exited (s : Server ι T F) : Server ι T F :=
  { s with slot := s.slot.map fun slot => { slot with walsender := none } }

/-- The call from a stage on, for at most so many statements; `exits` tells before which of them the
walsender has exited. -/
def runTeardown (config : Config) (fx : Effects T F) (exits : ℕ → Bool) :
    ℕ → ℕ → Server ι T F → TeardownStage → Server ι T F × Status TeardownStage
  | 0, _, s, stage => (s, .running stage)
  | n + 1, i, s, stage =>
    match teardownStep config fx none (if exits i then exited s else s) stage with
    | (s, .running stage) => runTeardown config fx exits n (i + 1) s stage
    | r => r

def teardown (config : Config) (fx : Effects T F) (exits : ℕ → Bool) (s : Server ι T F) :
    Server ι T F × Status TeardownStage :=
  runTeardown config fx exits (dropAttempts + 4) 0 s .inspectSlot

def tornDown (fx : Effects T F) (s : Server ι T F) : Server ι T F :=
  { s with slot := none, publication := none, checkpoint := none, targets := fx.dropped }

/-- The slot can go: it has no walsender, or only until the last attempt. -/
def Releases (exits : ℕ → Bool) (s : Server ι T F) : Prop :=
  ∀ slot, s.slot = some slot → slot.walsender.isSome → ∃ i < dropAttempts + 2, exits i = true

section

variable {exits : ℕ → Bool} {i : ℕ} {phase following : TeardownStage}

theorem runTeardown_running
    (h : teardownStep config fx none (if exits i then exited s else s) phase =
      (s', .running following)) :
    runTeardown config fx exits (n + 1) i s phase = runTeardown config fx exits n
      (i + 1) s' following := by
  rw [runTeardown, h]

theorem runTeardown_raised {e : Error}
    (h : teardownStep config fx none (if exits i then exited s else s) phase = (s', .raised e)) :
    runTeardown config fx exits (n + 1) i s phase = (s', .raised e) := by
  rw [runTeardown, h]

theorem runTeardown_finished
    (h : teardownStep config fx none (if exits i then exited s else s) phase = (s', .finished)) :
    runTeardown config fx exits (n + 1) i s phase = (s', .finished) := by
  rw [runTeardown, h]

theorem exited_slotless (hslot : s.slot = none) : exited s = s := by
  obtain ⟨catalog, history, wal, slot, publication, checkpoint, targets⟩ := s
  cases hslot
  rfl

theorem ite_exited (hslot : s.slot = none) : (if exits i then exited s else s) = s := by
  rw [exited_slotless hslot, ite_self]

variable (config fx exits n i) in
theorem runTeardown_dropPublication (hslot : s.slot = none) :
    ((∃ name, quoteIdent config.publication = .ok name) ∧
      runTeardown config fx exits (n + 2) i s .dropPublication = (tornDown fx s, .finished)) ∨
    (¬ ∃ name, quoteIdent config.publication = .ok name) ∧
      ∃ e, runTeardown config fx exits (n + 2) i s .dropPublication = (s, .raised e) := by
  rcases exists_ok_or (quoteIdent config.publication) with ⟨name, hname⟩ | ⟨e, he⟩
  · refine .inl ⟨⟨name, hname⟩, ?_⟩
    rw [runTeardown_running (by simp only [teardownStep, ite_exited hslot, hname]; rfl)]
    have hslot' : ({ s with publication := none } : Server ι T F).slot = none := hslot
    refine runTeardown_finished ?_
    rw [ite_exited hslot', teardownStep, tornDown, hslot]
  · refine .inr ⟨?_, e, runTeardown_raised (by simp only [teardownStep, ite_exited hslot, he])⟩
    rintro ⟨name, hname⟩
    cases he.symm.trans hname

variable (config fx exits n i) in
theorem runTeardown_dropSlot {slot : Slot ι} {attempt left : ℕ} (hslot : s.slot = some slot)
    (hleft : attempt + left = dropAttempts) (hpos : 0 < left) :
    ((slot.walsender = none ∨ ∃ j < left, exits (i + j) = true) ∧ ∃ m j,
      runTeardown config fx exits (n + 2 + left) i s (.dropSlot attempt) =
        runTeardown config fx exits (m + 2) j { s with slot := none } .dropPublication) ∨
    (slot.walsender.isSome ∧ ∀ j < left, exits (i + j) = false) ∧ ∃ e,
      runTeardown config fx exits (n + 2 + left) i s (.dropSlot attempt) = (s, .raised e) := by
  -- on the attempts left; the walsender may exit before any of them
  induction left generalizing attempt i with
  | zero => cases hpos
  | succ left ih =>
    have hdrop : ∀ server : Server ι T F, (if exits i then exited s else s) = server →
        dropSlot server = .ok { s with slot := none } →
        runTeardown config fx exits (n + 2 + left + 1) i s (.dropSlot attempt) =
          runTeardown config fx exits (n + left + 2) (i + 1)
              { s with slot := none } .dropPublication := by
      intro server hserver hok
      rw [runTeardown_running (by rw [hserver, teardownStep]; simp only [Option.elim, hok]; rfl),
        Nat.add_right_comm]
    cases hexit : exits i with
    | true =>
      refine .inl ⟨.inr ⟨0, hpos, hexit⟩, n + left, i + 1, hdrop (exited s) (by rw [hexit]; rfl) ?_⟩
      rw [dropSlot, exited, hslot]
      rfl
    | false =>
      have hs : (if exits i then exited s else s) = s := by rw [hexit]; rfl
      cases hwalsender : slot.walsender with
      | none =>
        refine .inl ⟨.inl rfl, n + left, i + 1, hdrop s hs ?_⟩
        rw [dropSlot, hslot]
        simp [hwalsender]
      | some walsender =>
        have hactive : dropSlot s = .error (.database "replication slot is active") := by
          rw [dropSlot, hslot]
          simp [hwalsender]
        -- still active: the last attempt raises, any other one is followed by the next
        cases left with
        | zero =>
          refine .inr ⟨⟨rfl, fun j hj => ?_⟩, .database "replication slot is active", ?_⟩
          · obtain rfl : j = 0 := by omega
            exact hexit
          · refine runTeardown_raised ?_
            rw [hs, teardownStep]
            simp only [Option.elim, hactive, if_pos hleft]
        | succ left =>
          have hlater : attempt + 1 ≠ dropAttempts := by omega
          have hrun : runTeardown config fx exits (n + 2 + (left + 1) + 1) i s (.dropSlot attempt) =
              runTeardown config fx exits (n + 2 + (left + 1))
                  (i + 1) s (.dropSlot (attempt + 1)) := by
            refine runTeardown_running ?_
            rw [hs, teardownStep]
            simp only [Option.elim, hactive, if_neg hlater]
          have hnext : attempt + 1 + (left + 1) = dropAttempts := by omega
          have hstep : ∀ j, i + 1 + j = i + (j + 1) := fun j => by omega
          rw [hwalsender] at ih
          rcases ih (i := i + 1) hnext (Nat.succ_pos left) with
            ⟨hgone | ⟨j, hj, hexits⟩, hgoes⟩ | ⟨⟨-, hstays⟩, hraise⟩
          · cases hgone
          · refine .inl ⟨.inr ⟨j + 1, by omega, hstep j ▸ hexits⟩, ?_⟩
            exact hrun ▸ hgoes
          · refine .inr ⟨⟨rfl, fun j hj => ?_⟩, hrun ▸ hraise⟩
            cases j with
            | zero => exact hexit
            | succ j => exact hstep j ▸ hstays j (by omega)

def TeardownEnds (config : Config) (fx : Effects T F) (exits : ℕ → Bool) (s : Server ι T F)
    (r : Server ι T F × Status TeardownStage) : Prop :=
  (Releases exits s ∧ (∃ name, quoteIdent config.publication = .ok name) ∧
    r = (tornDown fx s, .finished)) ∨
  (Releases exits s ∧ (¬ ∃ name, quoteIdent config.publication = .ok name) ∧
    ∃ e, r = ({ s with slot := none }, .raised e)) ∨
  ¬ Releases exits s ∧ ∃ e, r = (s, .raised e)

theorem teardownEnds_dropPublication (hreleases : Releases exits s) :
    TeardownEnds config fx exits s
      (runTeardown config fx exits (n + 2) i { s with slot := none } .dropPublication) := by
  have hslot : ({ s with slot := none } : Server ι T F).slot = none := rfl
  rcases runTeardown_dropPublication config fx n exits i hslot with ⟨hname, hend⟩ | ⟨hname, e, hend⟩
  · exact .inl ⟨hreleases, hname, hend⟩
  · exact .inr (.inl ⟨hreleases, hname, e, hend⟩)

theorem teardownEnds_dropSlot {server : Server ι T F} {slot : Slot ι}
    (hrest : ({ server with slot := none } : Server ι T F) = { s with slot := none })
    (hslot : server.slot = some slot) (hnone : slot.walsender = none)
      (hreleases : Releases exits s) :
    TeardownEnds config fx exits s
      (runTeardown config fx exits (n + 2 + dropAttempts) i server (.dropSlot 0)) := by
  rcases runTeardown_dropSlot config fx n exits i hslot (Nat.zero_add dropAttempts)
    (by decide) with ⟨-, m, j, hdrop⟩ | ⟨⟨hactive, -⟩, -⟩
  · rw [hdrop, hrest]
    exact teardownEnds_dropPublication hreleases
  · rw [hnone] at hactive
    cases hactive

theorem teardownEnds_terminate {slot : Slot ι} (hslot : s.slot = some slot)
    (hactive : slot.walsender.isSome) (hexit : exits 0 = false) :
    TeardownEnds config fx exits s
      (runTeardown config fx exits (dropAttempts + 3) 1 s .terminate) := by
  have hrun : ∀ server : Server ι T F, (if exits 1 then exited s else s) = server →
      runTeardown config fx exits (dropAttempts + 3) 1 s .terminate =
        runTeardown config fx exits (0 + 2 + dropAttempts) 2 server (.dropSlot 0) := by
    intro server hserver
    exact runTeardown_running (by rw [hserver]; rfl)
  cases hexit' : exits 1 with
  | true =>
    rw [hrun (exited s) (by rw [hexit']; rfl)]
    have hexited : (exited s).slot = some { slot with walsender := none } := by
      rw [exited, hslot]
      rfl
    exact teardownEnds_dropSlot rfl hexited rfl fun _ _ _ => ⟨1, by decide, hexit'⟩
  | false =>
    rw [hrun s (by rw [hexit']; rfl)]
    rcases runTeardown_dropSlot config fx 0 exits 2 hslot (Nat.zero_add dropAttempts)
      (by decide) with ⟨hgone, m, j, hdrop⟩ | ⟨⟨-, hstays⟩, hraise⟩
    · rw [hdrop]
      refine teardownEnds_dropPublication fun _ _ _ => ?_
      rcases hgone with hgone | ⟨k, hk, hexits⟩
      · rw [hgone] at hactive
        cases hactive
      · exact ⟨2 + k, by omega, hexits⟩
    · refine .inr (.inr ⟨fun hreleases => ?_, hraise⟩)
      obtain ⟨k, hk, hexits⟩ := hreleases slot hslot hactive
      have hstay : exits k = false := by
        match k, hk with
        | 0, _ => exact hexit
        | 1, _ => exact hexit'
        | k + 2, hk => exact Nat.add_comm 2 k ▸ hstays k (by omega)
      cases hstay.symm.trans hexits

variable (config fx exits s) in
theorem teardown_ends : TeardownEnds config fx exits s (teardown config fx exits s) := by
  unfold teardown
  cases hslot : s.slot with
  | none =>
    have hrun : runTeardown config fx exits (dropAttempts + 4) 0 s .inspectSlot =
        runTeardown config fx exits (dropAttempts + 3) 1 { s with slot := none }
            .dropPublication := by
      refine runTeardown_running ?_
      rw [ite_exited hslot, teardownStep]
      simp only [hslot]
      rw [← hslot]
    rw [hrun]
    exact teardownEnds_dropPublication fun slot hsome => (by cases hslot.symm.trans hsome)
  | some slot =>
    -- what the first statement finds
    have hinspect : ∀ (server : Server ι T F) (free : Slot ι),
        (if exits 0 then exited s else s) = server → server.slot = some free →
        free.walsender = none → runTeardown config fx exits (dropAttempts + 4) 0 s .inspectSlot =
          runTeardown config fx exits (1 + 2 + dropAttempts) 1 server (.dropSlot 0) := by
      intro server free hserver hfree hnone
      refine runTeardown_running ?_
      rw [hserver, teardownStep, hfree]
      simp [hnone]
    cases hexit : exits 0 with
    | true =>
      have hexited : (exited s).slot = some { slot with walsender := none } := by
        rw [exited, hslot]
        rfl
      rw [hinspect (exited s) _ (by rw [hexit]; rfl) hexited rfl]
      exact teardownEnds_dropSlot rfl hexited rfl fun _ _ _ => ⟨0, by decide, hexit⟩
    | false =>
      have hs : (if exits 0 then exited s else s) = s := by rw [hexit]; rfl
      cases hwalsender : slot.walsender with
      | none =>
        rw [hinspect s slot hs hslot hwalsender]
        refine teardownEnds_dropSlot rfl hslot hwalsender fun other hother hactive => ?_
        cases hslot.symm.trans hother
        rw [hwalsender] at hactive
        cases hactive
      | some walsender =>
        have hrun : runTeardown config fx exits (dropAttempts + 4) 0 s .inspectSlot =
            runTeardown config fx exits (dropAttempts + 3) 1 s .terminate := by
          refine runTeardown_running ?_
          rw [hs, teardownStep, hslot]
          simp [hwalsender]
        rw [hrun]
        exact teardownEnds_terminate hslot (by rw [hwalsender]; rfl) hexit

theorem tornDown_of_finished (h : teardown config fx exits s = (s', .finished)) :
    s' = tornDown fx s := by
  rcases teardown_ends config fx s exits with
    ⟨-, -, hend⟩ | ⟨-, -, e, hend⟩ | ⟨-, e, hend⟩
  · cases hend.symm.trans h
    rfl
  · cases hend.symm.trans h
  · cases hend.symm.trans h

/-- Teardown finishes if the slot's walsender is gone by the last attempt to drop it and the
publication may be named, and then nothing is left; otherwise it raises, with the slot dropped and
nothing else changed if the slot could go, and with nothing changed if not. -/
theorem teardown_outcome :
    (teardown config fx exits s = (tornDown fx s, .finished) ↔
      Releases exits s ∧ ∃ name, quoteIdent config.publication = .ok name) ∧
    ∀ s', (teardown config fx exits s = (s', .finished) → s' = tornDown fx s) ∧
      (∀ stage, teardown config fx exits s ≠ (s', .running stage)) ∧
      ∀ e, teardown config fx exits s = (s', .raised e) →
        (Releases exits s ∧ s' = { s with slot := none }) ∨ ¬ Releases exits s ∧ s' = s := by
  rcases teardown_ends config fx s exits with
    ⟨hreleases, hname, hend⟩ | ⟨hreleases, hname, e, hend⟩ | ⟨hreleases, e, hend⟩
  all_goals simp only [hend, Prod.mk.injEq, reduceCtorEq, and_false, and_true, false_iff, true_iff]
  · refine ⟨⟨hreleases, hname⟩, fun s' => ⟨Eq.symm, fun stage h => (by cases h),
      fun _ => False.elim⟩⟩
  · refine ⟨fun h => hname h.2, fun s' => ⟨False.elim, fun stage h => (by cases h), ?_⟩⟩
    exact fun _ h => .inl ⟨hreleases, h.1.symm⟩
  · refine ⟨fun h => hreleases h.1, fun s' => ⟨False.elim, fun stage h => (by cases h), ?_⟩⟩
    exact fun _ h => .inr ⟨hreleases, h.1.symm⟩

end

/-! ### One after the other -/

/-- What setup leaves after a teardown owes nothing to what was there before the teardown but the
catalog and the source transactions. -/
theorem setup_after_teardown {exits exits' : ℕ → Bool} {s₁ s₂ t₁ t₂ : Server ι T F} {lsn : ℕ}
    {text : String}
    (hcatalog : s₁.catalog = s₂.catalog) (hhistory : s₁.history = s₂.history)
    (h₁ : teardown config fx exits s₁ = (t₁, .finished))
    (h₂ : teardown config fx exits' s₂ = (t₂, .finished))
    (hsetup : setup config fx force (answer lsn text) t₁ = (s', .finished)) :
    setup config fx false (answer lsn text) t₂ = (s', .finished) := by
  obtain rfl := tornDown_of_finished h₁
  obtain rfl := tornDown_of_finished h₂
  obtain ⟨hready, hprovisioned⟩ := provisioned_of_finished hsetup
  have hready' : Ready config fx false text (tornDown fx s₂) := by
    refine ⟨?_, ?_, ?_, hready.tables, hready.publication, hready.slotName, ?_, ?_,
      hready.consistentPoint⟩
    · exact hcatalog ▸ hready.version
    · exact hcatalog ▸ hready.walLevel
    · exact hcatalog ▸ hready.sources
    · exact fun slot hslot => (by cases hslot)
    · exact hhistory ▸ hready.backfill
  obtain ⟨s'', hs'', hprovisioned'⟩ := finished_of_ready hready'
  have heq : s' = s'' := hprovisioned.unique hprovisioned' (congrArg _ hcatalog) hhistory rfl
  exact heq ▸ hs''

theorem setup_after_teardown_running : ∃ t : Server Unit Unit Empty, t.row = some 16 ∧
    setup sampleConfig keepTargets false (answer 16 "0/10") (tornDown keepTargets slotlessServer) =
      (t, .finished) := by
  have hcatalog : runningServer.catalog = slotlessServer.catalog := rfl
  have hhistory : runningServer.history = slotlessServer.history := rfl
  have hrunning : teardown sampleConfig keepTargets (fun i => i == 5) runningServer =
      (tornDown keepTargets runningServer, .finished) := rfl
  have hslotless : teardown sampleConfig keepTargets (fun _ => false) slotlessServer =
      (tornDown keepTargets slotlessServer, .finished) := rfl
  have hsetup : setup sampleConfig keepTargets false (answer 16 "0/10")
      (tornDown keepTargets runningServer) = (_, .finished) := rfl
  exact ⟨_, rfl, setup_after_teardown hcatalog hhistory hrunning hslotless hsetup⟩

theorem fullIdentity_append (names names' : List (String × String)) (catalog : Catalog) :
    fullIdentity names' (fullIdentity names catalog) = fullIdentity (names ++ names') catalog := by
  induction names generalizing catalog with
  | nil =>
    have hnil : fullIdentity [] catalog = catalog := by
      unfold fullIdentity
      simp
    rw [hnil, List.nil_append]
  | cons name names ih =>
    rw [fullIdentity_cons name names, ih, List.cons_append,
      fullIdentity_cons name (names ++ names')]

theorem fullIdentity_of_subset {names all : List (String × String)} (hsubset : names ⊆ all)
    (catalog : Catalog) : fullIdentity all (fullIdentity names catalog) =
      fullIdentity all catalog := by
  rw [fullIdentity_append]
  unfold fullIdentity
  have hmem : ∀ name, name ∈ names ++ all ↔ name ∈ all := fun name =>
    ⟨fun h => (List.mem_append.mp h).elim (fun h => hsubset h) id, List.mem_append_right names⟩
  simp only [hmem]

theorem ensureSource_full {name : String × String} (h : ensureSource s name = .ok s') :
    s' = { s with catalog := fullIdentity [name] s.catalog } := by
  cases hsource : s.catalog.source name with
  | none =>
    rw [ensureSource, hsource] at h
    cases h
  | some table =>
    have hsome : (s.catalog.source name).isSome := hsource ▸ rfl
    rcases ensureSource_cases name hsome with hok | ⟨⟨e, he⟩, -⟩
    · exact Except.ok.inj (h.symm.trans hok)
    · cases h.symm.trans he

/-- What a call that has not finished has left as it was, or as the next call would make it. -/
structure Kept (config : Config) (s s' : Server ι T F) : Prop where
  catalog : ∃ names ⊆ sourceTables config, s'.catalog = fullIdentity names s.catalog
  history : s'.history = s.history
  targets : s'.targets = s.targets
  slot : ∀ slot, s'.slot = some slot → slot.walsender = none

theorem Runs.kept {executed : List (Stage F)} {s₁ : Server ι T F}
    (h : Runs config fx force s executed s₁ stage) (hs : ∀ slot, s.slot = some slot →
      slot.walsender = none) :
    Kept config s s₁ ∧ ∀ left, stage = .sources left → left ⊆ sourceTables config := by
  induction h with
  | start =>
    refine ⟨⟨⟨[], List.nil_subset _, ?_⟩, rfl, rfl, hs⟩, fun left hleft => (by cases hleft)⟩
    unfold fullIdentity
    simp
  | @step executed s₁ s₂ stage next reply _ hstep ih =>
    obtain ⟨hkept, hsources⟩ := ih
    have hleaves := setupStep_running hstep
    cases stage with
    | version =>
      obtain ⟨rfl, rfl⟩ := hleaves
      exact ⟨hkept, fun left hleft => (by cases hleft)⟩
    | walLevel =>
      obtain ⟨rfl, rfl⟩ := hleaves
      refine ⟨hkept, ?_⟩
      rintro left ⟨⟩
      exact List.Subset.refl _
    | sources left =>
      cases left with
      | nil =>
        obtain ⟨rfl, rfl⟩ := hleaves
        exact ⟨hkept, fun left hleft => (by cases hleft)⟩
      | cons name left =>
        have hleft := hsources _ rfl
        cases hfault : reply.fault with
        | some e =>
          simp only [setupStep, hfault] at hstep
          cases hstep
        | none =>
          simp only [setupStep, hfault] at hstep
          obtain ⟨hensure, rfl⟩ := next_running hstep
          obtain rfl := ensureSource_full hensure
          -- this source joins those whose identity is full already
          obtain ⟨names, hnames, hcatalog⟩ := hkept.catalog
          refine ⟨⟨⟨names ++ [name], ?_, ?_⟩, hkept.history, hkept.targets, hkept.slot⟩, ?_⟩
          · exact List.append_subset.mpr ⟨hnames, List.cons_subset.mpr
              ⟨hleft List.mem_cons_self, List.nil_subset _⟩⟩
          · rw [hcatalog, fullIdentity_append]
          · rintro left' ⟨⟩
            exact (List.cons_subset.mp hleft).2
    | checkpointTable =>
      obtain ⟨rfl, rfl⟩ := hleaves
      exact ⟨⟨hkept.catalog, hkept.history, hkept.targets, hkept.slot⟩, fun left hleft =>
        (by cases hleft)⟩
    | publication =>
      obtain ⟨hensure, rfl⟩ := hleaves
      obtain ⟨tables, -, rfl⟩ := ensurePublication_ok hensure
      exact ⟨⟨hkept.catalog, hkept.history, hkept.targets, hkept.slot⟩, fun left hleft =>
        (by cases hleft)⟩
    | inspectSlot =>
      obtain ⟨rfl, ⟨-, rfl⟩ | ⟨-, rfl⟩⟩ := hleaves
      · exact ⟨hkept, fun left hleft => (by cases hleft)⟩
      · exact ⟨hkept, fun left hleft => (by cases hleft)⟩
    | dropSlot =>
      obtain ⟨rfl, rfl⟩ := hleaves
      refine ⟨⟨hkept.catalog, hkept.history, hkept.targets, ?_⟩, fun left hleft => (by cases hleft)⟩
      exact fun slot hslot => (by cases hslot)
    | deleteCheckpoint =>
      obtain ⟨rfl, rfl⟩ := hleaves
      exact ⟨⟨hkept.catalog, hkept.history, hkept.targets, hkept.slot⟩, fun left hleft =>
        (by cases hleft)⟩
    | connect =>
      obtain ⟨rfl, rfl⟩ := hleaves
      exact ⟨hkept, fun left hleft => (by cases hleft)⟩
    | createSlot =>
      obtain ⟨⟨lsn, rfl⟩, text, snapshot, rfl⟩ := hleaves
      refine ⟨⟨hkept.catalog, hkept.history, hkept.targets, ?_⟩, fun left hleft => (by cases hleft)⟩
      rintro _ ⟨⟩
      rfl
    | backfill => exact hleaves.elim

theorem Kept.raised {s₁ : Server ι T F} {e : Error} (h : Kept config s s₁)
    (hraised : setupStep config fx force reply s₁ stage = (s', .raised e)) : Kept config s s' := by
  rcases setupStep_raised hraised with rfl | ⟨-, -, lsn, rfl⟩
  · exact h
  · refine ⟨h.catalog, h.history, h.targets, ?_⟩
    rintro _ ⟨⟩
    rfl

theorem Kept.ready {text : String} (h : Kept config s s') (hready : Ready config fx force text s) :
    Ready config fx true text s' := by
  obtain ⟨names, -, hcatalog⟩ := h.catalog
  refine ⟨?_, ?_, fun name hname => ?_, hready.tables, hready.publication, hready.slotName, ?_, ?_,
    hready.consistentPoint⟩
  · rw [hcatalog]
    exact hready.version
  · rw [hcatalog]
    exact hready.walLevel
  · have hsome := hready.sources name hname
    rw [Option.isSome_iff_ne_none, ne_eq, ← source_fullIdentity names, ← hcatalog] at hsome
    exact Option.isSome_iff_ne_none.mpr hsome
  · exact fun slot hslot => ⟨rfl, h.slot slot hslot⟩
  · rw [h.history, h.targets]
    exact hready.backfill

/-- Wherever a call of setup stops short of its end, the next one with force leaves the server as it
would have left it without that call. -/
theorem setup_after_interruption {lsn : ℕ} {text : String} {executed : List (Stage F)}
    {s₁ t : Server ι T F} (hrun : Runs config fx force s executed s₁ stage)
    (hstop : s' = s₁ ∨ ∃ reply e, setupStep config fx force reply s₁ stage = (s', .raised e))
    (hsetup : setup config fx true (answer lsn text) s = (t, .finished)) :
    setup config fx true (answer lsn text) s' = (t, .finished) := by
  obtain ⟨hready, hprovisioned⟩ := provisioned_of_finished hsetup
  have hkept₁ := (hrun.kept fun slot hslot => (hready.slot slot hslot).2).1
  have hkept : Kept config s s' := by
    rcases hstop with rfl | ⟨reply, e, hraised⟩
    · exact hkept₁
    · exact hkept₁.raised hraised
  obtain ⟨t', ht', hprovisioned'⟩ := finished_of_ready (hkept.ready hready)
  obtain ⟨names, hnames, hcatalog⟩ := hkept.catalog
  have hcatalogs : fullIdentity (sourceTables config) s'.catalog =
      fullIdentity (sourceTables config) s.catalog := by
    rw [hcatalog, fullIdentity_of_subset hnames]
  exact hprovisioned.unique hprovisioned' hcatalogs.symm hkept.history.symm hkept.targets.symm ▸ ht'

theorem setup_after_interruption_backfill : ∃ s' t : Server Unit Unit Empty, s'.slot.isSome ∧
    s'.row = none ∧ setup sampleConfig keepTargets true (answer 48 "0/30") s' = (t, .finished) := by
  obtain ⟨executed, s₁, s', stage, e, hruns, -, hraised, hslot, hrow⟩ := failedBackfill_raises
  exact ⟨s', _, hslot, hrow, setup_after_interruption hruns (.inr ⟨_, e, hraised⟩) rfl⟩

end WalFlux.Bootstrap
