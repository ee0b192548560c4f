import WalFlux.Aggregates.Exactness
import WalFlux.Bootstrap

/-! What a call of `setup` has changed when it raises: before it has dropped or created a slot, and
after it has created one. -/

namespace WalFlux.Bootstrap

open Aggregates

variable {ι T F : Type} {config : Config} {fx : Effects T F} {force : Bool} {s s₁ s' : Server ι T F}
  {executed : List (Stage F)} {stage : Stage F}

/-! ### A call of setup -/

/-- The statements executed since the call on `s`, the server they left and the next statement. -/
inductive Runs (config : Config) (fx : Effects T F) (force : Bool) (s : Server ι T F) :
    List (Stage F) → Server ι T F → Stage F → Prop
  | start : Runs config fx force s [] s .version
  | step {executed : List (Stage F)} {s₁ s₂ : Server ι T F} {stage next : Stage F} {reply : Reply} :
      Runs config fx force s executed s₁ stage →
      setupStep config fx force reply s₁ stage = (s₂, .running next) →
      Runs config fx force s (executed ++ [stage]) s₂ next

theorem next_running {r : Except Error (Server ι T F)} {after : Stage F}
    (h : next s r after = (s', .running stage)) : r = .ok s' ∧ stage = after := by
  cases r with
  | error e => cases h
  | ok server =>
    cases h
    exact ⟨rfl, rfl⟩

def Leaves (config : Config) (s s' : Server ι T F) (after : Stage F) : Stage F → Prop
  | .version => s' = s ∧ after = .walLevel
  | .walLevel => s' = s ∧ after = .sources (sourceTables config)
  | .sources [] => s' = s ∧ after = .checkpointTable
  | .sources (_ :: left) => (∃ catalog, s' = { s with catalog := catalog }) ∧ after = .sources left
  | .checkpointTable => s' = { s with checkpoint := some s.row } ∧ after = .publication
  | .publication => ensurePublication config s = .ok s' ∧ after = .inspectSlot
  | .inspectSlot => s' = s ∧
      (s.slot.isSome ∧ after = .dropSlot ∨ s.slot = none ∧ after = .deleteCheckpoint)
  | .dropSlot => s' = { s with slot := none } ∧ after = .deleteCheckpoint
  | .deleteCheckpoint => s' = { s with checkpoint := some none } ∧ after = .connect
  | .connect => s' = s ∧ after = .createSlot
  | .createSlot => (∃ lsn, s' = { s with slot := some ⟨lsn, none, none⟩, wal := lsn }) ∧
      ∃ text snapshot, after = .backfill text snapshot
  | .backfill _ _ => False

theorem setupStep_running {reply : Reply} {after : Stage F}
    (h : setupStep config fx force reply s stage = (s', .running after)) :
    Leaves config s s' after stage := by
  cases hfault : reply.fault with
  | some e => cases stage <;> simp only [setupStep, hfault] at h <;> cases h
  | none =>
    cases stage with
    | version =>
      simp only [setupStep, hfault] at h
      obtain ⟨hr, rfl⟩ := next_running h
      obtain ⟨_, -, rfl⟩ := Except.map_eq_ok.mp hr
      exact ⟨rfl, rfl⟩
    | walLevel =>
      simp only [setupStep, hfault] at h
      obtain ⟨hr, rfl⟩ := next_running h
      obtain ⟨_, -, rfl⟩ := Except.map_eq_ok.mp hr
      exact ⟨rfl, rfl⟩
    | sources left =>
      cases left with
      | nil =>
        simp only [setupStep, hfault] at h
        cases h
        exact ⟨rfl, rfl⟩
      | cons name left =>
        simp only [setupStep, hfault] at h
        obtain ⟨hr, rfl⟩ := next_running h
        exact ⟨ensureSource_ok hr, rfl⟩
    | checkpointTable =>
      simp only [setupStep, hfault] at h
      cases h
      exact ⟨rfl, rfl⟩
    | publication =>
      simp only [setupStep, hfault] at h
      exact next_running h
    | inspectSlot =>
      simp only [setupStep, hfault] at h
      cases hinspect : inspectSlot config force s with
      | error e =>
        rw [hinspect] at h
        cases h
      | ok drop =>
        cases drop with
        | false =>
          rw [hinspect] at h
          cases h
          exact ⟨rfl, .inr ⟨inspectSlot_false hinspect, rfl⟩⟩
        | true =>
          rw [hinspect] at h
          cases h
          refine ⟨rfl, .inl ⟨?_, rfl⟩⟩
          cases hslot : s.slot with
          | none => simp [inspectSlot, hslot] at hinspect
          | some slot => rfl
    | dropSlot =>
      simp only [setupStep, hfault] at h
      obtain ⟨hr, rfl⟩ := next_running h
      exact ⟨dropSlot_ok hr, rfl⟩
    | deleteCheckpoint =>
      simp only [setupStep, hfault] at h
      obtain ⟨hr, rfl⟩ := next_running h
      exact ⟨deleteCheckpoint_ok hr, rfl⟩
    | connect =>
      simp only [setupStep, hfault] at h
      cases h
      exact ⟨rfl, rfl⟩
    | createSlot =>
      simp only [setupStep, hfault] at h
      cases hcreate : createSlot config s reply.lsn with
      | error e =>
        rw [hcreate] at h
        cases h
      | ok server =>
        obtain ⟨-, rfl⟩ := createSlot_ok hcreate
        cases hpoint : reply.consistentPoint with
        | none =>
          rw [hcreate, hpoint] at h
          cases h
        | some text =>
          rw [hcreate, hpoint] at h
          cases h
          exact ⟨⟨_, rfl⟩, _, _, rfl⟩
    | backfill text snapshot =>
      simp only [setupStep, hfault] at h
      cases hbackfill : backfill fx s text snapshot <;> rw [hbackfill] at h <;> cases h

/-- A statement that raises has changed nothing, except that a slot may have been created without a
row to tell its position. -/
theorem setupStep_raised {reply : Reply} {e : Error}
    (h : setupStep config fx force reply s stage = (s', .raised e)) :
    s' = s ∨ stage = .createSlot ∧ s.slot = none ∧
      ∃ lsn, s' = { s with slot := some ⟨lsn, none, none⟩, wal := lsn } := by
  have hnext : ∀ (r : Except Error (Server ι T F)) (after : Stage F),
      next s r after = (s', .raised e) → s' = s := by
    intro r after hr
    cases r <;> cases hr
    rfl
  cases hfault : reply.fault with
  | some e' => cases stage <;> simp only [setupStep, hfault] at h <;> cases h <;> exact .inl rfl
  | none =>
    cases stage with
    | sources left =>
      cases left with
      | nil =>
        simp only [setupStep, hfault] at h
        cases h
      | cons name left =>
        simp only [setupStep, hfault] at h
        exact .inl (hnext _ _ h)
    | checkpointTable =>
      simp only [setupStep, hfault] at h
      cases h
    | connect =>
      simp only [setupStep, hfault] at h
      cases h
    | inspectSlot =>
      simp only [setupStep, hfault] at h
      cases hinspect : inspectSlot config force s with
      | error e' =>
        rw [hinspect] at h
        cases h
        exact .inl rfl
      | ok drop => cases drop <;> rw [hinspect] at h <;> cases h
    | createSlot =>
      simp only [setupStep, hfault] at h
      cases hcreate : createSlot config s reply.lsn with
      | error e' =>
        rw [hcreate] at h
        cases h
        exact .inl rfl
      | ok server =>
        obtain ⟨hnone, rfl⟩ := createSlot_ok hcreate
        cases hpoint : reply.consistentPoint <;> rw [hcreate, hpoint] at h <;> cases h
        exact .inr ⟨rfl, hnone, _, rfl⟩
    | backfill text snapshot =>
      simp only [setupStep, hfault] at h
      cases hbackfill : backfill fx s text snapshot <;> rw [hbackfill] at h <;> cases h
      exact .inl rfl
    | _ =>
      simp only [setupStep, hfault] at h
      exact .inl (hnext _ _ h)

/-! ### Before a slot is dropped or created -/

def publicationTables (config : Config) : Except Error (List Sql.TableName) :=
  (sourceTables config).mapM fun name => do return ⟨← quoteIdent name.1, ← quoteIdent name.2⟩

theorem ensurePublication_ok (h : ensurePublication config s = .ok s') :
    ∃ tables, publicationTables config = .ok tables ∧ s' =
      { s with publication := some tables } := by
  obtain ⟨tables, htables, h⟩ := Except.bind_eq_ok.mp h
  obtain ⟨_, -, h⟩ := Except.bind_eq_ok.mp h
  exact ⟨tables, htables, (Except.pure_eq_ok.mp h).symm⟩

def Stage.UpToPublication : Stage F → Prop
  | .version | .walLevel | .sources _ | .checkpointTable | .publication => True
  | _ => False

def Stage.touchesSlot : Stage F → Bool
  | .dropSlot | .createSlot => true
  | _ => false

/-- What a call has left alone, at each point before it drops or creates a slot. -/
def Spared (config : Config) (s s₁ : Server ι T F) : Stage F → Prop
  | .version | .walLevel | .sources _ | .checkpointTable | .publication =>
    s₁.slot = s.slot ∧ s₁.row = s.row ∧ s₁.publication = s.publication
  | .inspectSlot | .dropSlot => s₁.slot = s.slot ∧ s₁.row = s.row ∧
      ∃ tables, publicationTables config = .ok tables ∧ s₁.publication = some tables
  | .deleteCheckpoint | .connect | .createSlot => s₁.slot = s.slot ∧ s.slot = none ∧
      ∃ tables, publicationTables config = .ok tables ∧ s₁.publication = some tables
  | .backfill _ _ => False

theorem Runs.targets_eq (h : Runs config fx force s executed s₁ stage) :
    s₁.targets = s.targets := by
  induction h with
  | start => rfl
  | @step executed s₁ s₂ stage next reply _ hstep ih =>
    rw [← ih]
    have hleaves := setupStep_running hstep
    cases stage with
    | sources left =>
      cases left with
      | nil => rw [hleaves.1]
      | cons name left =>
        obtain ⟨⟨_, rfl⟩, -⟩ := hleaves
        rfl
    | publication =>
      obtain ⟨_, -, hs⟩ := ensurePublication_ok hleaves.1
      rw [hs]
    | createSlot =>
      obtain ⟨⟨_, rfl⟩, -⟩ := hleaves
      rfl
    | backfill => exact hleaves.elim
    | _ => rw [hleaves.1]

theorem Runs.spared (h : Runs config fx force s executed s₁ stage)
    (hexecuted : ∀ stage ∈ executed, stage.touchesSlot = false) : Spared config s s₁ stage := by
  induction h with
  | start => exact ⟨rfl, rfl, rfl⟩
  | @step executed s₁ s₂ stage next reply _ hstep ih =>
    obtain ⟨hexecuted, hstage⟩ := List.forall_mem_append.mp hexecuted
    have hspared := ih hexecuted
    have htouches := hstage stage (List.mem_singleton_self _)
    have hleaves := setupStep_running hstep
    -- only the row of a server without a slot and the publication may have changed
    cases stage with
    | version =>
      obtain ⟨rfl, rfl⟩ := hleaves
      exact hspared
    | walLevel =>
      obtain ⟨rfl, rfl⟩ := hleaves
      exact hspared
    | sources left =>
      cases left with
      | nil =>
        obtain ⟨rfl, rfl⟩ := hleaves
        exact hspared
      | cons name left =>
        obtain ⟨⟨_, rfl⟩, rfl⟩ := hleaves
        exact hspared
    | checkpointTable =>
      obtain ⟨rfl, rfl⟩ := hleaves
      exact hspared
    | publication =>
      obtain ⟨hs, rfl⟩ := hleaves
      obtain ⟨tables, htables, rfl⟩ := ensurePublication_ok hs
      exact ⟨hspared.1, hspared.2.1, tables, htables, rfl⟩
    | inspectSlot =>
      obtain ⟨rfl, ⟨-, rfl⟩ | ⟨hnone, rfl⟩⟩ := hleaves
      · exact hspared
      · exact ⟨hspared.1, hspared.1 ▸ hnone, hspared.2.2⟩
    | dropSlot => cases htouches
    | deleteCheckpoint =>
      obtain ⟨rfl, rfl⟩ := hleaves
      exact hspared
    | connect =>
      obtain ⟨rfl, rfl⟩ := hleaves
      exact hspared
    | createSlot => cases htouches
    | backfill => exact hleaves.elim

/-- A call that raises before it drops or creates a slot leaves the slot and the targets alone; it
deletes the checkpoint row only where there is no slot, and the publication is as it was or holds
the tables of the configuration. -/
theorem refused_setup {reply : Reply} {e : Error} (hrun : Runs config fx force s executed s₁ stage)
    (hexecuted : ∀ stage ∈ executed, stage.touchesSlot = false)
    (hraised : setupStep config fx force reply s₁ stage = (s', .raised e))
    (hslot : s'.slot = s₁.slot) :
    s'.slot = s.slot ∧ s'.targets = s.targets ∧ (s.slot.isSome → s'.row = s.row) ∧
      (stage.UpToPublication → s'.row = s.row ∧ s'.published = s.published) ∧
      (s'.published = s.published ∨
        ∃ tables, publicationTables config = .ok tables ∧ s'.published = some {t | t ∈ tables}) ∧
      ∀ tables, publicationTables config = .ok tables → s.published = some {t | t ∈ tables} →
        s'.published = s.published := by
  have hs' : s' = s₁ := by
    rcases setupStep_raised hraised with h | ⟨-, hnone, lsn, rfl⟩
    · exact h
    · cases hslot.trans hnone
  subst hs'
  have hspared := hrun.spared hexecuted
  have hkept (h : s'.publication = s.publication) : s'.published = s.published := by
    rw [Server.published, Server.published, h]
  have hnew : s'.published = s.published ∨
      ∃ tables, publicationTables config = .ok tables ∧ s'.published = some {t | t ∈ tables} := by
    cases stage with
    | backfill => exact hspared.elim
    | version => exact .inl (hkept hspared.2.2)
    | walLevel => exact .inl (hkept hspared.2.2)
    | sources => exact .inl (hkept hspared.2.2)
    | checkpointTable => exact .inl (hkept hspared.2.2)
    | publication => exact .inl (hkept hspared.2.2)
    | _ =>
      obtain ⟨-, -, tables, htables, hpublication⟩ := hspared
      exact .inr ⟨tables, htables, by rw [Server.published, hpublication]; rfl⟩
  refine ⟨?_, hrun.targets_eq, ?_, ?_, hnew, ?_⟩
  · cases stage with
    | backfill => exact hspared.elim
    | _ => exact hspared.1
  · intro hsome
    cases stage with
    | backfill => exact hspared.elim
    | deleteCheckpoint => simp [hspared.2.1] at hsome
    | connect => simp [hspared.2.1] at hsome
    | createSlot => simp [hspared.2.1] at hsome
    | _ => exact hspared.2.1
  · intro hup
    have hleft : s'.slot = s.slot ∧ s'.row = s.row ∧ s'.publication = s.publication := by
      cases stage <;> first | exact hspared | exact hup.elim
    exact ⟨hleft.2.1, hkept hleft.2.2⟩
  · intro tables htables hpublished
    rcases hnew with h | ⟨tables', htables', h⟩
    · exact h
    · cases htables.symm.trans htables'
      rw [h, hpublished]

/-! ### After a slot was created -/

def Prepared (s₁ : Server ι T F) : Stage F → Prop
  | .deleteCheckpoint => s₁.slot = none
  | .connect | .createSlot => s₁.slot = none ∧ s₁.row = none
  | .backfill _ _ => s₁.row = none ∧ ∃ lsn, s₁.slot = some ⟨lsn, none, none⟩
  | _ => True

theorem Runs.prepared (h : Runs config fx force s executed s₁ stage) : Prepared s₁ stage := by
  induction h with
  | start => trivial
  | @step executed s₁ s₂ stage next reply _ hstep ih =>
    have hleaves := setupStep_running hstep
    cases stage with
    | sources left =>
      cases left <;> rw [hleaves.2] <;> trivial
    | inspectSlot =>
      obtain ⟨rfl, ⟨-, rfl⟩ | ⟨hnone, rfl⟩⟩ := hleaves
      · trivial
      · exact hnone
    | dropSlot =>
      obtain ⟨rfl, rfl⟩ := hleaves
      rfl
    | deleteCheckpoint =>
      obtain ⟨rfl, rfl⟩ := hleaves
      exact ⟨ih, rfl⟩
    | connect =>
      obtain ⟨rfl, rfl⟩ := hleaves
      exact ih
    | createSlot =>
      obtain ⟨⟨lsn, rfl⟩, text, snapshot, rfl⟩ := hleaves
      exact ⟨ih.2, lsn, rfl⟩
    | backfill => exact hleaves.elim
    | _ =>
      obtain ⟨-, rfl⟩ := hleaves
      trivial

theorem Runs.backfill_of_mem (h : Runs config fx force s executed s₁ stage)
    (hmem : .createSlot ∈ executed) : ∃ text snapshot, stage = .backfill text snapshot := by
  induction h with
  | start => cases hmem
  | @step executed s₁ s₂ stage next reply _ hstep ih =>
    have hleaves := setupStep_running hstep
    rcases List.mem_append.mp hmem with hmem | hmem
    · obtain ⟨text, snapshot, rfl⟩ := ih hmem
      exact hleaves.elim
    · cases List.mem_singleton.mp hmem
      exact hleaves.2

/-- A call that raises with a slot created leaves that slot, no checkpoint row and the old targets.
A daemon finds no checkpoint; setup refuses without force, and with force drops the slot first. -/
theorem half_born_slot {reply : Reply} {e : Error} (hrun : Runs config fx force s executed s₁ stage)
    (hraised : setupStep config fx force reply s₁ stage = (s', .raised e))
    (hcreated : .createSlot ∈ executed ∨ stage = .createSlot ∧ s'.slot ≠ s₁.slot) :
    (∃ lsn, s'.slot = some ⟨lsn, none, none⟩) ∧ s'.row = none ∧ s'.targets = s.targets ∧
      (∃ msg, inspectSlot config false s' = .error (.setup msg)) ∧
      inspectSlot config true s' = .ok true ∧ dropSlot s' = .ok { s' with slot := none } := by
  have hleft : (∃ lsn, s'.slot = some ⟨lsn, none, none⟩) ∧ s'.row = none ∧
      s'.targets = s₁.targets := by
    rcases setupStep_raised hraised with rfl | ⟨rfl, hnone, lsn, rfl⟩
    · rcases hcreated with hmem | ⟨-, hne⟩
      · obtain ⟨text, snapshot, rfl⟩ := hrun.backfill_of_mem hmem
        exact ⟨hrun.prepared.2, hrun.prepared.1, rfl⟩
      · exact absurd rfl hne
    · exact ⟨⟨lsn, rfl⟩, hrun.prepared.2, rfl⟩
  obtain ⟨⟨lsn, hslot⟩, hrow, htargets⟩ := hleft
  refine ⟨⟨lsn, hslot⟩, hrow, htargets.trans hrun.targets_eq, ?_, ?_, ?_⟩
  · simp [inspectSlot, hslot]
  · simp [inspectSlot, hslot]
  · simp [dropSlot, hslot]

/-! ### Samples -/

def sampleConfig : Config := ⟨"walflux", "walflux", 200, 1, [sampleView]⟩

def sampleCatalog : Catalog :=
  ⟨160000, "16.0", "logical", fun name =>
    if name = ("public", "orders") then some ⟨'f', [("status", "text"), ("amount", "numeric")]⟩
    else none⟩

def keepTargets : Effects Unit Empty := ⟨fun _ t => .ok t, fun _ t => .ok t, ()⟩

def runningServer : Server Unit Unit Empty :=
  ⟨sampleCatalog, [], 10, some ⟨10, some (), some ⟨1, (), []⟩⟩,
    some [⟨⟨"public", by decide⟩, ⟨"orders", by decide⟩⟩,
      ⟨⟨"public", by decide⟩, ⟨"items", by decide⟩⟩],
    some (some 10), ()⟩

def slotlessServer : Server Unit Unit Empty := { runningServer with slot := none }

def runReplies (config : Config) (fx : Effects T F) (force : Bool) :
    List Reply → List (Stage F) → Server ι T F → Stage F →
      Option (List (Stage F) × Server ι T F × Stage F)
  | [], executed, s, stage => some (executed, s, stage)
  | reply :: replies, executed, s, stage =>
    match setupStep config fx force reply s stage with
    | (s, .running next) => runReplies config fx force replies (executed ++ [stage]) s next
    | _ => none

theorem Runs.of_replies {replies : List Reply} (h : Runs config fx force s executed s₁ stage)
    {executed' : List (Stage F)} {stage' : Stage F}
    (hrun : runReplies config fx force replies executed s₁ stage = some (executed', s', stage')) :
    Runs config fx force s executed' s' stage' := by
  induction replies generalizing executed s₁ stage with
  | nil =>
    cases hrun
    exact h
  | cons reply replies ih =>
    rw [runReplies] at hrun
    split at hrun
    · rename_i hstep
      exact ih (h.step hstep) hrun
    · cases hrun

def raisedAfter (config : Config) (fx : Effects T F) (force : Bool) (s : Server ι T F)
    (replies : List Reply) (reply : Reply) :
    Option (List (Stage F) × Server ι T F × Stage F × Server ι T F × Error) :=
  (runReplies config fx force replies [] s .version).bind fun p =>
    match setupStep config fx force reply p.2.1 p.2.2 with
    | (s', .raised e) => some (p.1, p.2.1, p.2.2, s', e)
    | _ => none

theorem raisedAfter_eq_some {replies : List Reply} {reply : Reply} {e : Error}
    (h : raisedAfter config fx force s replies reply = some (executed, s₁, stage, s', e)) :
    Runs config fx force s executed s₁ stage ∧
      setupStep config fx force reply s₁ stage = (s', .raised e) := by
  obtain ⟨⟨executed', s₁', stage'⟩, hrun, h⟩ := Option.bind_eq_some_iff.mp h
  split at h
  · rename_i hstep
    cases h
    exact ⟨Runs.of_replies .start hrun, hstep⟩
  · cases h

def Refused (config : Config) (fx : Effects T F) (force : Bool) (s s' : Server ι T F)
    (e : Error) : Prop :=
  ∃ executed s₁ stage reply, Runs config fx force s executed s₁ stage ∧
    (∀ stage ∈ executed, stage.touchesSlot = false) ∧
    setupStep config fx force reply s₁ stage = (s', .raised e) ∧ s'.slot = s₁.slot

theorem refused_of_raisedAfter {replies : List Reply} {reply : Reply} {e : Error}
    (h : raisedAfter config fx force s replies reply = some (executed, s₁, stage, s', e))
    (hexecuted : executed.all fun stage => !stage.touchesSlot)
    (hslot : s'.slot.isSome = s₁.slot.isSome) : Refused config fx force s s' e := by
  obtain ⟨hrun, hraised⟩ := raisedAfter_eq_some h
  refine ⟨executed, s₁, stage, reply, hrun, by simpa using hexecuted, hraised, ?_⟩
  rcases setupStep_raised hraised with rfl | ⟨-, hnone, lsn, rfl⟩
  · rfl
  · simp [hnone] at hslot

def quietReplies (n : ℕ) : List Reply := List.replicate n ⟨none, 10, none⟩

theorem runningServer_refused : ∃ s' msg,
    Refused sampleConfig keepTargets false runningServer s' (.setup msg) ∧
      s'.publication = some [⟨⟨"public", by decide⟩, ⟨"orders", by decide⟩⟩] := by
  have hrun : (raisedAfter sampleConfig keepTargets false runningServer (quietReplies 6)
      ⟨none, 10, none⟩).map (fun p => (p.1.all fun stage => !stage.touchesSlot,
        p.2.2.2.1.slot.isSome == p.2.1.slot.isSome, p.2.2.2.2.isSetup, p.2.2.2.1.publication)) =
      some (true, true, true, some [⟨⟨"public", by decide⟩, ⟨"orders", by decide⟩⟩]) := by
    decide +kernel
  obtain ⟨⟨executed, s₁, stage, s', e⟩, h, hp⟩ := Option.map_eq_some_iff.mp hrun
  simp only [Prod.mk.injEq, beq_iff_eq] at hp
  obtain ⟨hexecuted, hslot, he, hpublication⟩ := hp
  obtain ⟨msg, rfl⟩ := Error.isSetup_iff.mp he
  exact ⟨s', msg, refused_of_raisedAfter h hexecuted hslot, hpublication⟩

/-- Without force setup refuses the slot of a running daemon, with a table already taken out of its
publication; and where there is no slot, a refused walsender connection comes after the deletion of
the checkpoint row. -/
theorem refused_setup_changes :
    (∃ s' msg, Refused sampleConfig keepTargets false runningServer s' (.setup msg) ∧
      s'.published ≠ runningServer.published) ∧
    ∃ s' msg, Refused sampleConfig keepTargets false slotlessServer s' (.setup msg) ∧
      s'.row ≠ slotlessServer.row := by
  constructor
  · obtain ⟨s', msg, hrefused, hpublication⟩ := runningServer_refused
    refine ⟨s', msg, hrefused, fun hpublished => ?_⟩
    rw [Server.published, Server.published, hpublication] at hpublished
    have hitems := congrArg (fun tables => (⟨⟨"public", by decide⟩,
      ⟨"items", by decide⟩⟩ : Sql.TableName) ∈ tables)
      (Option.some.inj hpublished)
    simp at hitems
  · have hrun : (raisedAfter sampleConfig keepTargets false slotlessServer (quietReplies 8)
        ⟨some (.walflux "must be superuser or replication role to start walsender"), 10, none⟩).map
          (fun p => (p.1.all fun stage => !stage.touchesSlot,
            p.2.2.2.1.slot.isSome == p.2.1.slot.isSome, p.2.2.2.2.isSetup, p.2.2.2.1.row)) =
        some (true, true, true, none) := by decide +kernel
    obtain ⟨⟨executed, s₁, stage, s', e⟩, h, hp⟩ := Option.map_eq_some_iff.mp hrun
    simp only [Prod.mk.injEq, beq_iff_eq] at hp
    obtain ⟨hexecuted, hslot, he, hrow⟩ := hp
    obtain ⟨msg, rfl⟩ := Error.isSetup_iff.mp he
    refine ⟨s', msg, refused_of_raisedAfter h hexecuted hslot, ?_⟩
    rw [hrow]
    exact (Option.some_ne_none 10).symm

theorem refused_setup_running : ∃ s' : Server Unit Unit Empty,
    s'.slot = runningServer.slot ∧ s'.targets = runningServer.targets ∧ s'.row = some 10 := by
  obtain ⟨s', msg, ⟨executed, s₁, stage, reply, hruns, hexecuted, hraised, hslot⟩, -⟩ :=
    runningServer_refused
  obtain ⟨hs, ht, hrow, -⟩ := refused_setup hruns hexecuted hraised hslot
  exact ⟨s', hs, ht, hrow rfl⟩

def failedBackfill : Reply := ⟨some (.database "function sum(text) does not exist"), 20, none⟩

theorem failedBackfill_raises : ∃ (executed : List (Stage Empty)) (s₁ s' : Server Unit Unit Empty)
    (stage : Stage Empty) (e : Error),
    Runs sampleConfig keepTargets false slotlessServer executed s₁ stage ∧ .createSlot ∈ executed ∧
      setupStep sampleConfig keepTargets false failedBackfill s₁ stage = (s', .raised e) ∧
      s'.slot.isSome ∧ s'.row = none := by
  have hrun : (raisedAfter sampleConfig keepTargets false slotlessServer
      (quietReplies 9 ++ [⟨none, 20, some "0/14"⟩]) failedBackfill).map
        (fun p => (p.1.any fun stage => match stage with | .createSlot => true | _ => false,
          p.2.2.2.1.slot.isSome, p.2.2.2.1.row)) = some (true, true, none) := by decide +kernel
  obtain ⟨⟨executed, s₁, stage, s', e⟩, h, hp⟩ := Option.map_eq_some_iff.mp hrun
  simp only [Prod.mk.injEq] at hp
  obtain ⟨hany, hslot, hrow⟩ := hp
  obtain ⟨hruns, hraised⟩ := raisedAfter_eq_some h
  obtain ⟨created, hmem, hcreated⟩ := List.any_eq_true.mp hany
  have hcreate : .createSlot ∈ executed := by
    cases created <;> first | exact hmem | cases hcreated
  exact ⟨executed, s₁, s', stage, e, hruns, hcreate, hraised, hslot, hrow⟩

theorem half_born_slot_backfill : ∃ s' : Server Unit Unit Empty,
    (∃ lsn, s'.slot = some ⟨lsn, none, none⟩) ∧ s'.row = none ∧
      s'.targets = slotlessServer.targets := by
  obtain ⟨executed, s₁, s', stage, e, hruns, hcreate, hraised, -⟩ := failedBackfill_raises
  obtain ⟨hs, hrow, ht, -⟩ := half_born_slot hruns hraised (.inl hcreate)
  exact ⟨s', hs, hrow, ht⟩

theorem setup_leaves_slot : ∃ (executed : List (Stage Empty)) (s₁ s' : Server Unit Unit Empty)
    (stage : Stage Empty) (reply : Reply) (e : Error),
    Runs sampleConfig keepTargets false slotlessServer executed s₁ stage ∧ .createSlot ∈ executed ∧
      setupStep sampleConfig keepTargets false reply s₁ stage = (s', .raised e) ∧
      s'.slot.isSome ∧ s'.row = none := by
  obtain ⟨executed, s₁, s', stage, e, hraises⟩ := failedBackfill_raises
  exact ⟨executed, s₁, s', stage, failedBackfill, e, hraises⟩

end WalFlux.Bootstrap
