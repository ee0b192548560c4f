import WalFlux.System.Handover

/-! Setup, teardown and daemons on one database: what the targets hold wherever there is a
checkpoint, and the interleaving in which a daemon starts from one that setup has deleted. -/

namespace WalFlux

open Aggregates Bootstrap

variable {ι T F : Type} [PyFloat F] [DecidableEq F] [DecidableEq ι] {config : Config}
  {fx : Effects T F}

/-! ### Any interleaving -/

def filledBy (fx : Effects T F) (first : List (SealedTxn F)) (t : T) : Prop :=
  ∃ old, fx.backfill first old = .ok t

/-- A database before its first setup, or one that earlier commands have left in order with nothing
running. -/
structure Consistent (fx : Effects T F) (server : Server ι T F) : Prop where
  increasing : Log.Increasing SealedTxn.endLsn server.history
  le_wal : ∀ t ∈ server.history, t.endLsn ≤ server.wal
  slot : ∀ slot, server.slot = some slot → slot.opener = none ∧ slot.walsender = none ∧
    slot.confirmed ≤ server.wal ∧ ∀ checkpoint, server.row = some checkpoint →
      slot.confirmed ≤ checkpoint
  row : ∀ checkpoint, server.row = some checkpoint → checkpoint ≤ server.wal ∧
    Built fx (filledBy fx) (server.upTo checkpoint) server.targets

omit [DecidableEq ι] in
theorem Consistent.inv {server : Server ι T F} (h : Consistent fx server) :
    Inv config fx (filledBy fx) (.init server) where
  increasing := h.increasing
  le_wal := h.le_wal
  row := h.row
  slot := by
    intro slot hslot
    obtain ⟨ho, hw, hle, hrow⟩ := h.slot slot hslot
    exact ⟨hle, fun d hd => (by cases ho.symm.trans hd), hrow, fun w hw' =>
      (by cases hw.symm.trans hw'), fun w hw' => (by cases hw.symm.trans hw')⟩
  sends := fun d r hr => (by cases hr)
  follows := fun slot d r hslot ho hr => (by cases hr)
  admin := trivial

/-- Wherever there is a checkpoint, the targets hold every transaction up to it once: those of the
snapshot by the backfill, and the others by batches. -/
def Sys.Complete (fx : Effects T F) (s : Sys ι T F) : Prop :=
  ∀ checkpoint, s.server.row = some checkpoint →
    Built fx (filledBy fx) (s.server.upTo checkpoint) s.server.targets

/-- Setup with or without force, teardown and any number of daemons, interleaved at will, as long as
each daemon opens its stream while the checkpoint is still the one it read, and flushes only as the
last to have opened the stream. -/
theorem setup_and_daemon_compose {server : Server ι T F} (hserver : Consistent fx server)
    {s : Sys ι T F} (hrun : Sys.Steps config fx Sys.Guarded (.init server) s) : s.Complete fx := by
  have hinv : Inv config fx (filledBy fx) s := hrun.invariant hserver.inv
      fun _ _ _ h hguard hstep =>
    h.step (fun _ _ old _ htargets => ⟨old, htargets⟩) hguard hstep
  exact fun checkpoint hrow => (hinv.row checkpoint hrow).2

omit [DecidableEq ι] in
theorem sampleServer_consistent : Consistent recordOps (sampleServer : Server ι _ _) where
  increasing := .nil
  le_wal := nofun
  slot := by
    rintro _ ⟨⟩
    exact ⟨rfl, rfl, le_rfl, fun checkpoint hrow => (Option.some.inj hrow).le⟩
  row := by
    rintro _ ⟨⟩
    exact ⟨le_rfl, Built.of_base ⟨[], rfl⟩⟩

def freshDatabase : Server Unit (List (Op Empty)) Empty :=
  ⟨sampleCatalog, [sampleTxn 5], 5, none, none, none, []⟩

theorem freshDatabase_consistent : Consistent recordOps freshDatabase :=
  ⟨List.pairwise_singleton _ _, by simp [freshDatabase, sampleTxn], nofun, nofun⟩

def setupActions : List (Action Unit Empty) :=
  .startSetup false :: List.replicate 9 (.setupStep ⟨none, 5, none⟩) ++
    [.setupStep ⟨none, 10, some "0/A"⟩, .setupStep ⟨none, 10, none⟩]

theorem setup_and_daemon_compose_insert : ∃ s : Sys Unit (List (Op Empty)) Empty,
    s.server.row = some 20 ∧ s.server.targets = (sampleTxn 5).ops ++ (sampleTxn 20).ops ∧
      s.Complete recordOps := by
  have hrun : (Sys.runAllowed Sys.Guarded sampleConfig recordOps (.init freshDatabase)
      (setupActions ++ sampleActions ())).map (fun s => (s.server.row, s.server.targets)) =
      some (some 20, (sampleTxn 5).ops ++ (sampleTxn 20).ops) := by decide +kernel
  obtain ⟨s, hs, hserver⟩ := Option.map_eq_some_iff.mp hrun
  obtain ⟨hrow, htargets⟩ := Prod.mk.inj hserver
  exact ⟨s, hrow, htargets, setup_and_daemon_compose freshDatabase_consistent
    (Sys.steps_of_runAllowed hs)⟩

/-! ### A deleted checkpoint -/

/-- The daemon reads the checkpoint 10, setup drops the slot, deletes the row and creates a slot at
30, and the daemon opens the new slot's stream and flushes the transaction at 40. -/
def composeActions : List (Action Unit Empty) :=
  ([.start (), .readCheckpoint (), .commitTxn (sampleTxn 20), .startSetup true] :
      List (Action Unit Empty)) ++
    List.replicate 10 (.setupStep ⟨none, 20, none⟩) ++
    ([.setupStep ⟨none, 30, some "0/1E"⟩, .commitTxn (sampleTxn 40),
      .openStream () 1, .serve () (samplePayloads 40), .receive () 0 0, .receive () 0 0,
        .receive () 0 0, .receive () 0 0, .flush ()] : List (Action Unit Empty))

theorem recordOps_applyBatches {batches : List (List (SealedTxn Empty))} {t t' : List (Op Empty)}
    (h : applyBatches recordOps batches t = .ok t') :
    t' = t ++ batches.flatten.flatMap SealedTxn.ops := by
  induction batches generalizing t with
  | nil =>
    cases h
    exact (List.append_nil _).symm
  | cons batch batches ih =>
    obtain ⟨_, ⟨⟩, h⟩ := Except.bind_eq_ok.mp h
    rw [ih h, List.flatten_cons, List.flatMap_append, List.append_assoc]

theorem daemon_skips_transaction : Consistent recordOps (sampleServer : Server Unit _ _) ∧
    ∃ s : Sys Unit (List (Op Empty)) Empty,
      Sys.Steps sampleConfig recordOps (fun _ _ => True) (.init sampleServer) s ∧
        ¬ s.Complete recordOps := by
  refine ⟨sampleServer_consistent, ?_⟩
  have hrun : (Sys.runAllowed (fun _ _ => True) sampleConfig recordOps (.init sampleServer)
      composeActions).map
        (fun s => (s.server.row, s.server.history, s.server.targets)) =
      some (some 40, [sampleTxn 20, sampleTxn 40], (sampleTxn 40).ops) := by decide +kernel
  obtain ⟨s, hs, hserver⟩ := Option.map_eq_some_iff.mp hrun
  simp only [Prod.mk.injEq] at hserver
  obtain ⟨hrow, hhistory, htargets⟩ := hserver
  refine ⟨s, Sys.steps_of_runAllowed hs, fun hcomplete => ?_⟩
  obtain ⟨first, batches, _, ⟨_, ⟨⟩⟩, hcut, happly⟩ := hcomplete 40 hrow
  have hops := recordOps_applyBatches happly
  rw [← List.flatMap_append, ← hcut, Server.upTo, hhistory, htargets] at hops
  revert hops
  decide +kernel

end WalFlux
