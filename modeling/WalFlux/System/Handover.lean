import WalFlux.System.ExactlyOnce

/-! One daemon handing over to another: the checkpoint is read before the stream is opened, so it
may be stale by then. -/

namespace WalFlux

open Aggregates Bootstrap Protocol

variable {ι T F : Type} [PyFloat F] [DecidableEq F] [DecidableEq ι] {config : Config}
  {fx : Effects T F}

/-- A daemon that holds the stream compares with the durable checkpoint. -/
def Sys.SkipRuleCurrent (s : Sys ι T F) : Prop :=
  ∀ d r slot w, s.daemons d = .streaming r → s.server.slot = some slot → slot.walsender = some w →
    w.owner = d → r.phase = .receiving → s.server.row = some r.loop.checkpointLsn

/-- The targets come from the backfilled ones by batches that cut the transactions since. -/
def Sys.AppliedOnce (fx : Effects T F) (server : Server ι T F) (consistentPoint : ℕ)
    (s : Sys ι T F) : Prop :=
  ∃ checkpoint batches, s.server.row = some checkpoint ∧
    batches.flatten = s.server.between consistentPoint checkpoint ∧
    applyBatches fx batches server.targets = .ok s.server.targets

/-- Any number of daemons, each of which opens its stream while the checkpoint is still the one it
read, and flushes only as the last to have opened the stream. -/
theorem handover_safe {server : Server ι T F} {consistentPoint : ℕ}
    (hserver : Bootstrapped server consistentPoint) {s : Sys ι T F}
    (hrun : Sys.Steps config fx (fun s a => s.Guarded a ∧ a.isAdmin = false) (.init server) s) :
    s.SkipRuleCurrent ∧ s.AppliedOnce fx server consistentPoint := by
  obtain ⟨hinv, honward⟩ := hserver.guarded_run hrun
  refine ⟨fun d r slot w hr hslot hw hd hphase => ?_, ?_⟩
  · have ho := (hinv.slot slot hslot).opener_eq w hw
    obtain ⟨checkpoint, hrow, hf⟩ := hinv.follows slot d r hslot (hd ▸ ho) hr
    have hmatch := hf.matching
    rw [Run.Matches, hphase] at hmatch
    rw [hmatch.1]
    exact hrow
  · obtain ⟨checkpoint, batches, hrow, -, hflat, happly⟩ := hinv.applied honward
    exact ⟨checkpoint, batches, hrow, hflat, happly⟩

/-- The second daemon is connected while the first one flushes; it reads the checkpoint after the
commit and opens the stream once the first one has died before its ack. -/
def takeoverActions : List (Action Bool Empty) :=
  (sampleActions false).dropLast ++ [.start true, .flush false, .readCheckpoint true, .crash false,
    .release, .openStream true 2, .serve true (samplePayloads 20)] ++ sampleReceives true ++
    [.commitTxn (sampleTxn 30), .serve true (samplePayloads 30)] ++ sampleReceives true ++
    [.flush true, .ack true, .remember true]

theorem handover_safe_insert : ∃ s : Sys Bool (List (Op Empty)) Empty,
    s.server.targets = (sampleTxn 20).ops ++ (sampleTxn 30).ops ∧ s.SkipRuleCurrent ∧
      s.AppliedOnce recordOps sampleServer 10 := by
  have hrun : (Sys.runAllowed (fun s a => s.Guarded a ∧ a.isAdmin = false) sampleConfig recordOps
      (.init sampleServer) takeoverActions).map (fun s => s.server.targets) =
      some ((sampleTxn 20).ops ++ (sampleTxn 30).ops) := by decide +kernel
  obtain ⟨s, hs, htargets⟩ := Option.map_eq_some_iff.mp hrun
  exact ⟨s, htargets, handover_safe sampleServer_bootstrapped (Sys.steps_of_runAllowed hs)⟩

/-! ### A stale checkpoint -/

/-- The second daemon reads the checkpoint, the first one commits its flush and dies before the ack,
and the second one opens the stream, which begins before the flushed transaction. -/
def handoverActions : List (Action Bool Empty) :=
  [.commitTxn (sampleTxn 20), .start false, .readCheckpoint false, .openStream false 1,
    .serve false (samplePayloads 20)] ++ sampleReceives false ++
    [.start true, .readCheckpoint true, .flush false, .crash false, .release, .openStream true 2,
      .serve true (samplePayloads 20), .receive true 0 0, .receive true 0 0, .receive true 0 0]

def Sys.skipRule (s : Sys ι T F) (d : ι) : Option (Option ℕ × ℕ) :=
  match s.daemons d, s.server.slot.bind Slot.walsender with
  | .streaming r, some w =>
    if w.owner = d ∧ r.phase = .receiving then some (s.server.row, r.loop.checkpointLsn) else none
  | _, _ => none

omit [PyFloat F] [DecidableEq F] in
theorem Sys.SkipRuleCurrent.skipRule {s : Sys ι T F} (h : s.SkipRuleCurrent) {d : ι}
    {p : Option ℕ × ℕ} (hp : s.skipRule d = some p) : p.1 = some p.2 := by
  rw [Sys.skipRule] at hp
  split at hp
  · rename_i r w hr hw
    obtain ⟨slot, hslot, hw⟩ := Option.bind_eq_some_iff.mp hw
    split_ifs at hp with hholds
    cases hp
    exact h d r slot w hr hslot hw hholds.1 hholds.2
  · cases hp

theorem handover_applies_twice :
    (∃ s, Sys.Steps sampleConfig recordOps (fun _ a => a.isAdmin = false)
        (.init (sampleServer : Server Bool _ _)) s ∧ ¬ s.SkipRuleCurrent) ∧
      ∃ s, Sys.Steps sampleConfig recordOps (fun _ a => a.isAdmin = false)
        (.init (sampleServer : Server Bool _ _)) s ∧ ¬ s.AppliedOnce recordOps sampleServer 10 := by
  constructor
  · have hrun : ((Sys.runAllowed (fun _ a => a.isAdmin = false) sampleConfig recordOps
        (.init (sampleServer : Server Bool _ _)) handoverActions).bind (·.skipRule true)) =
        some (some 20, 10) := by decide +kernel
    obtain ⟨s, hs, hstale⟩ := Option.bind_eq_some_iff.mp hrun
    refine ⟨s, Sys.steps_of_runAllowed hs, fun hskip => ?_⟩
    cases hskip.skipRule hstale
  · have hrun : (Sys.runAllowed (fun _ a => a.isAdmin = false) sampleConfig recordOps
        (.init (sampleServer : Server Bool _ _))
        (handoverActions ++ [.receive true 0 0, .flush true])).map
          (fun s => (s.server.row, s.server.history, s.server.targets)) =
        some (some 20, [sampleTxn 20], (sampleTxn 20).ops ++
          (sampleTxn 20).ops) := by decide +kernel
    obtain ⟨s, hs, hserver⟩ := Option.map_eq_some_iff.mp hrun
    simp only [Prod.mk.injEq] at hserver
    obtain ⟨hrow, hhistory, htargets⟩ := hserver
    refine ⟨s, Sys.steps_of_runAllowed hs, ?_⟩
    rintro ⟨checkpoint, batches, hrow', hflat, happly⟩
    cases hrow.symm.trans hrow'
    have hops := applyBatches_eq recordOps_effect happly
    rw [hflat, Server.between, hhistory, htargets] at hops
    revert hops
    decide +kernel

end WalFlux
