import WalFlux.Bootstrap.Refusal
import WalFlux.Protocol.RoundTrip
import WalFlux.System.Sequential

/-! Every transaction exactly once: from a bootstrapped server, whatever crashes and restarts, the
targets hold the transactions up to the durable checkpoint, and no report runs ahead of it. -/

namespace WalFlux

open Aggregates Bootstrap Protocol

variable {ι T F : Type} [PyFloat F] [DecidableEq F] [DecidableEq ι] {config : Config}
  {fx : Effects T F}

/-! ### From a bootstrapped server on -/

structure Bootstrapped (server : Server ι T F) (consistentPoint : ℕ) : Prop where
  increasing : Log.Increasing SealedTxn.endLsn server.history
  le_wal : ∀ t ∈ server.history, t.endLsn ≤ server.wal
  point_le : consistentPoint ≤ server.wal
  slot : server.slot = some ⟨consistentPoint, none, none⟩
  checkpoint : server.checkpoint = some (some consistentPoint)

/-- The base of the daemons' work: the backfilled targets, which hold what lies below the consistent
point. -/
def backfilled (server : Server ι T F) (consistentPoint : ℕ) (first : List (SealedTxn F)) (t : T) :
    Prop :=
  first = server.upTo consistentPoint ∧ t = server.targets

omit [DecidableEq ι] in
theorem Bootstrapped.inv {server : Server ι T F} {consistentPoint : ℕ}
    (h : Bootstrapped server consistentPoint) :
    Inv config fx (backfilled server consistentPoint) (.init server) where
  increasing := h.increasing
  le_wal := h.le_wal
  row := by
    intro checkpoint hrow
    have hrow : server.checkpoint.join = some checkpoint := hrow
    rw [h.checkpoint] at hrow
    cases hrow
    exact ⟨h.point_le, Built.of_base ⟨rfl, rfl⟩⟩
  slot := by
    intro slot hslot
    cases h.slot.symm.trans hslot
    refine ⟨h.point_le, nofun, fun checkpoint hrow => ?_, nofun, nofun⟩
    have hrow : server.checkpoint.join = some checkpoint := hrow
    rw [h.checkpoint] at hrow
    cases hrow
    exact le_rfl
  sends := fun d r hr => (by cases hr)
  follows := fun slot d r hslot ho hr => (by cases hr)
  admin := trivial

theorem Sys.step_server {s s' : Sys ι T F} {a : Action ι F} (ha : a.isAdmin = false)
    (h : Sys.step config fx s a = some s') : s'.admin = s.admin ∧
      ((∃ t, s.server.wal < t.endLsn ∧ s'.server = { s.server with
          history := s.server.history ++ [t], wal := t.endLsn }) ∨
        (∃ d r last endLsn, a = .flush d ∧ s.daemons d = .streaming r ∧ r.phase = .flushing last ∧
          s.server.flush fx r.loop.pending = .ok (s'.server, endLsn)) ∨
        ∃ slot, s'.server = { s.server with slot := slot }) := by
  by_cases hrunner : ∃ d, a.runner? = some d
  · obtain ⟨d, hd⟩ := hrunner
    obtain ⟨r, server, p, hr, rfl, -, ⟨last, endLsn, rfl, hphase, hflush⟩ | ⟨slot, rfl, -⟩⟩ :=
      Sys.step_run hd h
    · exact ⟨rfl, .inr (.inl ⟨d, r, last, endLsn, rfl, hr, hphase, hflush⟩)⟩
    · exact ⟨rfl, .inr (.inr ⟨slot, rfl⟩)⟩
  cases a with
  | commitTxn t =>
    rw [Sys.step] at h
    split_ifs at h with hlt
    cases h
    exact ⟨rfl, .inl ⟨t, hlt, rfl⟩⟩
  | feedback =>
    obtain ⟨slot, hslot, h⟩ := Option.bind_eq_some_iff.mp h
    obtain ⟨w, hw, h⟩ := Option.bind_eq_some_iff.mp h
    split at h <;> cases h
    exact ⟨rfl, .inr (.inr ⟨_, rfl⟩)⟩
  | release =>
    obtain ⟨slot, hslot, h⟩ := Option.bind_eq_some_iff.mp h
    obtain ⟨w, hw, h⟩ := Option.bind_eq_some_iff.mp h
    cases h
    exact ⟨rfl, .inr (.inr ⟨_, rfl⟩)⟩
  | start d =>
    rw [Sys.step] at h
    split at h <;> cases h
    exact ⟨rfl, .inr (.inr ⟨_, rfl⟩)⟩
  | readCheckpoint d =>
    rw [Sys.step] at h
    split at h <;> cases h <;> exact ⟨rfl, .inr (.inr ⟨_, rfl⟩)⟩
  | openStream d pid =>
    rw [Sys.step] at h
    split at h
    · split at h <;> cases h <;> exact ⟨rfl, .inr (.inr ⟨_, rfl⟩)⟩
    · cases h
  | crash d =>
    cases h
    exact ⟨rfl, .inr (.inr ⟨_, rfl⟩)⟩
  | startSetup | setupStep | startTeardown | teardownStep | crashAdmin => cases ha
  | _ => exact absurd ⟨_, rfl⟩ hrunner

/-- The server after a bootstrap at `consistentPoint`: what lay below it is still there, and the
checkpoint has not gone back behind it. -/
structure Onward (server : Server ι T F) (consistentPoint : ℕ) (s : Sys ι T F) : Prop where
  admin : s.admin = none
  point_le : consistentPoint ≤ s.server.wal
  upTo_eq : s.server.upTo consistentPoint = server.upTo consistentPoint
  row : ∃ checkpoint, s.server.row = some checkpoint ∧ consistentPoint ≤ checkpoint

omit [PyFloat F] [DecidableEq F] [DecidableEq ι] in
theorem Bootstrapped.onward {server : Server ι T F} {consistentPoint : ℕ}
    (h : Bootstrapped server consistentPoint) : Onward server consistentPoint (.init server) where
  admin := rfl
  point_le := h.point_le
  upTo_eq := rfl
  row := ⟨consistentPoint, congrArg Option.join h.checkpoint, le_rfl⟩

theorem Onward.step {server : Server ι T F} {consistentPoint : ℕ} {base} {s s' : Sys ι T F}
    {a : Action ι F} (h : Onward server consistentPoint s) (hinv : Inv config fx base s)
    (hguard : s.Guarded a) (ha : a.isAdmin = false) (hstep : Sys.step config fx s a = some s') :
    Onward server consistentPoint s' := by
  obtain ⟨hadmin, hcases⟩ := Sys.step_server ha hstep
  obtain ⟨checkpoint, hrow, hle⟩ := h.row
  rcases hcases with ⟨t, hlt, hs'⟩ | ⟨d, r, last, endLsn, rfl, hr, hphase, hflush⟩ | ⟨slot, hs'⟩
  · refine ⟨hadmin.trans h.admin, ?_, ?_, checkpoint, ?_, hle⟩
    · rw [hs']
      exact h.point_le.trans hlt.le
    · rw [hs', Server.upTo, Log.upTo_concat_of_lt (h.point_le.trans_lt hlt)]
      exact h.upTo_eq
    · rw [hs']
      exact hrow
  · obtain ⟨slot, hslot, ho⟩ := hguard
    obtain ⟨checkpoint', hrow', hf⟩ := hinv.follows slot d r hslot ho hr
    cases hrow.symm.trans hrow'
    have hmatch := hf.matching
    rw [Run.Matches, hphase] at hmatch
    obtain ⟨targets, t, -, hlast, rfl, hs'⟩ := Inv.flush_ok hflush
    rw [hmatch.2] at hlast
    have hlt := (Log.between_of_getLast? hinv.increasing hlast).1
    obtain ⟨_, _, _⟩ := s'
    cases hs'
    exact ⟨hadmin.trans h.admin, h.point_le, h.upTo_eq, t.endLsn, rfl, hle.trans hlt.le⟩
  · refine ⟨hadmin.trans h.admin, ?_, ?_, checkpoint, ?_, hle⟩ <;> rw [hs']
    · exact h.point_le
    · exact h.upTo_eq
    · exact hrow

theorem Bootstrapped.guarded_run {server : Server ι T F} {consistentPoint : ℕ}
    (h : Bootstrapped server consistentPoint) {s : Sys ι T F}
    (hrun : Sys.Steps config fx (fun s a => s.Guarded a ∧ a.isAdmin = false) (.init server) s) :
    Inv config fx (backfilled server consistentPoint) s ∧ Onward server consistentPoint s :=
  hrun.invariant (I := fun s => Inv config fx (backfilled server consistentPoint) s ∧
      Onward server consistentPoint s) ⟨h.inv, h.onward⟩ fun _ _ _ h hp hstep =>
    ⟨h.1.step (fun hsome => (by cases h.2.admin ▸ hsome)) hp.1 hstep, h.2.step h.1 hp.1 hp.2 hstep⟩

theorem Bootstrapped.guarded_of_sequential {server : Server ι T F} {s : Sys ι T F}
    (hrun : Sys.Steps config fx (fun s a => s.Sequential a ∧ a.isAdmin = false) (.init server) s) :
    OneAtATime s ∧ Sys.Steps config fx (fun s a => s.Guarded a ∧ a.isAdmin = false)
    (.init server) s := by
  induction hrun with
  | refl => exact ⟨OneAtATime.of_down fun _ => rfl, .refl _⟩
  | tail _ hp ha ih => exact ⟨ih.1.step hp.1 ha, .tail ih.2 ⟨ih.1.guarded ha, hp.2⟩ ha⟩

omit [DecidableEq ι] in
theorem Inv.applied {server : Server ι T F} {consistentPoint : ℕ} {s : Sys ι T F}
    (h : Inv config fx (backfilled server consistentPoint) s)
    (honward : Onward server consistentPoint s) :
    ∃ checkpoint batches, s.server.row = some checkpoint ∧ consistentPoint ≤ checkpoint ∧
      batches.flatten = s.server.between consistentPoint checkpoint ∧
      applyBatches fx batches server.targets = .ok s.server.targets := by
  obtain ⟨checkpoint, hrow, hle⟩ := honward.row
  obtain ⟨-, first, batches, t₀, ⟨rfl, rfl⟩, hcut, happly⟩ := h.row checkpoint hrow
  refine ⟨checkpoint, batches, hrow, hle, ?_, happly⟩
  rw [Server.upTo, Log.upTo_eq_between_append h.increasing hle] at hcut
  exact (List.append_cancel_left (hcut.trans (by rw [← honward.upTo_eq]; rfl))).symm

omit [PyFloat F] [DecidableEq F] in
theorem applyBatches_eq {effect : T → Op F → T}
    (heffect : ∀ ops t t', fx.flush ops t = .ok t' → t' = ops.foldl effect t)
    {batches : List (List (SealedTxn F))} {t t' : T} (h : applyBatches fx batches t = .ok t') :
    t' = (batches.flatten.flatMap SealedTxn.ops).foldl effect t := by
  induction batches generalizing t with
  | nil =>
    cases h
    rfl
  | cons batch batches ih =>
    obtain ⟨t₁, hflush, h⟩ := Except.bind_eq_ok.mp h
    rw [ih h, heffect _ _ _ hflush, List.flatten_cons, List.flatMap_append, List.foldl_append]

/-! ### The results -/

/-- In every state of every run, the targets are the backfill with the ops of the transactions above
the bootstrap checkpoint and up to the durable one, each once, whole and in commit order; and the
slot has confirmed nothing beyond. -/
theorem applied_exactly_once {effect : T → Op F → T}
    (heffect : ∀ ops t t', fx.flush ops t = .ok t' → t' = ops.foldl effect t)
    {server : Server ι T F} {consistentPoint : ℕ}
    (hserver : Bootstrapped server consistentPoint) {s : Sys ι T F}
    (hrun : Sys.Steps config fx (fun s a => s.Sequential a ∧ a.isAdmin = false) (.init server) s) :
    ∃ checkpoint, s.server.row = some checkpoint ∧ consistentPoint ≤ checkpoint ∧
      s.server.targets = ((s.server.between consistentPoint checkpoint).flatMap
        SealedTxn.ops).foldl effect server.targets ∧
      ∀ slot, s.server.slot = some slot → slot.confirmed ≤ checkpoint := by
  obtain ⟨-, hguarded⟩ := Bootstrapped.guarded_of_sequential hrun
  obtain ⟨hinv, honward⟩ := hserver.guarded_run hguarded
  obtain ⟨checkpoint, batches, hrow, hle, hflat, happly⟩ := hinv.applied honward
  refine ⟨checkpoint, hrow, hle, ?_, fun slot hslot => (hinv.slot slot hslot).confirmed_le _ hrow⟩
  rw [applyBatches_eq heffect happly, hflat]

/-- Every position a run has reported is durable, the later ones are no smaller, and so is all that
the server was told or has confirmed: nothing at or below it is still to be applied. -/
theorem reported_le_checkpoint {server : Server ι T F} {consistentPoint : ℕ}
    (hserver : Bootstrapped server consistentPoint) {s : Sys ι T F}
    (hrun : Sys.Steps config fx (fun s a => s.Sequential a ∧ a.isAdmin = false) (.init server) s) :
    ∃ checkpoint batches, s.server.row = some checkpoint ∧
      batches.flatten = s.server.between consistentPoint checkpoint ∧
      applyBatches fx batches server.targets = .ok s.server.targets ∧
      (∀ d r, s.daemons d = .streaming r →
        r.reported.Pairwise (· ≤ ·) ∧ ∀ lsn ∈ r.reported, lsn ≤ checkpoint) ∧
      ∀ slot, s.server.slot = some slot → slot.confirmed ≤ checkpoint ∧
        ∀ w, slot.walsender = some w → ∀ lsn ∈ w.feedback, lsn ≤ checkpoint := by
  obtain ⟨hone, hguarded⟩ := Bootstrapped.guarded_of_sequential hrun
  obtain ⟨hinv, honward⟩ := hserver.guarded_run hguarded
  obtain ⟨checkpoint, batches, hrow, -, hflat, happly⟩ := hinv.applied honward
  refine ⟨checkpoint, batches, hrow, hflat, happly, fun d r hr => ?_, fun slot hslot => ?_⟩
  · obtain ⟨slot, hslot, ho⟩ := hone.streaming d r hr
    obtain ⟨checkpoint', hrow', hf⟩ := hinv.follows slot d r hslot ho hr
    cases hrow.symm.trans hrow'
    exact ⟨hf.reports.sorted, fun lsn hlsn => (hf.reports.le lsn hlsn).trans hf.flushLsn_le⟩
  · have hok := hinv.slot slot hslot
    exact ⟨hok.confirmed_le _ hrow, fun w hw => hok.feedback_le w hw _ hrow⟩

/-! ### Samples -/

def recordOps : Effects (List (Op Empty)) Empty :=
  ⟨fun ops t => .ok (t ++ ops), fun snapshot _ => .ok (snapshot.flatMap SealedTxn.ops), []⟩

def sampleServer : Server ι (List (Op Empty)) Empty :=
  ⟨sampleCatalog, [], 10, some ⟨10, none, none⟩, none, some (some 10), []⟩

omit [DecidableEq ι] in
theorem sampleServer_bootstrapped : Bootstrapped (sampleServer : Server ι _ _) 10 :=
  ⟨.nil, nofun, le_rfl, rfl, rfl⟩

def sampleTxn (endLsn : ℕ) : SealedTxn Empty := ⟨endLsn,
      [.insert "order_totals" (sampleRow 1 (-1))]⟩

def samplePayloads (endLsn : ℕ) : List (List UInt8) :=
  [.begin endLsn .epoch 1,
    .relation 16385 "public" "orders" 'f' [⟨1, "status", 25, -1⟩, ⟨1, "amount", 1700, -1⟩],
    .insert 16385 [.text "open", .text "0.1"],
    .commit 0 endLsn endLsn .epoch].map encodeMessage

def sampleReceives (d : ι) : List (Action ι Empty) := List.replicate 4 (.receive d 0 0)

def sampleActions (d : ι) : List (Action ι Empty) :=
  [.start d, .readCheckpoint d, .commitTxn (sampleTxn 20), .openStream d 1,
    .serve d (samplePayloads 20)] ++ sampleReceives d ++ [.flush d]

/-- The daemon dies between the commit of its flush and the ack. It is started again, the server
sends the transaction again, and one more. -/
def redeliveryActions : List (Action Unit Empty) :=
  sampleActions () ++ [.crash (), .release, .start (), .readCheckpoint (), .openStream () 2,
    .serve () (samplePayloads 20)] ++ sampleReceives () ++
    [.commitTxn (sampleTxn 30), .serve () (samplePayloads 30)] ++ sampleReceives () ++
    [.flush (), .ack (), .feedback]

theorem redeliveryActions_run : ∃ s : Sys Unit (List (Op Empty)) Empty,
    Sys.Steps sampleConfig recordOps (fun s a => s.Sequential a ∧ a.isAdmin = false)
      (.init sampleServer) s ∧
    s.server.row = some 30 ∧ s.server.targets = (sampleTxn 20).ops ++ (sampleTxn 30).ops := by
  have hrun : (Sys.runAllowed (fun s a => s.Sequential a ∧ a.isAdmin = false) sampleConfig recordOps
      (.init sampleServer) redeliveryActions).map (fun s => (s.server.row, s.server.targets)) =
      some (some 30, (sampleTxn 20).ops ++ (sampleTxn 30).ops) := by decide +kernel
  obtain ⟨s, hs, hserver⟩ := Option.map_eq_some_iff.mp hrun
  obtain ⟨hrow, htargets⟩ := Prod.mk.inj hserver
  exact ⟨s, Sys.steps_of_runAllowed hs, hrow, htargets⟩

theorem recordOps_effect : ∀ ops t t', recordOps.flush ops t = .ok t' →
    t' = ops.foldl (fun t op => t ++ [op]) t := by
  rintro ops t _ ⟨⟩
  induction ops generalizing t with
  | nil => exact List.append_nil t
  | cons op ops ih => rw [List.foldl_cons, ← ih, List.append_assoc, List.singleton_append]

theorem applied_exactly_once_insert : ∃ s : Sys Unit (List (Op Empty)) Empty,
    s.server.targets = (sampleTxn 20).ops ++ (sampleTxn 30).ops ∧
      ∃ checkpoint, s.server.row = some checkpoint ∧ 10 ≤ checkpoint ∧
        s.server.targets = ((s.server.between 10 checkpoint).flatMap
          SealedTxn.ops).foldl (fun t op => t ++ [op]) [] ∧
        ∀ slot, s.server.slot = some slot → slot.confirmed ≤ checkpoint := by
  obtain ⟨s, hrun, -, htargets⟩ := redeliveryActions_run
  exact ⟨s, htargets, applied_exactly_once recordOps_effect sampleServer_bootstrapped hrun⟩

theorem reported_le_checkpoint_insert : ∃ s : Sys Unit (List (Op Empty)) Empty,
    s.server.row = some 30 ∧ ∃ checkpoint batches, s.server.row = some checkpoint ∧
      batches.flatten = s.server.between 10 checkpoint ∧
      applyBatches recordOps batches [] = .ok s.server.targets ∧
      (∀ d r, s.daemons d = .streaming r →
        r.reported.Pairwise (· ≤ ·) ∧ ∀ lsn ∈ r.reported, lsn ≤ checkpoint) ∧
      ∀ slot, s.server.slot = some slot → slot.confirmed ≤ checkpoint ∧
        ∀ w, slot.walsender = some w → ∀ lsn ∈ w.feedback, lsn ≤ checkpoint := by
  obtain ⟨s, hrun, hrow, -⟩ := redeliveryActions_run
  exact ⟨s, hrow, reported_le_checkpoint sampleServer_bootstrapped hrun⟩

end WalFlux
