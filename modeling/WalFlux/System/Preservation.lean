import WalFlux.System.Invariant

/-! Every step keeps the invariant, provided that a stream is opened at the durable checkpoint and a
flush is made by the last daemon to have opened the stream. -/

namespace WalFlux

open Aggregates Protocol

variable {ι T F : Type} [PyFloat F] [DecidableEq F] {config : Config} {fx : Effects T F}
  {base : List (SealedTxn F) → T → Prop}

namespace Inv

variable {s : Sys ι T F}

/-! ### Steps of setup and teardown -/

variable {server : Server ι T F} {admin : Option (Admin F)}

theorem quiet (h : Inv config fx base s) (hhistory : server.history = s.server.history)
    (hwal : server.wal = s.server.wal) (hslot : server.slot = s.server.slot)
    (hrow : server.row = s.server.row) (htargets : server.targets = s.server.targets)
    (hadmin : AdminOk server admin) : Inv config fx base ⟨server, s.daemons, admin⟩ := by
  obtain ⟨⟨catalog, history, wal, slot, publication, checkpoint, targets⟩, daemons, admin⟩ := s
  obtain ⟨catalog', history', wal', slot', publication', checkpoint', targets'⟩ := server
  cases hhistory
  cases hwal
  cases hslot
  cases htargets
  have hrow : checkpoint'.join = checkpoint.join := hrow
  obtain ⟨hincreasing, hle, hbuilt, hok, hsends, hfollows, -⟩ := h
  refine ⟨hincreasing, hle, ?_, ?_, hsends, ?_, hadmin⟩
  · intro c hc
    exact hbuilt c (hrow.symm.trans hc)
  · intro slot hs
    obtain ⟨h₁, h₂, h₃, h₄, h₅⟩ := hok slot hs
    refine ⟨h₁, fun d hd => ?_, fun c hc => h₃ c (hrow.symm.trans hc), h₄, fun w hw c hc =>
      h₅ w hw c (hrow.symm.trans hc)⟩
    exact (congrArg Option.isSome hrow).trans (h₂ d hd)
  · intro slot d r hs ho hr
    obtain ⟨c, hc, hpos, hmatch, hflush, hreports⟩ := hfollows slot d r hs ho hr
    exact ⟨c, hrow.trans hc, hpos, hmatch, hflush, hreports⟩

theorem setAdmin (h : Inv config fx base s) (hadmin : AdminOk s.server admin) :
    Inv config fx base { s with admin := admin } :=
  h.quiet rfl rfl rfl rfl rfl hadmin

theorem dropSlot (h : Inv config fx base s) (hadmin : AdminOk
      ({ s.server with slot := none } : Server ι T F) admin) :
    Inv config fx base ⟨{ s.server with slot := none }, s.daemons, admin⟩ where
  increasing := h.increasing
  le_wal := h.le_wal
  row := h.row
  slot := fun slot hs => (by cases hs)
  sends := h.sends
  follows := fun slot d r hs => (by cases hs)
  admin := hadmin

theorem forget (h : Inv config fx base s) (hslot : s.server.slot = none)
    {checkpoint : Option (Option ℕ)} (hrow : checkpoint.join = none) (targets : T)
    (hadmin : AdminOk
      ({ s.server with checkpoint := checkpoint, targets := targets } : Server ι T F) admin) :
    Inv config fx base
      ⟨{ s.server with checkpoint := checkpoint, targets := targets }, s.daemons, admin⟩ where
  increasing := h.increasing
  le_wal := h.le_wal
  row := fun c hc => by
    have hc : checkpoint.join = some c := hc
    cases hrow.symm.trans hc
  slot := fun slot hs => by cases hslot.symm.trans hs
  sends := h.sends
  follows := fun slot d r hs => by cases hslot.symm.trans hs
  admin := hadmin

theorem createSlot (h : Inv config fx base s) {lsn : ℕ} (hlsn : s.server.wal ≤ lsn)
    (hrow : s.server.row = none)
    (hadmin : AdminOk
      ({ s.server with slot := some ⟨lsn, none, none⟩, wal := lsn } : Server ι T F) admin) :
    Inv config fx base
      ⟨{ s.server with slot := some ⟨lsn, none, none⟩, wal := lsn }, s.daemons, admin⟩ where
  increasing := h.increasing
  le_wal := fun t ht => (h.le_wal t ht).trans hlsn
  row := fun c hc => by cases hrow.symm.trans hc
  slot := by
    rintro _ ⟨⟩
    exact ⟨le_rfl, nofun, fun c hc => (by cases hrow.symm.trans hc), nofun, nofun⟩
  sends := h.sends
  follows := by
    rintro _ d r ⟨⟩ ⟨⟩
  admin := hadmin

theorem backfill (h : Inv config fx base s) {lsn : ℕ} (hle : lsn ≤ s.server.wal)
    (hslot : s.server.slot = some ⟨lsn, none, none⟩) {targets : T}
    (htargets : base (s.server.upTo lsn) targets) : Inv config fx base
      ⟨{ s.server with checkpoint := some (some lsn), targets := targets }, s.daemons, none⟩ where
  increasing := h.increasing
  le_wal := h.le_wal
  row := by
    rintro _ ⟨⟩
    exact ⟨hle, Built.of_base htargets⟩
  slot := by
    intro slot hs
    cases hslot.symm.trans hs
    exact ⟨hle, nofun, fun c hc => (Option.some.inj hc).le, nofun, nofun⟩
  sends := h.sends
  follows := by
    intro slot d r hs ho
    cases hslot.symm.trans hs
    cases ho
  admin := trivial

theorem setupStep (h : Inv config fx base s)
    (hbase : ∀ snapshot old targets, fx.backfill snapshot old = .ok targets → base snapshot targets)
    {force : Bool} {stage : Bootstrap.Stage F} (hstage : s.admin = some (.setup force stage))
    {reply : Bootstrap.Reply} (hlsn : s.server.wal ≤ reply.lsn)
    (htext : ∀ text ∈ reply.consistentPoint, parseLsn text = .ok (reply.lsn : ℤ)) :
    Inv config fx base ⟨(Bootstrap.setupStep config fx force reply s.server stage).1, s.daemons,
      Sys.adminAfter (.setup force)
        (Bootstrap.setupStep config fx force reply s.server stage).2⟩ := by
  have hadmin := h.admin
  rw [hstage] at hadmin
  have hraise : ∀ e, Inv config fx base
      ⟨(Bootstrap.raise (σ := Bootstrap.Stage F) s.server e).1, s.daemons,
        Sys.adminAfter (.setup force) (Bootstrap.raise (σ := Bootstrap.Stage F) s.server e).2⟩ :=
    fun e => h.setAdmin trivial
  have hnext : ∀ (r : Except Error (Server ι T F)) (stage : Bootstrap.Stage F),
      (∀ server, r = .ok server →
        Inv config fx base ⟨server, s.daemons, some (.setup force stage)⟩) →
      Inv config fx base ⟨(Bootstrap.next s.server r stage).1, s.daemons,
        Sys.adminAfter (.setup force) (Bootstrap.next s.server r stage).2⟩ := by
    intro r stage hr
    cases r with
    | error e => exact hraise e
    | ok server => exact hr server rfl
  -- a statement that fails leaves the server as it was
  cases hfault : reply.fault with
  | some e =>
    cases stage <;> simp only [Bootstrap.setupStep, hfault] <;> exact hraise _
  | none =>
    cases stage with
    | version =>
      simp only [Bootstrap.setupStep, hfault]
      refine hnext _ _ fun server hr => ?_
      obtain ⟨_, -, rfl⟩ := Except.map_eq_ok.mp hr
      exact h.setAdmin trivial
    | walLevel =>
      simp only [Bootstrap.setupStep, hfault]
      refine hnext _ _ fun server hr => ?_
      obtain ⟨_, -, rfl⟩ := Except.map_eq_ok.mp hr
      exact h.setAdmin trivial
    | sources left =>
      cases left with
      | nil =>
        simp only [Bootstrap.setupStep, hfault]
        exact h.setAdmin trivial
      | cons name left =>
        simp only [Bootstrap.setupStep, hfault]
        refine hnext _ _ fun server hr => ?_
        obtain ⟨catalog, rfl⟩ := Bootstrap.ensureSource_ok hr
        exact h.quiet rfl rfl rfl rfl rfl trivial
    | checkpointTable =>
      simp only [Bootstrap.setupStep, hfault]
      exact h.quiet rfl rfl rfl rfl rfl trivial
    | publication =>
      simp only [Bootstrap.setupStep, hfault]
      refine hnext _ _ fun server hr => ?_
      obtain ⟨tables, -, hr⟩ := Except.bind_eq_ok.mp hr
      obtain ⟨_, -, hr⟩ := Except.bind_eq_ok.mp hr
      cases Except.pure_eq_ok.mp hr
      exact h.quiet rfl rfl rfl rfl rfl trivial
    | inspectSlot =>
      simp only [Bootstrap.setupStep, hfault]
      cases hinspect : Bootstrap.inspectSlot config force s.server with
      | error e => exact hraise e
      | ok drop =>
        cases drop with
        | true => exact h.setAdmin trivial
        | false => exact h.setAdmin (Bootstrap.inspectSlot_false hinspect)
    | dropSlot =>
      simp only [Bootstrap.setupStep, hfault]
      refine hnext _ _ fun server hr => ?_
      cases Bootstrap.dropSlot_ok hr
      exact h.dropSlot rfl
    | deleteCheckpoint =>
      simp only [Bootstrap.setupStep, hfault]
      refine hnext _ _ fun server hr => ?_
      cases Bootstrap.deleteCheckpoint_ok hr
      exact h.forget hadmin rfl s.server.targets ⟨hadmin, rfl⟩
    | connect =>
      simp only [Bootstrap.setupStep, hfault]
      exact h.setAdmin hadmin
    | createSlot =>
      simp only [Bootstrap.setupStep, hfault]
      cases hcreate : Bootstrap.createSlot config s.server reply.lsn with
      | error e => exact hraise e
      | ok server =>
        obtain ⟨-, rfl⟩ := Bootstrap.createSlot_ok hcreate
        cases hpoint : reply.consistentPoint with
        | none => exact h.createSlot hlsn hadmin.2 trivial
        | some text =>
          refine h.createSlot hlsn hadmin.2 ⟨hadmin.2, reply.lsn, ?_, rfl, le_rfl, ?_⟩
          · exact htext text (by rw [hpoint]; rfl)
          · -- everything committed by now lies below the consistent point
            exact (Log.upTo_eq_self fun t ht => (h.le_wal t ht).trans hlsn).symm
    | backfill text snapshot =>
      simp only [Bootstrap.setupStep, hfault]
      cases hbackfill : Bootstrap.backfill fx s.server text snapshot with
      | error e => exact hraise e
      | ok server =>
        obtain ⟨-, lsn, hparse, hslot, hle, rfl⟩ := hadmin
        obtain ⟨targets, lsn', htargets, hparse', rfl⟩ := Bootstrap.backfill_ok hbackfill
        cases hparse.symm.trans hparse'
        exact h.backfill hle hslot (hbase _ _ _ htargets)

theorem teardownStep (h : Inv config fx base s) {stage : Bootstrap.TeardownStage}
    (hstage : s.admin = some (.teardown stage)) (fault : Option Error) :
    Inv config fx base ⟨(Bootstrap.teardownStep config fx fault s.server stage).1, s.daemons,
      Sys.adminAfter .teardown (Bootstrap.teardownStep config fx fault s.server stage).2⟩ := by
  have hadmin := h.admin
  rw [hstage] at hadmin
  cases stage with
  | dropSlot attempt =>
    simp only [Bootstrap.teardownStep]
    cases hdrop : fault.elim (Bootstrap.dropSlot s.server) .error with
    | error e =>
      dsimp only
      split_ifs <;> exact h.setAdmin trivial
    | ok server =>
      cases fault with
      | some e => cases hdrop
      | none =>
        cases Bootstrap.dropSlot_ok hdrop
        exact h.dropSlot rfl
  | inspectSlot =>
    cases fault with
    | some e => exact h.setAdmin trivial
    | none =>
      simp only [Bootstrap.teardownStep]
      cases hslot : s.server.slot with
      | none => exact h.setAdmin hslot
      | some slot =>
        dsimp only
        split_ifs <;> exact h.setAdmin trivial
  | terminate => cases fault <;> exact h.setAdmin trivial
  | dropPublication =>
    cases fault with
    | some e => exact h.setAdmin trivial
    | none =>
      simp only [Bootstrap.teardownStep]
      cases quoteIdent config.publication with
      | error e => exact h.setAdmin trivial
      | ok _ => exact h.quiet rfl rfl rfl rfl rfl hadmin
  | dropSchema =>
    cases fault with
    | some e => exact h.setAdmin trivial
    | none => exact h.forget hadmin rfl fx.dropped trivial

end Inv

/-! ### One step -/

variable [DecidableEq ι]

/-- A stream is opened by a daemon that read the checkpoint as it still is, and a flush is made by
the last daemon to have opened the stream. -/
def Sys.Guarded (s : Sys ι T F) : Action ι F → Prop
  | .openStream d _ => ∀ checkpoint slot, s.daemons d = .ready checkpoint →
      s.server.slot = some slot → slot.walsender = none → s.server.row = some checkpoint
  | .flush d => ∃ slot, s.server.slot = some slot ∧ slot.opener = some d
  | _ => True

def Process.ready? : Process F → Option ℕ
  | .ready checkpoint => some checkpoint
  | _ => none

omit [PyFloat F] [DecidableEq F] in
theorem Process.ready?_eq_some {p : Process F} {checkpoint : ℕ} :
    p.ready? = some checkpoint ↔ p = .ready checkpoint := by
  cases p <;> simp [Process.ready?]

instance (s : Sys ι T F) : (a : Action ι F) → Decidable (s.Guarded a)
  | .openStream d _ => decidable_of_iff (∀ checkpoint ∈ (s.daemons d).ready?,
    ∀ slot ∈ s.server.slot, slot.walsender = none → s.server.row = some checkpoint) <| by
    simp only [Option.mem_def, Process.ready?_eq_some, Sys.Guarded]
    exact ⟨fun h checkpoint slot hready hslot => h checkpoint hready slot hslot,
      fun h checkpoint hready slot hslot => h checkpoint slot hready hslot⟩
  | .flush d => decidable_of_iff (s.server.slot.bind Slot.opener = some d) Option.bind_eq_some_iff
  | .commitTxn _ | .feedback | .release | .start _ | .readCheckpoint _ | .serve _ _ | .receive _ _ _
  | .wake _ | .keepalive _ | .requestStop _ | .leaveLoop _ | .ack _ | .remember _ | .crash _
  | .startSetup _ | .setupStep _ | .startTeardown | .teardownStep _ | .crashAdmin => .isTrue trivial

theorem Inv.step {s s' : Sys ι T F} {a : Action ι F} (h : Inv config fx base s)
    (hbase : s.admin.isSome → ∀ snapshot old targets, fx.backfill snapshot old = .ok targets →
      base snapshot targets)
    (hguard : s.Guarded a) (hstep : Sys.step config fx s a = some s') : Inv config fx base s' := by
  cases a with
  | commitTxn t =>
    rw [Sys.step] at hstep
    split_ifs at hstep with ht
    cases hstep
    exact h.commitTxn ht
  | feedback =>
    obtain ⟨slot, hslot, hstep⟩ := Option.bind_eq_some_iff.mp hstep
    obtain ⟨w, hw, hstep⟩ := Option.bind_eq_some_iff.mp hstep
    cases hfeedback : w.feedback with
    | nil => simp [hfeedback] at hstep
    | cons lsn rest =>
      simp only [hfeedback, Option.some.injEq] at hstep
      exact hstep ▸ h.feedback hslot hw hfeedback
  | release =>
    obtain ⟨slot, hslot, hstep⟩ := Option.bind_eq_some_iff.mp hstep
    obtain ⟨w, hw, hstep⟩ := Option.bind_eq_some_iff.mp hstep
    cases hstep
    exact h.release hslot hw
  | start d =>
    rw [Sys.step] at hstep
    split at hstep <;> cases hstep
    exact h.setDaemon_idle (by simp)
  | readCheckpoint d =>
    rw [Sys.step] at hstep
    split at hstep <;> cases hstep
    · exact h.setDaemon_idle (by simp)
    · exact h.setDaemon_idle (by simp)
  | openStream d pid =>
    rw [Sys.step] at hstep
    split at hstep
    · rename_i checkpoint hready
      split at hstep <;> cases hstep
      · rename_i confirmed opener hslot
        exact h.openStream hslot (hguard checkpoint _ hready hslot rfl)
      · exact h.setDaemon_idle (by simp)
    · cases hstep
  | serve d payloads =>
    obtain ⟨r, server, p, hr, hf, rfl⟩ := Sys.withRun_eq_some.mp hstep
    split at hf
    · split at hf
      · rename_i t hfind
        -- what is sent next is the first transaction after `pos`
        split_ifs at hf with hserve
        cases hf
        refine h.setRun hr (fun _ => ?_) fun checkpoint _ hf => ?_
        · rintro _ _ ⟨⟩
          exact ⟨hfind, .inl hserve.2⟩
        · exact ⟨hf.pos_le, hf.matching, hf.flushLsn_le, hf.reports.sorted, hf.reports.le⟩
      · cases hf
    · cases hf
  | receive d now later =>
    obtain ⟨r, server, p, hr, hf, rfl⟩ := Sys.withRun_eq_some.mp hstep
    split at hf
    · rename_i t payload rest hsending
      split_ifs at hf with hloop
      cases hf
      cases hreceive : r.receive config t payload rest now later with
      | none => exact h.setDaemon_idle (by simp)
      | some r' => exact h.receive hr hsending hloop.1 hreceive
    · cases hf
  | wake d =>
    obtain ⟨r, server, p, hr, hf, rfl⟩ := Sys.withRun_eq_some.mp hstep
    split_ifs at hf with hloop hpending
    · cases hf
      exact h.setRun hr id fun _ _ => id
    · cases hf
      exact h.startFlush hr hloop.1 _
  | keepalive d =>
    obtain ⟨r, server, p, hr, hf, rfl⟩ := Sys.withRun_eq_some.mp hstep
    split_ifs at hf with hloop
    cases hf
    exact h.report hr fun checkpoint hf => ⟨le_rfl, hf.flushLsn_le, hf.matching⟩
  | requestStop d =>
    obtain ⟨r, server, p, hr, hf, rfl⟩ := Sys.withRun_eq_some.mp hstep
    cases hf
    refine h.setRun hr (fun hsends => hsends) fun checkpoint _ hf => ?_
    exact ⟨hf.pos_le, hf.matching, hf.flushLsn_le, hf.reports.sorted, hf.reports.le⟩
  | leaveLoop d =>
    obtain ⟨r, server, p, hr, hf, rfl⟩ := Sys.withRun_eq_some.mp hstep
    split_ifs at hf with hloop hpending
    · cases hf
      exact h.setDaemon_idle (by simp)
    · cases hf
      exact h.startFlush hr hloop.1 _
  | flush d =>
    obtain ⟨r, server, p, hr, hf, rfl⟩ := Sys.withRun_eq_some.mp hstep
    -- a flush by a daemon that has lost the slot is what the guard excludes
    obtain ⟨slot, hslot, ho⟩ := hguard
    split at hf
    · rename_i last hphase
      split at hf <;> cases hf
      · exact h.setDaemon_idle (by simp)
      · rename_i hflush
        exact h.flush hr hphase hslot ho hflush
    · cases hf
  | ack d =>
    obtain ⟨r, server, p, hr, hf, rfl⟩ := Sys.withRun_eq_some.mp hstep
    split at hf
    · rename_i endLsn last hphase
      cases hf
      refine h.report hr fun checkpoint hf => ?_
      have hmatch := hf.matching
      rw [Run.Matches, hphase] at hmatch
      obtain ⟨rfl, hnil⟩ := hmatch
      exact ⟨hf.flushLsn_le, le_rfl, rfl, hnil⟩
    · cases hf
  | remember d =>
    obtain ⟨r, server, p, hr, hf, rfl⟩ := Sys.withRun_eq_some.mp hstep
    split at hf
    · rename_i endLsn last hphase
      split_ifs at hf <;> cases hf
      · exact h.setDaemon_idle (by simp)
      · refine h.setRun hr (fun hsends => hsends) fun checkpoint _ hf => ?_
        have hmatch := hf.matching
        rw [Run.Matches, hphase] at hmatch
        obtain ⟨rfl, hnil⟩ := hmatch
        exact ⟨hf.pos_le, ⟨rfl, hnil.symm⟩, hf.flushLsn_le, hf.reports.sorted, hf.reports.le⟩
    · cases hf
  | crash d =>
    cases hstep
    exact h.setDaemon_idle (by simp)
  | startSetup force =>
    rw [Sys.step] at hstep
    split_ifs at hstep
    cases hstep
    exact h.setAdmin trivial
  | setupStep reply =>
    rw [Sys.step] at hstep
    split at hstep
    · rename_i force stage hadmin
      split_ifs at hstep with hreply
      cases hstep
      exact h.setupStep (hbase (hadmin ▸ rfl)) hadmin hreply.1 hreply.2
    · cases hstep
  | startTeardown =>
    rw [Sys.step] at hstep
    split_ifs at hstep
    cases hstep
    exact h.setAdmin trivial
  | teardownStep fault =>
    rw [Sys.step] at hstep
    split at hstep
    · rename_i stage hadmin
      cases hstep
      exact h.teardownStep hadmin fault
    · cases hstep
  | crashAdmin =>
    cases hstep
    exact h.setAdmin trivial

end WalFlux
