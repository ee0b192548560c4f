import WalFlux.System.Provision

/-! No state an interleaving reaches is a dead end: where there is a slot and a checkpoint, one
daemon alone can bring the targets up to the end of the log. -/

namespace WalFlux

open Aggregates Bootstrap Protocol

variable {ι T F : Type} [PyFloat F] [DecidableEq F] {config : Config} {fx : Effects T F}

/-! ### What the server has to send -/

def assemblePayloads (config : Config) : Daemon.Assembly F → List (List UInt8) →
    Option (Daemon.Assembly F)
  | a, [] => some a
  | a, payload :: rest =>
    match decodeMessage payload with
    | .error _ => none
    | .ok m =>
      match Daemon.assemble config a m with
      | .error _ => none
      | .ok a => assemblePayloads config a rest

/-- The groups render the transactions one after another on one connection, and the daemon takes
them in. -/
def delivers (config : Config) : Daemon.Assembly F → List (SealedTxn F) →
    List (List (List UInt8)) → Bool
  | _, [], groups => groups = []
  | _, _ :: _, [] => false
  | a, t :: txns, group :: groups =>
    rendersTxn config t a group &&
      match assemblePayloads config a group with
      | none => false
      | some a => delivers config a txns groups

omit [DecidableEq F] in
theorem assemblePayloads_cons {a a' : Daemon.Assembly F} {payload : List UInt8}
    {rest : List (List UInt8)} (h : assemblePayloads config a (payload :: rest) = some a') :
    ∃ m a₁, decodeMessage payload = .ok m ∧ Daemon.assemble config a m = .ok a₁ ∧
      assemblePayloads config a₁ rest = some a' := by
  rw [assemblePayloads] at h
  cases hm : decodeMessage payload with
  | error e => simp [hm] at h
  | ok m =>
    cases ha : Daemon.assemble config a m with
    | error e => simp [hm, ha] at h
    | ok a₁ =>
      simp only [hm, ha] at h
      exact ⟨m, a₁, rfl, ha, h⟩

/-! ### One daemon's steps -/

def Action.Serves (d : ι) : Action ι F → Prop
  | .start d' | .readCheckpoint d' | .openStream d' _ | .serve d' _ | .receive d' _ _ | .wake d'
  | .flush d' | .ack d' | .remember d' | .crash d' => d' = d
  | .feedback | .release => True
  | _ => False

namespace Sys

variable [DecidableEq ι] {s s' : Sys ι T F} {d : ι} {r r' : Run F} {t : SealedTxn F}

def Alone (d : ι) (s : Sys ι T F) (a : Action ι F) : Prop := s.Guarded a ∧ a.Serves d

def put (s : Sys ι T F) (d : ι) (p : Process F) (server : Server ι T F) : Sys ι T F :=
  { s.setDaemon d p with server := server }

omit [PyFloat F] [DecidableEq F] in
@[simp] theorem put_daemons (p : Process F) (server : Server ι T F) :
    (s.put d p server).daemons d = p :=
  Function.update_self ..

omit [PyFloat F] [DecidableEq F] in
@[simp] theorem put_server (p : Process F) (server : Server ι T F) :
    (s.put d p server).server = server :=
  rfl

omit [PyFloat F] [DecidableEq F] in
theorem put_put (p p' : Process F) (server server' : Server ι T F) :
    (s.put d p server).put d p' server' = s.put d p' server' := by
  simp [put, setDaemon, Function.update_idem]

omit [PyFloat F] [DecidableEq F] in
theorem withRun_put {f : Run F → Option (Server ι T F × Process F)} {server : Server ι T F}
    {p : Process F} (hr : s.daemons d = .streaming r) (hf : f r = some (server, p)) :
    s.withRun d f = some (s.put d p server) := by
  rw [withRun, hr]
  dsimp only
  rw [hf]
  rfl

structure Waiting (d : ι) (s : Sys ι T F) (r : Run F) : Prop where
  daemon : s.daemons d = .streaming r
  phase : r.phase = .receiving
  stop : r.stop = false
  pending : r.loop.pending = []
  sending : r.sending = none
  checkpoint : s.server.checkpoint = some (some r.loop.checkpointLsn)
  slot : ∃ confirmed pid, s.server.slot = some ⟨confirmed, some d, some ⟨pid, d, []⟩⟩

end Sys

/-! ### Receiving a transaction -/

omit [DecidableEq F] in
theorem Run.receive_message {r : Run F} {t : SealedTxn F} {payload : List UInt8}
    {rest : List (List UInt8)} {m : Message} {a : Daemon.Assembly F}
    (hm : decodeMessage payload = .ok m) (ha : Daemon.assemble config r.loop.assembly m = .ok a)
    (hcommit : ∀ c, m ≠ .commit c) (hpending : r.loop.pending = []) (hrest : rest ≠ []) :
    r.receive config t payload rest 0 0 = some { r with
      loop := { r.loop with assembly := a }, phase := .receiving, sending := some (t, rest) } := by
  have hhandle : r.loop.handle config m 0 = .ok { r.loop with assembly := a } := by
    rw [Daemon.Loop.handle, ha]
    cases m with
    | commit c => exact absurd rfl (hcommit c)
    | _ => rfl
  have hdue : ({ r.loop with assembly := a } : Daemon.Loop F).due config 0 = .ok false := by
    rw [Daemon.Loop.due, if_pos hpending]
  simp only [Run.receive, hm, hhandle, hdue, if_neg hrest]
  rfl

/-- What the last message of a transaction leaves: it is pending, or skipped at or below the
checkpoint. -/
structure Run.Received (t : SealedTxn F) (a : Daemon.Assembly F) (r r' : Run F) : Prop where
  stop : r'.stop = r.stop
  sending : r'.sending = none
  pos : r'.pos = t.endLsn
  assembly : r'.loop.assembly = a
  checkpointLsn : r'.loop.checkpointLsn = r.loop.checkpointLsn
  pending : r'.loop.pending = if r.loop.checkpointLsn < t.endLsn then [t] else []
  phase : r'.phase = .receiving ∨ r'.phase = .flushing false ∧ r'.loop.pending ≠ []

omit [DecidableEq F] in
theorem Run.receive_commit {r : Run F} {t : SealedTxn F} {payload : List UInt8} {c : Commit}
    {a : Daemon.Assembly F} (hm : decodeMessage payload = .ok (.commit c))
    (ha : Daemon.assemble config r.loop.assembly (.commit c) = .ok a) (hlsn : c.endLsn = t.endLsn)
    (hops : r.loop.assembly.openOps = some t.ops) (hpending : r.loop.pending = []) :
    ∃ r', r.receive config t payload [] 0 0 = some r' ∧ Received t a r r' := by
  by_cases hnew : r.loop.checkpointLsn < t.endLsn
  · have hhandle : r.loop.handle config (.commit c) 0 =
        .ok ⟨a, r.loop.checkpointLsn, [t], some (r.loop.oldest.getD 0)⟩ := by
      rw [Daemon.Loop.handle, ha]
      dsimp only [bind, Except.bind]
      rw [hlsn, if_pos hnew, hops, hpending]
      rfl
    have hdue : ∃ due, (⟨a, r.loop.checkpointLsn, [t], some (r.loop.oldest.getD 0)⟩ :
        Daemon.Loop F).due config 0 = .ok due := by
      rw [Daemon.Loop.due, if_neg (List.cons_ne_nil _ _)]
      split_ifs
      · exact ⟨_, rfl⟩
      · exact ⟨_, rfl⟩
    obtain ⟨due, hdue⟩ := hdue
    refine ⟨{ r with
      loop := ⟨a, r.loop.checkpointLsn, [t], some (r.loop.oldest.getD 0)⟩
      phase := if due then .flushing false else .receiving
      pos := t.endLsn
      sending := none }, ?_, rfl, rfl, rfl, rfl, rfl, (if_pos hnew).symm, ?_⟩
    · simp [Run.receive, hm, hhandle, hdue]
    · cases due with
      | false => exact .inl rfl
      | true => exact .inr ⟨rfl, List.cons_ne_nil _ _⟩
  · have hhandle : r.loop.handle config (.commit c) 0 = .ok { r.loop with assembly := a } := by
      rw [Daemon.Loop.handle, ha]
      dsimp only [bind, Except.bind]
      rw [hlsn, if_neg hnew]
      rfl
    have hdue : ({ r.loop with assembly := a } : Daemon.Loop F).due config 0 = .ok false := by
      rw [Daemon.Loop.due, if_pos hpending]
    refine ⟨{ r with
      loop := { r.loop with assembly := a }
      phase := .receiving
      pos := t.endLsn
      sending := none }, ?_, rfl, rfl, rfl, rfl, rfl, hpending.trans (if_neg hnew).symm, .inl rfl⟩
    simp only [Run.receive, hm, hhandle, hdue]
    simp

namespace Sys

variable [DecidableEq ι] {s s' : Sys ι T F} {d : ι} {r r' : Run F} {t : SealedTxn F}

variable (fx) in
theorem step_receive {payload : List UInt8} {rest : List (List UInt8)}
    (hr : s.daemons d = .streaming r) (hphase : r.phase = .receiving) (hstop : r.stop = false)
    (hsending : r.sending = some (t, payload :: rest))
    (hreceive : r.receive config t payload rest 0 0 = some r') :
    step config fx s (.receive d 0 0) = some (s.put d (.streaming r') s.server) := by
  refine withRun_put hr ?_
  rw [hsending]
  dsimp only
  rw [if_pos ⟨hphase, hstop⟩, hreceive]
  rfl

theorem receive_cons {payload : List UInt8} {rest : List (List UInt8)} {m : Message}
    {a a₁ : Daemon.Assembly F} (hr : s.daemons d = .streaming r) (hphase : r.phase = .receiving)
    (hstop : r.stop = false) (hpending : r.loop.pending = [])
    (hsending : r.sending = some (t, payload :: rest)) (hm : decodeMessage payload = .ok m)
    (ha₁ : Daemon.assemble config r.loop.assembly m = .ok a₁) (hcommit : ∀ c, m ≠ .commit c)
    (hne : rest ≠ [])
    (hrest : ∀ (s₁ : Sys ι T F) (r₁ : Run F), s₁.daemons d = .streaming r₁ → r₁.phase = .receiving →
      r₁.stop = false → r₁.loop.pending = [] → r₁.sending = some (t, rest) → r₁.loop.assembly = a₁ →
      ∃ r', Steps config fx (Alone d) s₁ (s₁.put d (.streaming r') s₁.server) ∧
      Run.Received t a r₁ r') :
    ∃ r', Steps config fx (Alone d) s (s.put d (.streaming r') s.server) ∧
      Run.Received t a r r' := by
  let r₁ : Run F := { r with
    loop := { r.loop with assembly := a₁ }, phase := .receiving, sending := some (t, rest) }
  have hreceive : r.receive config t payload rest 0 0 = some r₁ :=
    Run.receive_message hm ha₁ hcommit hpending hne
  have hstep := step_receive fx hr hphase hstop hsending hreceive
  obtain ⟨r', hsteps, hreceived⟩ := hrest (s.put d (.streaming r₁) s.server) r₁
    (put_daemons _ _) rfl hstop hpending rfl rfl
  rw [put_put, put_server] at hsteps
  refine ⟨r', .head (a := .receive d 0 0) ⟨trivial, rfl⟩ hstep hsteps, ?_⟩
  exact ⟨hreceived.stop, hreceived.sending, hreceived.pos, hreceived.assembly,
    hreceived.checkpointLsn, hreceived.pending, hreceived.phase⟩

theorem receive_rest {payloads : List (List UInt8)} {a : Daemon.Assembly F}
    (hr : s.daemons d = .streaming r) (hphase : r.phase = .receiving) (hstop : r.stop = false)
    (hpending : r.loop.pending = []) (hsending : r.sending = some (t, payloads))
    (hcompletes : completes config t r.loop.assembly payloads = true)
    (hassemble : assemblePayloads config r.loop.assembly payloads = some a) :
    ∃ r', Steps config fx (Alone d) s (s.put d (.streaming r') s.server) ∧
      Run.Received t a r r' := by
  induction payloads generalizing s r with
  | nil => cases hcompletes
  | cons payload rest ih =>
    obtain ⟨m, a₁, hm, ha₁, hrest⟩ := assemblePayloads_cons hassemble
    rcases completes_cons hcompletes hm ha₁ with ⟨c, rfl, rfl, hlsn, hops⟩ | ⟨hcommit, hcompletes'⟩
    · obtain ⟨r', hreceive, hreceived⟩ := Run.receive_commit hm ha₁ hlsn hops hpending
      cases hrest
      have hstep := step_receive fx hr hphase hstop hsending hreceive
      exact ⟨r', .head (a := .receive d 0 0) ⟨trivial, rfl⟩ hstep (.refl _), hreceived⟩
    · have hne : rest ≠ [] := by
        rintro rfl
        cases hcompletes'
      refine receive_cons hr hphase hstop hpending hsending hm ha₁ hcommit hne ?_
      intro s₁ r₁ hr₁ hphase₁ hstop₁ hpending₁ hsending₁ hassembly₁
      exact ih hr₁ hphase₁ hstop₁ hpending₁ hsending₁ (hassembly₁ ▸ hcompletes')
        (hassembly₁ ▸ hrest)

variable (fx) in
theorem receive_txn {payloads : List (List UInt8)} {a : Daemon.Assembly F}
    (hr : s.daemons d = .streaming r) (hphase : r.phase = .receiving) (hstop : r.stop = false)
    (hpending : r.loop.pending = []) (hsending : r.sending = some (t, payloads))
    (hrenders : rendersTxn config t r.loop.assembly payloads = true)
    (hassemble : assemblePayloads config r.loop.assembly payloads = some a) :
    ∃ r', Steps config fx (Alone d) s (s.put d (.streaming r') s.server) ∧
      Run.Received t a r r' := by
  cases payloads with
  | nil => cases hrenders
  | cons payload rest =>
    obtain ⟨m, a₁, hm, ha₁, hrest⟩ := assemblePayloads_cons hassemble
    obtain ⟨hcommit, hcompletes⟩ := rendersTxn_cons hrenders hm ha₁
    have hne : rest ≠ [] := by
      rintro rfl
      cases hcompletes
    refine receive_cons hr hphase hstop hpending hsending hm ha₁ hcommit hne ?_
    intro s₁ r₁ hr₁ hphase₁ hstop₁ hpending₁ hsending₁ hassembly₁
    exact receive_rest hr₁ hphase₁ hstop₁ hpending₁ hsending₁ (hassembly₁ ▸ hcompletes)
      (hassembly₁ ▸ hrest)

/-! ### Flushing it -/

theorem step_flush {server : Server ι T F} {endLsn : ℕ} {last : Bool}
    (hr : s.daemons d = .streaming r) (hphase : r.phase = .flushing last)
    (hflush : s.server.flush fx r.loop.pending = .ok (server, endLsn)) :
    step config fx s (.flush d) =
      some (s.put d (.streaming { r with phase := .committed endLsn last }) server) := by
  refine withRun_put hr ?_
  rw [hphase]
  dsimp only
  rw [hflush]

theorem step_ack {endLsn : ℕ} {last : Bool} (hr : s.daemons d = .streaming r)
    (hphase : r.phase = .committed endLsn last) :
    step config fx s (.ack d) =
      some (s.put d (.streaming { r.report endLsn with phase := .acked endLsn last })
        { s.server with slot := s.server.slot.map (·.report d endLsn) }) := by
  refine withRun_put hr ?_
  rw [hphase]

theorem step_remember {endLsn : ℕ} (hr : s.daemons d = .streaming r)
    (hphase : r.phase = .acked endLsn false) :
    step config fx s (.remember d) = some (s.put d (.streaming
      { r with loop := r.loop.flushed endLsn, phase := .receiving }) s.server) := by
  refine withRun_put hr ?_
  rw [hphase]
  rfl

variable (config) in
theorem flush_pending {confirmed pid : ℕ} {row : Option ℕ} {targets : T}
    (hr : s.daemons d = .streaming r) (hphase : r.phase = .flushing false) (hstop : r.stop = false)
    (hpending : r.loop.pending = [t]) (hsending : r.sending = none)
    (hcheckpoint : s.server.checkpoint = some row)
    (hslot : s.server.slot = some ⟨confirmed, some d, some ⟨pid, d, []⟩⟩)
    (hpos : 0 < t.endLsn) (hflush : fx.flush t.ops s.server.targets = .ok targets) :
    ∃ s' r', Steps config fx (Alone d) s s' ∧ Waiting d s' r' ∧ r'.pos = r.pos ∧
      r'.loop.assembly = r.loop.assembly ∧ r'.loop.checkpointLsn = t.endLsn ∧
      s'.server.history = s.server.history ∧
      s'.server.slot = some ⟨t.endLsn, some d, some ⟨pid, d, []⟩⟩ := by
  have hserver : s.server.flush fx r.loop.pending =
      .ok ({ s.server with targets := targets, checkpoint := some (some t.endLsn) }, t.endLsn) := by
    have hops : fx.flush ([t].flatMap SealedTxn.ops) s.server.targets = .ok targets := by
      rwa [List.flatMap_singleton]
    rw [Server.flush, hpending, hops]
    change (writeCheckpoint { s.server with targets := targets } t.endLsn >>= fun server =>
      pure (server, t.endLsn)) = _
    rw [writeCheckpoint, hcheckpoint]
    rfl
  let server₁ : Server ι T F := { s.server with
    targets := targets, checkpoint := some (some t.endLsn) }
  let r₁ : Run F := { r with phase := .committed t.endLsn false }
  have hstep₁ : step config fx s (.flush d) = some (s.put d (.streaming r₁) server₁) :=
    step_flush hr hphase hserver
  let server₂ : Server ι T F := { server₁ with slot := some ⟨confirmed, some d,
    some ⟨pid, d, [t.endLsn]⟩⟩ }
  let r₂ : Run F := { r₁.report t.endLsn with phase := .acked t.endLsn false }
  have hreport : server₁.slot.map (·.report d t.endLsn) =
      some ⟨confirmed, some d, some ⟨pid, d, [t.endLsn]⟩⟩ := by
    change s.server.slot.map _ = _
    rw [hslot]
    simp [Slot.report]
  have hstep₂ : step config fx (s.put d (.streaming r₁) server₁) (.ack d) =
      some (s.put d (.streaming r₂) server₂) := by
    rw [step_ack (put_daemons _ _) rfl, put_put, put_server, hreport]
  let r₃ : Run F := { r₂ with loop := r₂.loop.flushed t.endLsn, phase := .receiving }
  have hstep₃ : step config fx (s.put d (.streaming r₂) server₂) (.remember d) =
      some (s.put d (.streaming r₃) server₂) := by
    rw [step_remember (put_daemons _ _) rfl, put_put, put_server]
  let server₃ : Server ι T F := { server₁ with slot := some ⟨t.endLsn, some d, some ⟨pid, d, []⟩⟩ }
  have hstep₄ : step config fx (s.put d (.streaming r₃) server₂) .feedback =
      some (s.put d (.streaming r₃) server₃) := by
    have hconfirm : (⟨confirmed, some d, some ⟨pid, d, []⟩⟩ : Slot ι).confirm t.endLsn =
        ⟨t.endLsn, some d, some ⟨pid, d, []⟩⟩ := by rw [Slot.confirm, if_neg hpos.ne']
    change some (((s.put d (.streaming r₃) server₂)).setSlot (Slot.confirm _ _)) = _
    rw [hconfirm]
    rfl
  have hguard : s.Guarded (.flush d : Action ι F) := ⟨_, hslot, rfl⟩
  refine ⟨s.put d (.streaming r₃) server₃, r₃, ?_, ?_, rfl, rfl, rfl, rfl, rfl⟩
  · exact .head ⟨hguard, rfl⟩ hstep₁ (.head (a := .ack d) ⟨trivial, rfl⟩ hstep₂
      (.head (a := .remember d) ⟨trivial, rfl⟩ hstep₃ (.head (a := .feedback)
        ⟨trivial, trivial⟩ hstep₄ (.refl _))))
  · exact ⟨put_daemons _ _, rfl, hstop, rfl, hsending, rfl, t.endLsn, pid, rfl⟩

/-! ### One transaction after another -/

variable (fx) in
theorem step_serve {pid confirmed : ℕ} {payloads : List (List UInt8)}
    (hr : s.daemons d = .streaming r) (hsending : r.sending = none)
    (hslot : s.server.slot = some ⟨confirmed, some d, some ⟨pid, d, []⟩⟩)
    (hnext : s.server.history.find? (fun t => r.pos < t.endLsn) = some t)
    (hrenders : rendersTxn config t r.loop.assembly payloads = true) :
    step config fx s (.serve d payloads) =
      some (s.put d (.streaming { r with sending := some (t, payloads) }) s.server) := by
  refine withRun_put hr ?_
  rw [hslot, hsending]
  dsimp only [Option.bind]
  rw [hnext]
  dsimp only
  rw [if_pos ⟨rfl, hrenders⟩]

variable (config fx) in
theorem step_wake (hr : s.daemons d = .streaming r) (hphase : r.phase = .receiving)
    (hstop : r.stop = false) (hpending : r.loop.pending ≠ []) :
    step config fx s (.wake d) =
      some (s.put d (.streaming { r with phase := .flushing false }) s.server) := by
  refine withRun_put hr ?_
  rw [if_pos ⟨hphase, hstop⟩, if_neg hpending]

theorem Steps.trans {P : Sys ι T F → Action ι F → Prop} {u : Sys ι T F}
    (h : Steps config fx P s s') (h' : Steps config fx P s' u) : Steps config fx P s u := by
  induction h' with
  | refl => exact h
  | tail _ hp ha ih => exact ih.tail hp ha

theorem Waiting.next {payloads : List (List UInt8)} {a : Daemon.Assembly F} (h : Waiting d s r)
    (hnext : s.server.history.find? (fun t => r.pos < t.endLsn) = some t)
    (hrenders : rendersTxn config t r.loop.assembly payloads = true)
    (hassemble : assemblePayloads config r.loop.assembly payloads = some a)
    (hflush : r.loop.checkpointLsn < t.endLsn → ∃ targets, fx.flush t.ops s.server.targets =
      .ok targets) :
    ∃ s' r', Steps config fx (Alone d) s s' ∧ Waiting d s' r' ∧ r'.pos = t.endLsn ∧
      r'.loop.assembly = a ∧ s'.server.history = s.server.history ∧
      (r.loop.checkpointLsn < t.endLsn ∧ r'.loop.checkpointLsn = t.endLsn ∧
          (∃ slot, s'.server.slot = some slot ∧ slot.confirmed = t.endLsn) ∨
        t.endLsn ≤ r.loop.checkpointLsn ∧ r'.loop.checkpointLsn = r.loop.checkpointLsn ∧
          s'.server.slot = s.server.slot) := by
  obtain ⟨confirmed, pid, hslot⟩ := h.slot
  have hserve := step_serve fx h.daemon h.sending hslot hnext hrenders
  let r₀ : Run F := { r with sending := some (t, payloads) }
  obtain ⟨r₁, hreceive, hreceived⟩ := receive_txn fx (s := s.put d (.streaming r₀) s.server)
    (r := r₀) (put_daemons _ _) h.phase h.stop h.pending rfl hrenders hassemble
  rw [put_put, put_server] at hreceive
  have hsteps : Steps config fx (Alone d) s (s.put d (.streaming r₁) s.server) :=
    .head (a := .serve d payloads) ⟨trivial, rfl⟩ hserve hreceive
  have hckpt : r₁.loop.checkpointLsn = r.loop.checkpointLsn := hreceived.checkpointLsn
  -- above the checkpoint it is flushed, by a full batch or at a wake; else it is skipped
  by_cases hnew : r.loop.checkpointLsn < t.endLsn
  · have hpending : r₁.loop.pending = [t] := hreceived.pending.trans (if_pos hnew)
    let r₂ : Run F := { r₁ with phase := .flushing false }
    have hwake : Steps config fx (Alone d) s (s.put d (.streaming r₂) s.server) := by
      rcases hreceived.phase with hphase | ⟨hphase, -⟩
      · have hne : r₁.loop.pending ≠ [] := hpending ▸ List.cons_ne_nil _ _
        have hstep := step_wake config fx (s := s.put d (.streaming r₁) s.server) (d := d)
          (put_daemons _ _) hphase (hreceived.stop.trans h.stop) hne
        rw [put_put, put_server] at hstep
        exact hsteps.tail (a := .wake d) ⟨trivial, rfl⟩ hstep
      · have hr₂ : r₂ = r₁ := by
          simp only [r₂, ← hphase]
        rwa [hr₂]
    obtain ⟨targets, htargets⟩ := hflush hnew
    obtain ⟨s', r', hrun, hwaiting, hpos, hassembly, hcheckpoint, hhistory, hslot'⟩ :=
      flush_pending config (s := s.put d (.streaming r₂) s.server) (r := r₂)
        (put_daemons _ _) rfl (hreceived.stop.trans h.stop) hpending hreceived.sending
          h.checkpoint hslot
        (by omega) htargets
    exact ⟨s', r', hwake.trans hrun, hwaiting, hpos.trans hreceived.pos,
      hassembly.trans hreceived.assembly, hhistory, .inl ⟨hnew, hcheckpoint, _, hslot', rfl⟩⟩
  · have hpending : r₁.loop.pending = [] := hreceived.pending.trans (if_neg hnew)
    have hphase : r₁.phase = .receiving :=
      hreceived.phase.resolve_right fun hphase => hphase.2 hpending
    refine ⟨_, r₁, hsteps, ?_, hreceived.pos, hreceived.assembly, rfl,
      .inr ⟨not_lt.mp hnew, hckpt, rfl⟩⟩
    exact ⟨put_daemons _ _, hphase, hreceived.stop.trans h.stop, hpending, hreceived.sending,
      hckpt ▸ h.checkpoint, confirmed, pid, hslot⟩

end Sys

/-! ### To the end of the log -/

namespace Sys

variable [DecidableEq ι] {s s' : Sys ι T F} {d : ι} {r r' : Run F}

variable (fx) in
theorem Waiting.catch_up {txns : List (SealedTxn F)} {groups : List (List (List UInt8))}
    (h : Waiting d s r) (hincreasing : Log.Increasing SealedTxn.endLsn s.server.history)
    (hafter : s.server.history.filter (fun t => r.pos < t.endLsn) = txns)
    (hdelivers : delivers config r.loop.assembly txns groups = true)
    (hflush : ∀ t ∈ s.server.history, r.loop.checkpointLsn < t.endLsn →
      ∀ targets, ∃ targets', fx.flush t.ops targets = .ok targets') :
    ∃ s' r', Steps config fx (Alone d) s s' ∧ Waiting d s' r' ∧
      s'.server.history = s.server.history ∧
      r.loop.checkpointLsn ≤ r'.loop.checkpointLsn ∧ (∀ t ∈ txns,
        t.endLsn ≤ r'.loop.checkpointLsn) ∧
      (r'.loop.checkpointLsn = r.loop.checkpointLsn ∧ s'.server.slot = s.server.slot ∨
        ∃ slot, s'.server.slot = some slot ∧ slot.confirmed = r'.loop.checkpointLsn) := by
  induction txns generalizing s r groups with
  | nil => exact ⟨s, r, .refl s, h, rfl, le_rfl, fun t ht => (by cases ht), .inl ⟨rfl, rfl⟩⟩
  | cons t txns ih =>
    obtain ⟨hnext, hrest⟩ := Log.after_cons hincreasing hafter
    cases groups with
    | nil => cases hdelivers
    -- one transaction and its flush, then the rest from where that leaves the daemon
    | cons group groups =>
      rw [delivers, Bool.and_eq_true] at hdelivers
      obtain ⟨hrenders, hdelivers⟩ := hdelivers
      cases hassemble : assemblePayloads config r.loop.assembly group with
      | none => simp [hassemble] at hdelivers
      | some a =>
        simp only [hassemble] at hdelivers
        have hmem : t ∈ s.server.history := List.mem_of_find?_eq_some hnext
        obtain ⟨s₁, r₁, hsteps₁, hwaiting₁, hpos₁, hassembly₁, hhistory₁, hcase⟩ :=
          h.next hnext hrenders hassemble fun hnew => hflush t hmem hnew _
        have hle : r.loop.checkpointLsn ≤ r₁.loop.checkpointLsn ∧
            t.endLsn ≤ r₁.loop.checkpointLsn := by
          rcases hcase with ⟨hnew, hckpt, -⟩ | ⟨hskip, hckpt, -⟩
          · rw [hckpt]
            exact ⟨hnew.le, le_rfl⟩
          · rw [hckpt]
            exact ⟨le_rfl, hskip⟩
        obtain ⟨s', r', hsteps, hwaiting, hhistory, hckpt, hcovers, hslot⟩ := ih hwaiting₁
          (hhistory₁ ▸ hincreasing) (by rw [hhistory₁, hpos₁, hrest]) (hassembly₁ ▸ hdelivers)
          fun u hu hnew => hflush u (hhistory₁ ▸ hu) (hle.1.trans_lt hnew)
        refine ⟨s', r', hsteps₁.trans hsteps, hwaiting, hhistory.trans hhistory₁, hle.1.trans hckpt,
          List.forall_mem_cons.mpr ⟨hle.2.trans hckpt, hcovers⟩, ?_⟩
        rcases hslot with ⟨hsame, hslot⟩ | hslot
        · rcases hcase with ⟨-, hckpt₁, slot, hslot₁, hconfirmed⟩ | ⟨-, hckpt₁, hslot₁⟩
          · exact .inr ⟨slot, hslot.trans hslot₁, by rw [hconfirmed, hsame, hckpt₁]⟩
          · exact .inl ⟨hsame.trans hckpt₁, hslot.trans hslot₁⟩
        · exact .inr hslot

variable (config fx) in
theorem restart {checkpoint : ℕ} {slot : Slot ι} (d : ι)
    (hcheckpoint : s.server.checkpoint = some (some checkpoint))
    (hslot : s.server.slot = some slot) :
    Steps config fx (Alone d) s (s.put d (.streaming (.start checkpoint slot.confirmed))
      { s.server with slot := some ⟨slot.confirmed, some d, some ⟨1, d, []⟩⟩ }) := by
  let free : Server ι T F := { s.server with slot := some { slot with walsender := none } }
  have hrow : free.row = some checkpoint := congrArg Option.join hcheckpoint
  have hfree : Steps config fx (Alone d) s (s.put d .down free) := by
    have hcrash : step config fx s (.crash d) = some (s.put d .down s.server) := rfl
    have hdown : Steps config fx (Alone d) s (s.put d .down s.server) :=
      .head (a := .crash d) ⟨trivial, rfl⟩ hcrash (.refl _)
    cases hwalsender : slot.walsender with
    | none =>
      have hsame : free = s.server := by
        have hslot' : { slot with walsender := none } = slot := by rw [← hwalsender]
        simp only [free, hslot', ← hslot]
      rwa [hsame]
    | some walsender =>
      have hrelease : step config fx (s.put d .down s.server) .release =
          some (s.put d .down free) := by
        simp only [step, put_server, hslot, hwalsender, Option.bind_eq_bind, Option.bind_some]
        rfl
      exact hdown.tail (a := .release) ⟨trivial, trivial⟩ hrelease
  have hstart : step config fx (s.put d .down free) (.start d) =
      some (s.put d .connected free) := by
    simp only [step, put_daemons]
    exact congrArg some (put_put _ _ _ _)
  have hread : step config fx (s.put d .connected free) (.readCheckpoint d) =
      some (s.put d (.ready checkpoint) free) := by
    simp only [step, put_daemons, put_server, hrow]
    exact congrArg some (put_put _ _ _ _)
  have hopen : step config fx (s.put d (.ready checkpoint) free) (.openStream d 1) =
      some (s.put d (.streaming (.start checkpoint slot.confirmed))
        { s.server with slot := some ⟨slot.confirmed, some d, some ⟨1, d, []⟩⟩ }) := by
    simp only [step, put_daemons, put_server, free]
    exact congrArg some (put_put _ _ _ _)
  have hguard : (s.put d (.ready checkpoint) free).Guarded (.openStream d 1 : Action ι F) := by
    intro checkpoint' slot' hready _ _
    rw [put_daemons] at hready
    cases hready
    exact hrow
  exact ((hfree.tail (a := .start d) ⟨trivial, rfl⟩ hstart).tail (a := .readCheckpoint d)
    ⟨trivial, rfl⟩ hread).tail ⟨hguard, rfl⟩ hopen

end Sys

/-- From every state that an interleaving has reached with a slot and a checkpoint, one daemon can
bring the targets up to the end of the log and the checkpoint and the slot with them, as long as the
server can send the rest of the log to a new connection and every transaction can be flushed. -/
theorem catches_up [DecidableEq ι] {server : Server ι T F} (hserver : Consistent fx server)
    {s : Sys ι T F} (hrun : Sys.Steps config fx Sys.Guarded (.init server) s) {checkpoint : ℕ}
    {slot : Slot ι} (hrow : s.server.row = some checkpoint)
    (hslot : s.server.slot = some slot) (d : ι) {groups : List (List (List UInt8))}
    (hdelivers : delivers config ⟨[], [], none⟩
      (s.server.history.filter fun t => slot.confirmed < t.endLsn) groups = true)
    (hflush : ∀ t ∈ s.server.history, checkpoint < t.endLsn →
      ∀ targets, ∃ targets', fx.flush t.ops targets = .ok targets') :
    ∃ s' checkpoint', Sys.Steps config fx (Sys.Alone d) s s' ∧
      s'.server.history = s.server.history ∧
      s'.server.row = some checkpoint' ∧ (∀ t ∈ s.server.history, t.endLsn ≤ checkpoint') ∧
      Built fx (filledBy fx) s.server.history s'.server.targets ∧
      (checkpoint' = checkpoint ∨ ∃ slot', s'.server.slot = some slot' ∧
        slot'.confirmed = checkpoint') := by
  have hbase : ∀ snapshot old targets, fx.backfill snapshot old = .ok targets →
      filledBy fx snapshot targets := fun _ old _ htargets => ⟨old, htargets⟩
  have hinv : Inv config fx (filledBy fx) s :=
    hrun.invariant hserver.inv fun _ _ _ h hguard hstep => h.step (fun _ => hbase) hguard hstep
  have hcheckpoint : s.server.checkpoint = some (some checkpoint) := Option.join_eq_some_iff.mp hrow
  have hrestart := Sys.restart config fx d hcheckpoint hslot
  obtain ⟨s', r', hsteps, hwaiting, hhistory, hle, hcovers, hconfirmed⟩ :=
    Sys.Waiting.catch_up fx (d := d) (r := .start checkpoint slot.confirmed)
      (s := s.put d (.streaming (.start checkpoint slot.confirmed))
        { s.server with slot := some ⟨slot.confirmed, some d, some ⟨1, d, []⟩⟩ })
      ⟨Sys.put_daemons _ _, rfl, rfl, rfl, rfl, hcheckpoint, _, 1, rfl⟩ hinv.increasing rfl
        hdelivers hflush
  have hinv' : Inv config fx (filledBy fx) s' := (hrestart.trans hsteps).invariant hinv
    fun _ _ _ h hp hstep => h.step (fun _ => hbase) hp.1 hstep
  have hrow' : s'.server.row = some r'.loop.checkpointLsn :=
    congrArg Option.join hwaiting.checkpoint
  have hall : ∀ t ∈ s.server.history, t.endLsn ≤ r'.loop.checkpointLsn := by
    intro t ht
    -- what the slot has confirmed is not sent again, and lies below the checkpoint
    by_cases hsent : slot.confirmed < t.endLsn
    · exact hcovers t (List.mem_filter.mpr ⟨ht, decide_eq_true hsent⟩)
    · have hconfirmed_le : slot.confirmed ≤ checkpoint :=
        (hinv.slot slot hslot).confirmed_le checkpoint hrow
      exact (not_lt.mp hsent).trans (hconfirmed_le.trans hle)
  refine ⟨s', _, hrestart.trans hsteps, hhistory, hrow', hall, ?_, ?_⟩
  · have hall' : s'.server.upTo r'.loop.checkpointLsn = s.server.history := by
      rw [Server.upTo, hhistory]
      exact Log.upTo_eq_self hall
    exact hall' ▸ (hinv'.row _ hrow').2
  · exact hconfirmed.imp (fun h => h.1) id

def stalledActions : List (Action Unit Empty) :=
  [.start (), .readCheckpoint (), .commitTxn (sampleTxn 20), .openStream () 1,
    .serve () (samplePayloads 20),
    .receive () 0 0, .receive () 0 0, .crash (), .commitTxn (sampleTxn 40)]

theorem catches_up_stalled : ∃ s' : Sys Unit (List (Op Empty)) Empty,
    s'.server.history = [sampleTxn 20, sampleTxn 40] ∧ ∃ checkpoint',
      s'.server.row = some checkpoint' ∧
      40 ≤ checkpoint' := by
  have hrun : (Sys.runAllowed Sys.Guarded sampleConfig recordOps (.init sampleServer)
      stalledActions).map
        (fun s => (s.server.row, s.server.history, s.server.slot.map Slot.confirmed)) =
      some (some 10, [sampleTxn 20, sampleTxn 40], some 10) := by decide +kernel
  obtain ⟨s, hs, hserver⟩ := Option.map_eq_some_iff.mp hrun
  simp only [Prod.mk.injEq, Option.map_eq_some_iff] at hserver
  obtain ⟨hrow, hhistory, slot, hslot, hconfirmed⟩ := hserver
  have hsteps := Sys.steps_of_runAllowed hs
  have hdelivers : delivers sampleConfig ⟨[], [], none⟩
      (s.server.history.filter fun t => slot.confirmed < t.endLsn)
      [samplePayloads 20, samplePayloads 40] = true := by
    rw [hhistory, hconfirmed]
    decide +kernel
  obtain ⟨s', checkpoint', -, hhistory', hrow', hall, -⟩ :=
    catches_up sampleServer_consistent hsteps hrow
    hslot () hdelivers fun t _ _ targets => ⟨_, rfl⟩
  refine ⟨s', hhistory'.trans hhistory, checkpoint', hrow', hall (sampleTxn 40) ?_⟩
  rw [hhistory]
  exact List.mem_cons_of_mem _ List.mem_cons_self

end WalFlux
