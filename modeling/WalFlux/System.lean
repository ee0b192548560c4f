import WalFlux.Bootstrap

/-! The server with its clients: any number of daemons and one setup or teardown, one step at a
time. A step of a process is a step of its program between two database operations. -/

namespace WalFlux

open Aggregates Protocol

/-! ### Processes -/

/-- Where a daemon stands: reading the stream, in `_flush` before the commit, after the commit, or
after the ack; `last` marks the flush of a graceful stop. -/
inductive Phase
  | receiving
  | flushing (last : Bool)
  | committed (endLsn : ℕ) (last : Bool)
  | acked (endLsn : ℕ) (last : Bool)
  deriving DecidableEq

/-- A daemon with an open stream. `flushLsn` and `reported` are the stream's last position and every
position passed to `send_feedback`; `pos` and `sending` say how far the server has sent: all
transactions up to `pos`, and of the next one all but the payloads left. -/
structure Run (F : Type) where
  loop : Daemon.Loop F
  stop : Bool
  phase : Phase
  flushLsn : ℕ
  reported : List ℕ
  pos : ℕ
  sending : Option (SealedTxn F × List (List UInt8))

inductive Process (F : Type)
  | down
  | connected
  | ready (checkpoint : ℕ)
  | streaming (run : Run F)

inductive Admin (F : Type)
  | setup (force : Bool) (stage : Bootstrap.Stage F)
  | teardown (stage : Bootstrap.TeardownStage)

structure Sys (ι T F : Type) where
  server : Server ι T F
  daemons : ι → Process F
  admin : Option (Admin F)

/-! ### Delivery -/

variable {ι T F : Type} [PyFloat F] [DecidableEq F]

/-- The payloads end the transaction `t`: after them the buffer holds its ops, and its Commit comes
last. Nothing is promised about a message the daemon raises on. -/
def completes (config : Config) (t : SealedTxn F) : Daemon.Assembly F → List (List UInt8) → Bool
  | _, [] => false
  | a, payload :: rest =>
    match decodeMessage payload with
    | .error _ => true
    | .ok (.begin _) => false
    | .ok (.commit c) => rest = [] ∧ c.endLsn = t.endLsn ∧ a.openOps = some t.ops
    | .ok m =>
      match Daemon.assemble config a m with
      | .error _ => true
      | .ok a => completes config t a rest

/-- A whole Begin..Commit group of `t` on a connection that has announced the relations of `a`. -/
def rendersTxn (config : Config) (t : SealedTxn F) (a : Daemon.Assembly F) :
    List (List UInt8) → Bool
  | [] => false
  | payload :: rest =>
    match decodeMessage payload with
    | .ok (.begin _) => completes config t { a with openOps := some [] } rest
    | _ => false

/-! ### Steps -/

inductive Action (ι F : Type)
  /-- a source transaction commits -/
  | commitTxn (t : SealedTxn F)
  /-- the walsender takes in the next flush position -/
  | feedback
  /-- the walsender exits, after its client or on its own -/
  | release
  | start (d : ι)
  | readCheckpoint (d : ι)
  | openStream (d : ι) (pid : ℕ)
  /-- the walsender begins to send the next transaction -/
  | serve (d : ι) (payloads : List (List UInt8))
  | receive (d : ι) (now later : ℚ)
  | wake (d : ι)
  | keepalive (d : ι)
  | requestStop (d : ι)
  | leaveLoop (d : ι)
  | flush (d : ι)
  | ack (d : ι)
  | remember (d : ι)
  | crash (d : ι)
  | startSetup (force : Bool)
  | setupStep (reply : Bootstrap.Reply)
  | startTeardown
  | teardownStep (fault : Option Error)
  | crashAdmin

/-- The slot takes a flush position; 0 is no information. -/
def Slot.confirm (slot : Slot ι) (lsn : ℕ) : Slot ι :=
  if lsn = 0 then slot else { slot with confirmed := lsn }

/-- `send_feedback`, on a connection that may already be gone. -/
def Slot.report [DecidableEq ι] (slot : Slot ι) (d : ι) (lsn : ℕ) : Slot ι :=
  match slot.walsender with
  | some w => if w.owner = d then
      { slot with walsender := some { w with feedback := w.feedback ++ [lsn] } } else slot
  | none => slot

def Server.flush (fx : Effects T F) (s : Server ι T F) (pending : List (SealedTxn F)) :
    Except Error (Server ι T F × ℕ) := do
  let targets ← fx.flush (pending.flatMap SealedTxn.ops) s.targets
  match pending.getLast? with
  | none => .error .index
  | some t => return (← Bootstrap.writeCheckpoint { s with targets := targets } t.endLsn, t.endLsn)

namespace Run

def start (checkpoint confirmed : ℕ) : Run F :=
  ⟨.init checkpoint, false, .receiving, 0, [], confirmed, none⟩

/-- After a message; `none` when the daemon exits on an error. -/
def receive (config : Config) (r : Run F) (t : SealedTxn F) (payload : List UInt8)
    (rest : List (List UInt8)) (now later : ℚ) : Option (Run F) :=
  match decodeMessage payload with
  | .error _ => none
  | .ok m =>
    match r.loop.handle config m now with
    | .error _ => none
    | .ok loop =>
      match loop.due config later with
      | .error _ => none
      | .ok due => some { r with
          loop := loop
          phase := if due then .flushing false else .receiving
          pos := if rest = [] then t.endLsn else r.pos
          sending := if rest = [] then none else some (t, rest) }

def report (r : Run F) (lsn : ℕ) : Run F :=
  { r with flushLsn := lsn, reported := r.reported ++ [lsn] }

end Run

namespace Sys

variable [DecidableEq ι] (config : Config) (fx : Effects T F)

def init (server : Server ι T F) : Sys ι T F := ⟨server, fun _ => .down, none⟩

def setDaemon (s : Sys ι T F) (d : ι) (p : Process F) : Sys ι T F :=
  { s with daemons := Function.update s.daemons d p }

def setSlot (s : Sys ι T F) (slot : Slot ι) : Sys ι T F :=
  { s with server := { s.server with slot := some slot } }

def withRun (s : Sys ι T F) (d : ι) (f : Run F → Option (Server ι T F × Process F)) :
    Option (Sys ι T F) :=
  match s.daemons d with
  | .streaming r => (f r).map fun p => { s.setDaemon d p.2 with server := p.1 }
  | _ => none

def adminAfter {σ : Type} (f : σ → Admin F) : Bootstrap.Status σ → Option (Admin F)
  | .running stage => some (f stage)
  | _ => none

def step (s : Sys ι T F) : Action ι F → Option (Sys ι T F)
  | .commitTxn t =>
    if s.server.wal < t.endLsn then
      some { s with server := { s.server with
        history := s.server.history ++ [t], wal := t.endLsn } }
    else none
  | .feedback => do
    let slot ← s.server.slot
    let w ← slot.walsender
    -- reports are handled in the order they were sent
    match w.feedback with
    | [] => none
    | lsn :: rest =>
      some (s.setSlot ({ slot with walsender := some { w with feedback := rest } }.confirm lsn))
  | .release => do
    let slot ← s.server.slot
    let _ ← slot.walsender
    some (s.setSlot { slot with walsender := none })
  | .start d =>
    match s.daemons d with
    | .down => some (s.setDaemon d .connected)
    | _ => none
  | .readCheckpoint d =>
    match s.daemons d, s.server.row with
    | .connected, some checkpoint => some (s.setDaemon d (.ready checkpoint))
    -- `run` raises when there is no row
    | .connected, none => some (s.setDaemon d .down)
    | _, _ => none
  | .openStream d pid =>
    match s.daemons d with
    | .ready checkpoint =>
      match s.server.slot with
      | some ⟨confirmed, _, none⟩ =>
        some ((s.setSlot ⟨confirmed, some d, some ⟨pid, d, []⟩⟩).setDaemon d
          (.streaming (.start checkpoint confirmed)))
      -- START_REPLICATION fails: no slot, or one in use
      | _ => some (s.setDaemon d .down)
    | _ => none
  | .serve d payloads => s.withRun d fun r =>
    match s.server.slot.bind Slot.walsender, r.sending with
    | some w, none =>
      match s.server.history.find? fun t => r.pos < t.endLsn with
      | some t =>
        -- the server sends whole transactions, the first one behind the position
        if w.owner = d ∧ rendersTxn config t r.loop.assembly payloads then
          some (s.server, .streaming { r with sending := some (t, payloads) })
        else none
      | none => none
    | _, _ => none
  | .receive d now later => s.withRun d fun r =>
    match r.sending with
    | some (t, payload :: rest) =>
      if r.phase = .receiving ∧ r.stop = false then
        -- an exception in the loop ends the daemon
        some (s.server, (r.receive config t payload rest now later).elim .down .streaming)
      else none
    | _ => none
  | .wake d => s.withRun d fun r =>
    if r.phase = .receiving ∧ r.stop = false then
      some (s.server, .streaming (if r.loop.pending = [] then r
        else { r with phase := .flushing false }))
    else none
  | .keepalive d => s.withRun d fun r =>
    if r.phase = .receiving then
      some ({ s.server with slot := s.server.slot.map (·.report d r.flushLsn) },
        .streaming (r.report r.flushLsn))
    else none
  | .requestStop d => s.withRun d fun r => some (s.server, .streaming { r with stop := true })
  | .leaveLoop d => s.withRun d fun r =>
    if r.phase = .receiving ∧ r.stop = true then
      some (s.server,
        if r.loop.pending = [] then .down else .streaming { r with phase := .flushing true })
    else none
  | .flush d => s.withRun d fun r =>
    match r.phase with
    | .flushing last =>
      match s.server.flush fx r.loop.pending with
      -- the transaction is rolled back
      | .error _ => some (s.server, .down)
      | .ok (server, endLsn) => some (server, .streaming { r with phase := .committed endLsn last })
    | _ => none
  | .ack d => s.withRun d fun r =>
    match r.phase with
    | .committed endLsn last =>
      some ({ s.server with slot := s.server.slot.map (·.report d endLsn) },
        .streaming { r.report endLsn with phase := .acked endLsn last })
    | _ => none
  | .remember d => s.withRun d fun r =>
    match r.phase with
    | .acked endLsn last =>
      some (s.server, if last then .down
        else .streaming { r with loop := r.loop.flushed endLsn, phase := .receiving })
    | _ => none
  | .crash d => some (s.setDaemon d .down)
  | .startSetup force =>
    if s.admin.isNone then some { s with admin := some (.setup force .version) } else none
  | .setupStep reply =>
    match s.admin with
    | some (.setup force stage) =>
      -- positions do not go back, and the text of the reply denotes the slot's position
      if s.server.wal ≤ reply.lsn ∧
          (∀ text ∈ reply.consistentPoint, parseLsn text = .ok (reply.lsn : ℤ)) then
        let (server, status) := Bootstrap.setupStep config fx force reply s.server stage
        some { s with server := server, admin := adminAfter (.setup force) status }
      else none
    | _ => none
  | .startTeardown =>
    if s.admin.isNone then some { s with admin := some (.teardown .inspectSlot) } else none
  | .teardownStep fault =>
    match s.admin with
    | some (.teardown stage) =>
      let (server, status) := Bootstrap.teardownStep config fx fault s.server stage
      some { s with server := server, admin := adminAfter .teardown status }
    | _ => none
  | .crashAdmin => some { s with admin := none }

inductive Steps (P : Sys ι T F → Action ι F → Prop) : Sys ι T F → Sys ι T F → Prop
  | refl (s : Sys ι T F) : Steps P s s
  | tail {s t u : Sys ι T F} {a : Action ι F} :
      Steps P s t → P t a → step config fx t a = some u → Steps P s u

end Sys

end WalFlux
