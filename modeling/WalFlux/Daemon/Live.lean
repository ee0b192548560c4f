import WalFlux.Daemon.FlushLoop
import WalFlux.Library.Trace
import WalFlux.Replication

/-! The daemon's loop together with the stream it reads, on a clock: messages and signals come in at
any time, and the program moves between them. -/

namespace WalFlux.Daemon

open Aggregates Protocol Replication

/-! ### The program -/

/-- Where `_loop` stands: at its stream (in `messages()` or with an item from it), at the flush
condition, before a call of `_flush`, in that call behind the report, behind the loop. -/
inductive Stage
  | next
  | condition
  | flush (last : Bool)
  | acked (last : Bool)
  | left
  | returned
  | raised (e : Error)
  deriving DecidableEq

structure Live (W F : Type) where
  stage : Stage
  stream : ReplicationStream
  loop : Loop F
  world : W
  clock : ℚ
  since : ℚ

/-- What happens: time passes, the server sends, a signal is handled, the program takes a step, or
the driver raises in it. -/
inductive Event
  | elapse (d : ℚ)
  | arrive (msg : XLogData)
  | stop
  | run
  | fail (e : Error)

def wakeSeconds (config : Config) : ℚ := min 1 (config.batchMaxMs / 1000)

variable {W F : Type} [PyFloat F]

namespace Live

variable (config : Config) (sink : Sink W F)

def init (checkpoint : ℕ) (now : ℚ) (w : W) : Live W F :=
  ⟨.next, .init now, .init checkpoint, w, now, now⟩

def raise (s : Live W F) (e : Error) : Live W F := { s with stage := .raised e }

def resume (s : Live W F) : Live W F := { s with stage := .next, stream := s.stream.resume }

def take (s : Live W F) : Live W F :=
  match s.stream.point with
  | .yielded item =>
    -- `_loop` looks at the flag before the item
    if s.stream.stopping then { s with stage := .left }
    else
      match item with
      | none => if s.loop.pending = [] then s.resume else { s with stage := .flush false }
      | some msg =>
        match (do s.loop.handle config (← decodeMessage msg.payload) s.clock :
            Except Error (Loop F)) with
        | .error e => s.raise e
        | .ok loop => { s with stage := .condition, loop := loop }
  | .finished => { s with stage := .left }
  | _ => { s with stream := s.stream.step (wakeSeconds config) s.clock }

def check (s : Live W F) : Live W F :=
  match s.loop.due config s.clock with
  | .error e => s.raise e
  | .ok due => if due then { s with stage := .flush false } else s.resume

def flush (s : Live W F) (last : Bool) : Live W F :=
  match callFlush config sink s.loop.pending s.world with
  | .error (e, w) => { s with stage := .raised e, world := w }
  | .ok (endLsn, w) => { s with
      stage := .acked last
      stream := s.stream.ack s.clock endLsn
      loop := if last then { s.loop with checkpointLsn := endLsn } else s.loop.flushed endLsn
      world := w }

def stamp (s : Live W F) (last : Bool) : Live W F :=
  -- `_last_feedback` is set after the report went out
  let s := { s with stream := { s.stream with lastFeedback := s.clock } }
  if last then { s with stage := .returned } else s.resume

def leave (s : Live W F) : Live W F :=
  { s with stage := if s.loop.pending = [] then .returned else .flush true }

def run (s : Live W F) : Option (Live W F) :=
  match s.stage with
  | .next => some (s.take config)
  | .condition => some (s.check config)
  | .flush last => some (s.flush config sink last)
  | .acked last => some (s.stamp last)
  | .left => some s.leave
  | .returned => none
  | .raised _ => none

def step (s : Live W F) : Event → Option (Live W F)
  | .elapse d => if 0 ≤ d then some { s with clock := s.clock + d } else none
  | .arrive msg => some { s with stream := s.stream.arrive msg }
  | .stop => some { s with stream := s.stream.stop }
  | .run => (s.run config sink).map fun s' => { s' with since := s.clock }
  | .fail e =>
    match s.stage with
    | .next => if s.stream.calling then some (s.raise e) else none
    | _ => none

def held (s : Live W F) : List XLogData :=
  match s.stage with
  | .next => s.stream.held
  | _ => []

def unread (s : Live W F) : List (List UInt8) := (s.held ++ s.stream.incoming).map XLogData.payload

end Live

def arrivals (events : List Event) : List (List UInt8) :=
  events.filterMap fun
    | .arrive msg => some msg.payload
    | _ => none

def Live.Leads (config : Config) (sink : Sink W F) (s : Live W F) (events : List Event)
    (s' : Live W F) : Prop :=
  Trace.Leads (Live.step config sink) (fun _ => True) s events s'

inductive Live.Takes (config : Config) (s : Live W F) : Live W F → Prop
  | inside : (∀ item, s.stream.point ≠ .yielded item) → s.stream.point ≠ .finished →
      Takes config s { s with stream := s.stream.step (wakeSeconds config) s.clock }
  | exhausted : s.stream.point = .finished → Takes config s { s with stage := .left }
  | stopped (item : Option XLogData) : s.stream.point = .yielded item → s.stream.stopping = true →
      Takes config s { s with stage := .left }
  | idle : s.stream.point = .yielded none → s.stream.stopping = false → s.loop.pending = [] →
      Takes config s s.resume
  | overdue : s.stream.point = .yielded none → s.stream.stopping = false → s.loop.pending ≠ [] →
      Takes config s { s with stage := .flush false }
  | refused (msg : XLogData) (e : Error) : s.stream.point = .yielded (some msg) →
      s.stream.stopping = false →
      (do s.loop.handle config (← decodeMessage msg.payload) s.clock : Except Error (Loop F))
        = .error e →
      Takes config s (s.raise e)
  | handled (msg : XLogData) (loop : Loop F) : s.stream.point = .yielded (some msg) →
      s.stream.stopping = false →
      (do s.loop.handle config (← decodeMessage msg.payload) s.clock : Except Error (Loop F))
        = .ok loop →
      Takes config s { s with stage := .condition, loop := loop }

theorem Live.takes (config : Config) (s : Live W F) : Takes config s (s.take config) := by
  cases hpoint : s.stream.point with
  | yielded item =>
    unfold take
    rw [hpoint]
    dsimp only
    by_cases hstop : s.stream.stopping = true
    · rw [if_pos hstop]
      exact .stopped item hpoint hstop
    · rw [if_neg hstop]
      rw [Bool.not_eq_true] at hstop
      cases item with
      | none =>
        by_cases hnil : s.loop.pending = []
        · simp only [if_pos hnil]
          exact .idle hpoint hstop hnil
        · simp only [if_neg hnil]
          exact .overdue hpoint hstop hnil
      | some msg =>
        dsimp only
        cases hhandle : (do s.loop.handle config (← decodeMessage msg.payload) s.clock :
            Except Error (Loop F)) with
        | error e => exact .refused msg e hpoint hstop hhandle
        | ok loop => exact .handled msg loop hpoint hstop hhandle
  | finished =>
    unfold take
    rw [hpoint]
    exact .exhausted hpoint
  | _ =>
    have htake : s.take config =
        { s with stream := s.stream.step (wakeSeconds config) s.clock } := by
      unfold take
      rw [hpoint]
    rw [htake]
    exact .inside (fun item => by rw [hpoint]; exact fun h => by cases h)
      (by rw [hpoint]; exact fun h => by cases h)

/-! ### The control flow behind it -/

def Turn.payload? (turn : Turn) : Option (List UInt8) :=
  match turn.arrival with
  | .payload bytes _ _ => some bytes
  | _ => none

def payloads (turns : List Turn) : List (List UInt8) := turns.filterMap Turn.payload?

def Stage.point (later : ℚ) : Stage → Point
  | .next => .next
  | .condition => .condition later
  | .flush last => .flush last
  | .acked last => if last then .returned else .next
  | .left => .left
  | .returned => .returned
  | .raised e => .raised e

/-- The state is the one that the control comes to on the turns, whatever is to follow them; a check
that is ahead is the last of the turns. -/
def Shadows (config : Config) (sink : Sink W F) (checkpoint : ℕ) (w : W) (turns : ℚ → List Turn)
    (s : Live W F) : Prop :=
  ∀ later rest, ∃ stream,
    Control.Reaches config sink (.init checkpoint (turns later ++ rest) w)
      ⟨s.stage.point later, stream, s.loop, s.world⟩ ∧
    ((∀ e, s.stage ≠ .raised e) → stream = rest)

def Delivered (config : Config) (sink : Sink W F) (checkpoint : ℕ) (w : W)
    (sent : List (List UInt8)) (s : Live W F) : Prop :=
  ∃ turns, Shadows config sink checkpoint w turns s ∧
    ∀ later, payloads (turns later) ++ s.unread = sent

theorem payloads_append (as bs : List Turn) : payloads (as ++ bs) = payloads as ++ payloads bs :=
  List.filterMap_append

theorem arrivals_concat (events : List Event) (e : Event) :
    arrivals (events ++ [e]) = arrivals events ++ arrivals [e] :=
  List.filterMap_append

/-! ### One step -/

section

variable {config : Config} {sink : Sink W F} {checkpoint : ℕ} {w : W} {turns : ℚ → List Turn}
  {s s' : Live W F}

theorem Shadows.take (h : Shadows config sink checkpoint w turns s) (hstage : s.stage = .next)
    (turn : ℚ → Turn)
    (hs' : ∀ later rest, ∃ stream,
      (⟨.next, turn later :: rest, s.loop, s.world⟩ : Control W F).take config =
        ⟨s'.stage.point later, stream, s'.loop, s'.world⟩ ∧
      ((∀ e, s'.stage ≠ .raised e) → stream = rest)) :
    Shadows config sink checkpoint w (fun later => turns later ++ [turn later]) s' := by
  intro later rest
  obtain ⟨stream, hrun, hstream⟩ := h later (turn later :: rest)
  obtain ⟨stream', htake, hstream'⟩ := hs' later rest
  have hnext : stream = turn later :: rest := by
    apply hstream
    intro e he
    rw [hstage] at he
    cases he
  refine ⟨stream', ?_, hstream'⟩
  rw [List.append_assoc]
  refine hrun.tail ?_
  rw [hstage, hnext]
  exact congrArg some htake

theorem Shadows.step (h : Shadows config sink checkpoint w turns s)
    (hrunning : ∀ e, s.stage ≠ .raised e)
    (hs' : ∀ later rest,
      (⟨s.stage.point later, rest, s.loop, s.world⟩ : Control W F).step config sink =
        some ⟨s'.stage.point later, rest, s'.loop, s'.world⟩) :
    Shadows config sink checkpoint w turns s' := by
  intro later rest
  obtain ⟨stream, hrun, hstream⟩ := h later rest
  cases hstream hrunning
  exact ⟨rest, hrun.tail (hs' later rest), fun _ => rfl⟩

theorem Shadows.stutter (h : Shadows config sink checkpoint w turns s)
    (hrunning : ∀ e, s.stage ≠ .raised e) (hloop : s'.loop = s.loop) (hworld : s'.world = s.world)
    (hpoint : ∀ later, s'.stage.point later = s.stage.point later) :
    Shadows config sink checkpoint w turns s' := by
  intro later rest
  obtain ⟨stream, hrun, hstream⟩ := h later rest
  refine ⟨stream, ?_, fun _ => hstream hrunning⟩
  rw [hpoint, hloop, hworld]
  exact hrun

theorem payloads_concat (as : List Turn) (turn : Turn) :
    payloads (as ++ [turn]) = payloads as ++ turn.payload?.toList := by
  rw [payloads_append]
  cases hturn : turn.payload? <;> simp [payloads, hturn]

def turnOf (stop : Bool) (now later : ℚ) : Option XLogData → Turn
  | none => ⟨stop, .wake⟩
  | some msg => ⟨stop, .payload msg.payload now later⟩

theorem payload?_turnOf (stop : Bool) (now later : ℚ) (item : Option XLogData) :
    (turnOf stop now later item).payload?.toList = (item.map XLogData.payload).toList := by
  cases item <;> rfl

omit [PyFloat F] in
theorem Live.unread_next (hstage : s.stage = .next) :
    s.unread = s.stream.held.map XLogData.payload ++ s.stream.incoming.map XLogData.payload := by
  rw [unread, held, hstage, List.map_append]

theorem Shadows.takes (h : Shadows config sink checkpoint w turns s) (hstage : s.stage = .next)
    (htakes : s.Takes config s') :
    ∃ turns', Shadows config sink checkpoint w turns' s' ∧
      ∀ later, payloads (turns' later) ++ s'.unread = payloads (turns later) ++ s.unread := by
  have hheld : ∀ item, s.stream.point = .yielded item →
      s.stream.held.map XLogData.payload = (item.map XLogData.payload).toList := by
    intro item hpoint
    rw [ReplicationStream.held, hpoint]
    cases item <;> rfl
  have htaken : ∀ (stop : Bool) (now : ℚ) (item : Option XLogData),
      s.stream.held.map XLogData.payload = (item.map XLogData.payload).toList → ∀ later,
        payloads (turns later ++ [turnOf stop now later item]) ++
          s.stream.incoming.map XLogData.payload = payloads (turns later) ++ s.unread := by
    intro stop now item hitem later
    rw [payloads_concat, payload?_turnOf, s.unread_next hstage, hitem, List.append_assoc]
  cases htakes with
  | inside hyield hfinished =>
    refine ⟨turns, h.stutter ?_ rfl rfl fun _ => rfl, fun later => ?_⟩
    · rw [hstage]
      exact fun e he => by cases he
    · rw [Live.unread, Live.held, Live.unread, Live.held, hstage, ReplicationStream.step_unread]
  | exhausted hpoint =>
    refine ⟨_, h.take hstage _ fun later rest => ⟨rest, rfl, fun _ => rfl⟩, htaken true 0 none ?_⟩
    rw [ReplicationStream.held, hpoint]
    rfl
  -- the item is dropped with the daemon, and counts as read
  | stopped item hpoint hstop =>
    refine ⟨_, h.take hstage _ fun later rest => ⟨rest, ?_, fun _ => rfl⟩,
      htaken true 0 item (hheld item hpoint)⟩
    cases item <;> rfl
  | idle hpoint hstop hnil =>
    refine ⟨_, h.take hstage _ fun later rest => ⟨rest, ?_, fun _ => rfl⟩,
      htaken false 0 none (hheld none hpoint)⟩
    unfold Control.take
    dsimp only [turnOf]
    rw [if_pos hnil]
    rfl
  | overdue hpoint hstop hnil =>
    refine ⟨_, h.take hstage _ fun later rest => ⟨rest, ?_, fun _ => rfl⟩,
      htaken false 0 none (hheld none hpoint)⟩
    unfold Control.take
    dsimp only [turnOf]
    rw [if_neg hnil]
    rfl
  -- the control raises on the same turn, which is left in its stream
  | refused msg e hpoint hstop hhandle =>
    refine ⟨_, h.take hstage _ fun later rest => ⟨turnOf false s.clock later (some msg) :: rest, ?_,
      fun hrunning => absurd rfl (hrunning e)⟩, htaken false s.clock (some msg) (hheld _ hpoint)⟩
    unfold Control.take
    dsimp only [turnOf]
    rw [hhandle]
    rfl
  | handled msg loop hpoint hstop hhandle =>
    refine ⟨_, h.take hstage _ fun later rest => ⟨rest, ?_, fun _ => rfl⟩,
      htaken false s.clock (some msg) (hheld _ hpoint)⟩
    unfold Control.take
    dsimp only [turnOf]
    rw [hhandle]
    rfl

theorem Live.run_unread (hstage : s.stage ≠ .next) (hrun : s.run config sink = some s') :
    s'.unread = s.unread := by
  have hheld : s.held = [] := by
    unfold held
    cases hs : s.stage with
    | next => exact absurd hs hstage
    | _ => rfl
  have hsame : s'.held = [] ∧ s'.stream.incoming = s.stream.incoming := by
    unfold run at hrun
    cases hs : s.stage with
    | next => exact absurd hs hstage
    | condition =>
      rw [hs] at hrun
      cases hrun
      unfold check
      cases s.loop.due config s.clock with
      | error e => exact ⟨rfl, rfl⟩
      | ok due => cases due <;> exact ⟨rfl, rfl⟩
    | flush last =>
      rw [hs] at hrun
      cases hrun
      unfold flush
      cases callFlush config sink s.loop.pending s.world <;> exact ⟨rfl, rfl⟩
    | acked last =>
      rw [hs] at hrun
      cases hrun
      cases last <;> exact ⟨rfl, rfl⟩
    | left =>
      rw [hs] at hrun
      cases hrun
      unfold leave
      split_ifs <;> exact ⟨rfl, rfl⟩
    | returned =>
      rw [hs] at hrun
      cases hrun
    | raised e =>
      rw [hs] at hrun
      cases hrun
  rw [unread, unread, hheld, hsame.1, hsame.2]

theorem Shadows.run (h : Shadows config sink checkpoint w turns s) (hne : s.stage ≠ .next)
    (hrun : s.run config sink = some s') :
    ∃ at' : ℚ → ℚ, Shadows config sink checkpoint w (turns ∘ at') s' := by
  unfold Live.run at hrun
  cases hstage : s.stage with
  | next => exact absurd hstage hne
  | condition =>
    rw [hstage] at hrun
    cases hrun
    -- the check is made now
    refine ⟨fun _ => s.clock, fun later rest => ?_⟩
    obtain ⟨stream, hreach, hstream⟩ := h s.clock rest
    rw [hstage] at hreach hstream
    cases hstream fun e he => by cases he
    refine ⟨rest, hreach.tail (congrArg some ?_), fun _ => rfl⟩
    unfold Live.check Control.check
    dsimp only
    cases s.loop.due config s.clock with
    | error e => rfl
    | ok due => cases due <;> rfl
  | flush last =>
    rw [hstage] at hrun
    cases hrun
    refine ⟨id, h.step (by rw [hstage]; exact fun e he => by cases he) fun later rest => ?_⟩
    rw [hstage]
    apply congrArg some
    unfold Live.flush Control.flush
    dsimp only
    cases callFlush config sink s.loop.pending s.world with
    | error e => rfl
    | ok r => cases last <;> rfl
  | acked last =>
    rw [hstage] at hrun
    cases hrun
    refine ⟨id, h.stutter (by rw [hstage]; exact fun e he => by cases he) ?_ ?_ ?_⟩
    · cases last <;> rfl
    · cases last <;> rfl
    · rw [hstage]
      cases last <;> exact fun _ => rfl
  | left =>
    rw [hstage] at hrun
    cases hrun
    refine ⟨id, h.step (by rw [hstage]; exact fun e he => by cases he) fun later rest => ?_⟩
    rw [hstage]
    apply congrArg some
    unfold Live.leave Control.leave
    dsimp only
    split_ifs <;> rfl
  | returned =>
    rw [hstage] at hrun
    cases hrun
  | raised e =>
    rw [hstage] at hrun
    cases hrun

theorem Delivered.run {sent : List (List UInt8)} (h : Delivered config sink checkpoint w sent s)
    (hrun : s.run config sink = some s') : Delivered config sink checkpoint w sent s' := by
  obtain ⟨turns, h, hsent⟩ := h
  by_cases hstage : s.stage = .next
  · rw [Live.run, hstage] at hrun
    cases hrun
    obtain ⟨turns', h', hpayloads⟩ := h.takes hstage (s.takes config)
    exact ⟨turns', h', fun later => (hpayloads later).trans (hsent later)⟩
  · obtain ⟨at', h'⟩ := h.run hstage hrun
    exact ⟨_, h', fun later => Live.run_unread hstage hrun ▸ hsent (at' later)⟩

theorem Delivered.fail {sent : List (List UInt8)} (h : Delivered config sink checkpoint w sent s)
    (hstage : s.stage = .next) (hcalling : s.stream.calling = true) (e : Error) :
    Delivered config sink checkpoint w sent (s.raise e) := by
  obtain ⟨turns, h, hsent⟩ := h
  have hheld : s.stream.held = [] := by
    unfold ReplicationStream.calling at hcalling
    unfold ReplicationStream.held
    cases hpoint : s.stream.point with
    | took msg =>
      rw [hpoint] at hcalling
      cases hcalling
    | yielded item =>
      rw [hpoint] at hcalling
      cases hcalling
    | _ => rfl
  refine ⟨_, h.take hstage (fun _ => ⟨s.stream.stopping, .failed e⟩) fun later rest =>
    ⟨_, rfl, fun hrunning => absurd rfl (hrunning e)⟩, fun later => ?_⟩
  rw [← hsent later, payloads_concat, Live.unread_next hstage, hheld, List.append_assoc]
  rfl

theorem Delivered.step {events : List Event} {e : Event}
    (h : Delivered config sink checkpoint w (arrivals events) s)
    (hstep : s.step config sink e = some s') :
    Delivered config sink checkpoint w (arrivals (events ++ [e])) s' := by
  rw [arrivals_concat]
  cases e with
  | elapse d =>
    unfold Live.step at hstep
    dsimp only at hstep
    split_ifs at hstep
    cases hstep
    obtain ⟨turns, h, hsent⟩ := h
    exact ⟨turns, h, fun later => (hsent later).trans (List.append_nil _).symm⟩
  | arrive msg =>
    cases hstep
    obtain ⟨turns, h, hsent⟩ := h
    refine ⟨turns, h, fun later => ?_⟩
    have hunread : Live.unread { s with stream := s.stream.arrive msg } =
        s.unread ++ [msg.payload] := by
      rw [Live.unread, Live.unread, ReplicationStream.arrive, ← List.append_assoc, List.map_append]
      rfl
    rw [hunread, ← List.append_assoc, hsent]
    rfl
  | stop =>
    cases hstep
    obtain ⟨turns, h, hsent⟩ := h
    exact ⟨turns, h, fun later => (hsent later).trans (List.append_nil _).symm⟩
  | run =>
    obtain ⟨s₁, hrun, rfl⟩ := Option.map_eq_some_iff.mp hstep
    obtain ⟨turns, h, hsent⟩ := h.run hrun
    exact ⟨turns, h, fun later => (hsent later).trans (List.append_nil _).symm⟩
  | fail e =>
    unfold Live.step at hstep
    cases hstage : s.stage with
    | next =>
      rw [hstage] at hstep
      dsimp only at hstep
      split_ifs at hstep with hcalling
      cases hstep
      obtain ⟨turns, h, hsent⟩ := h.fail hstage hcalling e
      exact ⟨turns, h, fun later => (hsent later).trans (List.append_nil _).symm⟩
    | _ =>
      rw [hstage] at hstep
      cases hstep

/-! ### Whole runs -/

theorem leads_delivered {now : ℚ} {events : List Event}
    (h : Live.Leads config sink (.init checkpoint now w) events s) :
    Delivered config sink checkpoint w (arrivals events) s :=
  h.induction (P := fun events s => Delivered config sink checkpoint w (arrivals events) s) trivial
    ⟨fun _ => [], fun _ rest => ⟨rest, .refl, fun _ => rfl⟩, fun _ => rfl⟩
    fun _ _ _ _ _ hdelivered hstep _ => hdelivered.step hstep

/-- A run of the daemon is a run of its control on the payloads that it read. -/
theorem live_refines {now : ℚ} {events : List Event}
    (h : Live.Leads config sink (.init checkpoint now w) events s) :
    ∃ turns stream, payloads turns ++ s.unread = arrivals events ∧
      Control.Reaches config sink (.init checkpoint turns w)
        ⟨s.stage.point s.clock, stream, s.loop, s.world⟩ := by
  obtain ⟨turns, hshadows, hsent⟩ := leads_delivered h
  obtain ⟨stream, hreach, -⟩ := hshadows s.clock []
  rw [List.append_nil] at hreach
  exact ⟨turns s.clock, stream, hsent s.clock, hreach⟩

theorem messages_of_turns {turns : List Turn} {items : List Item}
    (h : turns.map Turn.item? = items.map some) :
    List.Forall₂ (fun bytes m => decodeMessage bytes = .ok m) (payloads turns)
    (messages items) := by
  rw [List.Forall₂.map_eq_iff] at h
  induction h with
  | nil => exact .nil
  | @cons turn item turns items hitem _ ih =>
    obtain ⟨stop, arrival⟩ := turn
    cases arrival with
    | wake =>
      cases hitem
      exact ih
    | payload bytes now later =>
      obtain ⟨m, hm, rfl⟩ := Option.map_eq_some_iff.mp hitem
      exact .cons (Except.toOption_eq_some.mp hm) ih
    | failed e => cases hitem

/-- Between two items the variables of the loop are what it makes of the payloads read so far, each
read once and in order. -/
theorem live_delivers {now : ℚ} {events : List Event}
    (h : Live.Leads config sink (.init checkpoint now w) events s) (hstage : s.stage = .next) :
    ∃ read items handed, read ++ s.unread = arrivals events ∧
      List.Forall₂ (fun bytes m => decodeMessage bytes = .ok m) read (messages items) ∧
      loop config checkpoint items = .ok (s.loop, handed) := by
  obtain ⟨turns, hshadows, hsent⟩ := leads_delivered h
  obtain ⟨stream, hreach, hstream⟩ := hshadows 0 []
  rw [hstage, List.append_nil] at hreach
  cases hstream (by rw [hstage]; exact fun e he => by cases he)
  obtain ⟨taken, items, handed, htaken, hitems, hloop⟩ := Control.reaches_next hreach rfl
  rw [List.append_nil] at htaken
  exact ⟨payloads (turns 0), items, handed, hsent 0, messages_of_turns (htaken ▸ hitems), hloop⟩

end

/-! ### An example -/

def sampleArrival (w : Wire) : Event := .arrive ⟨0, encodeMessage w⟩

def sampleEvents : List Event :=
  [sampleArrival (.begin 10 .epoch 1), sampleArrival (.commit 0 10 20 .epoch)] ++
    List.replicate 15 .run ++ [.elapse (1 / 5)] ++ List.replicate 3 .run

theorem live_refines_commit : ∃ s : Live (List ℕ) Empty, s.stage = .next ∧
    ∃ turns stream, payloads turns ++ s.unread = arrivals sampleEvents ∧
      Control.Reaches countsConfig Control.recordCheckpoints (.init 10 turns [])
        ⟨s.stage.point s.clock, stream, s.loop, s.world⟩ := by
  have hrun : (Trace.exec (Live.step countsConfig Control.recordCheckpoints) (fun _ => True)
      (.init 10 0 []) sampleEvents).map (fun s : Live (List ℕ) Empty => s.stage) = some .next := by
    decide +kernel
  obtain ⟨s, hexec, hstage⟩ := Option.map_eq_some_iff.mp hrun
  exact ⟨s, hstage, live_refines (Trace.leads_of_exec hexec)⟩

theorem live_delivers_commit : ∃ s : Live (List ℕ) Empty, s.loop.pending = [⟨20, []⟩] ∧
    ∃ read items handed, read ++ s.unread = arrivals sampleEvents ∧
      List.Forall₂ (fun bytes m => decodeMessage bytes = .ok m) read (messages items) ∧
      loop countsConfig 10 items = .ok (s.loop, handed) := by
  have hrun : (Trace.exec (Live.step countsConfig Control.recordCheckpoints) (fun _ => True)
      (.init 10 0 []) sampleEvents).map (fun s => (s.stage, s.loop.pending)) =
        some (.next, [⟨20, []⟩]) := by
    decide +kernel
  obtain ⟨s, hexec, hs⟩ := Option.map_eq_some_iff.mp hrun
  obtain ⟨hstage, hpending⟩ := Prod.mk.inj hs
  exact ⟨s, hpending, live_delivers (Trace.leads_of_exec hexec) hstage⟩

end WalFlux.Daemon
