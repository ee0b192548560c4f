import WalFlux.Daemon.Transactions
import WalFlux.Protocol.RoundTrip

/-! The control flow of the daemon's loop: when it flushes, what its variables hold between two
iterations, and how the checkpoint moves. -/

namespace WalFlux.Daemon

open Aggregates Protocol Sql

/-! ### The program -/

/-- What the stream comes up with: nothing within the wake window, a payload with the times at which
it is handled and at which the deadline is checked, or an exception. -/
inductive Arrival
  | wake
  | payload (bytes : List UInt8) (now later : ℚ)
  | failed (e : Error)

structure Turn where
  stop : Bool
  arrival : Arrival

/-- Where the control stands: in front of the next item, of the flush condition, of a call of
`_flush` (the `last` one after the loop), or behind the loop. -/
inductive Point
  | next
  | condition (now : ℚ)
  | flush (last : Bool)
  | left
  | returned
  | raised (e : Error)

/-- What `_flush` calls outside of the program: the target transaction, which carries the checkpoint
along, and the report to the server. -/
structure Sink (W F : Type) where
  transact : List (Dml F) → ℕ → W → Except Error W
  ack : ℕ → W → Except Error W

structure Control (W F : Type) where
  point : Point
  stream : List Turn
  loop : Loop F
  world : W

variable {W F : Type} [PyFloat F]

/-- `_flush`, with the new checkpoint. The target transaction stays committed when the
ack raises. -/
def callFlush (config : Config) (sink : Sink W F) (pending : List (SealedTxn F)) (w : W) :
    Except (Error × W) (ℕ × W) := do
  let batch ← (foldOps config.views (pending.flatMap SealedTxn.ops)).mapError (·, w)
  match pending.getLast? with
  | none => .error (.index, w)
  | some t =>
    let committed ← (sink.transact batch.statements t.endLsn w).mapError (·, w)
    return (t.endLsn, ← (sink.ack t.endLsn committed).mapError (·, committed))

namespace Control

variable (config : Config) (sink : Sink W F)

def init (checkpoint : ℕ) (stream : List Turn) (w : W) : Control W F :=
  ⟨.next, stream, .init checkpoint, w⟩

def raise (s : Control W F) (e : Error) : Control W F := { s with point := .raised e }

/-- An iteration up to the flush condition; the loop ends with the stream or at a stop. An exception
of the stream comes before the look at the flag. -/
def take (s : Control W F) : Control W F :=
  match s.stream with
  | [] => { s with point := .left }
  | turn :: stream =>
    match turn.arrival, turn.stop with
    | .failed e, _ => s.raise e
    | .wake, true | .payload _ _ _, true => { s with point := .left, stream := stream }
    | .wake, false =>
      { s with point := if s.loop.pending = [] then .next else .flush false, stream := stream }
    | .payload bytes now later, false =>
      match (do s.loop.handle config (← decodeMessage bytes) now : Except Error (Loop F)) with
      | .error e => s.raise e
      | .ok loop => { s with point := .condition later, stream := stream, loop := loop }

def check (s : Control W F) (now : ℚ) : Control W F :=
  match s.loop.due config now with
  | .error e => s.raise e
  | .ok due => { s with point := if due then .flush false else .next }

def flush (s : Control W F) (last : Bool) : Control W F :=
  match callFlush config sink s.loop.pending s.world with
  | .error (e, w) => { s with point := .raised e, world := w }
  | .ok (endLsn, w) =>
    if last then
      { s with point := .returned, loop := { s.loop with checkpointLsn := endLsn }, world := w }
    else { s with point := .next, loop := s.loop.flushed endLsn, world := w }

def leave (s : Control W F) : Control W F :=
  { s with point := if s.loop.pending = [] then .returned else .flush true }

def step (s : Control W F) : Option (Control W F) :=
  match s.point with
  | .next => some (s.take config)
  | .condition now => some (s.check config now)
  | .flush last => some (s.flush config sink last)
  | .left => some s.leave
  | .returned => none
  | .raised _ => none

def Reaches : Control W F → Control W F → Prop :=
  Relation.ReflTransGen fun s s' => s.step config sink = some s'

end Control

/-! ### The invariant -/

def Turn.commitLsn? (turn : Turn) : Option ℕ :=
  match turn.arrival with
  | .payload bytes _ _ =>
    match decodeMessage bytes with
    | .ok (.commit c) => some c.endLsn
    | _ => none
  | _ => none

def commitLsns (stream : List Turn) : List ℕ := stream.filterMap Turn.commitLsn?

def CommitOrder (stream : List Turn) : Prop := (commitLsns stream).Pairwise (· < ·)

structure Batched (stream : List Turn) (l : Loop F) : Prop where
  oldest : l.oldest.isSome ↔ l.pending ≠ []
  ordered : (l.pending.map SealedTxn.endLsn ++ commitLsns stream).Pairwise (· < ·)
  above : ∀ t ∈ l.pending, l.checkpointLsn < t.endLsn

omit [PyFloat F] in
theorem batched_init {checkpoint : ℕ} {stream : List Turn} (h : CommitOrder stream) :
    Batched stream (.init checkpoint : Loop F) :=
  ⟨by simp [Loop.init], h, fun t ht => (by cases ht)⟩

omit [PyFloat F] in
theorem Batched.tail {turn : Turn} {stream : List Turn} {l : Loop F}
    (h : Batched (turn :: stream) l) : Batched stream l := by
  refine ⟨h.oldest, h.ordered.sublist ?_, h.above⟩
  exact List.Sublist.append_left ((List.sublist_cons_self turn stream).filterMap _) _

omit [PyFloat F] in
theorem commitLsns_cons {stop : Bool} {bytes : List UInt8} {now later : ℚ} {stream : List Turn}
    {c : Commit} (h : decodeMessage bytes = .ok (.commit c)) :
    commitLsns (⟨stop, .payload bytes now later⟩ :: stream) = c.endLsn :: commitLsns stream := by
  rw [commitLsns, List.filterMap_cons, Turn.commitLsn?]
  dsimp only
  rw [h]
  rfl

theorem Batched.handle {config : Config} {stop : Bool} {bytes : List UInt8} {now later : ℚ}
    {stream : List Turn} {l l' : Loop F} {m : Message}
    (h : Batched (⟨stop, .payload bytes now later⟩ :: stream) l) (hm : decodeMessage bytes = .ok m)
    (hl : l.handle config m now = .ok l') : Batched stream l' := by
  obtain ⟨a, -, ⟨c, rfl, hlsn, rfl⟩ | ⟨-, rfl⟩⟩ := Loop.handle_cases hl
  · refine ⟨by simp, ?_, List.forall_mem_append.mpr ⟨h.above, List.forall_mem_singleton.mpr hlsn⟩⟩
    have hordered := h.ordered
    rw [commitLsns_cons hm] at hordered
    rwa [List.map_append, List.append_assoc]
  · exact ⟨h.tail.oldest, h.tail.ordered, h.tail.above⟩

omit [PyFloat F] in
theorem Batched.flushed {stream : List Turn} {l : Loop F} (h : Batched stream l) (endLsn : ℕ) :
    Batched stream (l.flushed endLsn) := by
  refine ⟨by simp [Loop.flushed], ?_, fun t ht => (by cases ht)⟩
  exact h.ordered.sublist (List.sublist_append_right _ _)

omit [PyFloat F] in
theorem Batched.due {stream : List Turn} {l : Loop F} (h : Batched stream l) (config : Config)
    (now : ℚ) : ∃ due, l.due config now = .ok due ∧
      (due = true → l.pending ≠ []) ∧
      (due = false → l.pending = [] ∨ l.pending.length < config.batchMaxTxns) := by
  unfold Loop.due
  split_ifs with hnil hlen
  · exact ⟨false, rfl, fun hdue => (by cases hdue), fun _ => .inl hnil⟩
  · exact ⟨true, rfl, fun _ => hnil, fun hdue => (by cases hdue)⟩
  · obtain ⟨oldest, hold⟩ := Option.isSome_iff_exists.mp (h.oldest.mpr hnil)
    rw [hold]
    exact ⟨_, rfl, fun _ => hnil, fun _ => .inr (not_le.mp hlen)⟩

omit [PyFloat F] in
theorem Batched.isGreatest {stream : List Turn} {l : Loop F} (h : Batched stream l)
    {t : SealedTxn F} (ht : l.pending.getLast? = some t) :
    IsGreatest {lsn | ∃ u ∈ l.pending, u.endLsn = lsn} t.endLsn := by
  obtain ⟨front, hfront⟩ := List.getLast?_eq_some_iff.mp ht
  refine ⟨⟨t, List.mem_of_getLast? ht, rfl⟩, ?_⟩
  rintro _ ⟨u, hu, rfl⟩
  have hordered := (List.pairwise_append.mp h.ordered).1
  rw [hfront, List.map_append, List.pairwise_append] at hordered
  rw [hfront] at hu
  rcases List.mem_append.mp hu with hu | hu
  · exact (hordered.2.2 _ (List.mem_map_of_mem hu) _ (List.mem_singleton_self _)).le
  · exact (congrArg SealedTxn.endLsn (List.mem_singleton.mp hu)).le

def Control.Inv (config : Config) (s : Control W F) : Prop :=
  match s.point with
  | .next => Batched s.stream s.loop ∧ s.loop.pending.length < config.batchMaxTxns
  | .condition _ => Batched s.stream s.loop
  | .flush _ => Batched s.stream s.loop ∧ s.loop.pending ≠ []
  | .left => Batched s.stream s.loop
  | .returned => True
  | .raised _ => True

/-! ### One step -/

theorem callFlush_ok {config : Config} {sink : Sink W F} {pending : List (SealedTxn F)} {w w' : W}
    {endLsn : ℕ} (h : callFlush config sink pending w = .ok (endLsn, w')) :
    ∃ t, pending.getLast? = some t ∧ t.endLsn = endLsn := by
  obtain ⟨batch, -, h⟩ := Except.bind_eq_ok.mp h
  cases hlast : pending.getLast? with
  | none =>
    rw [hlast] at h
    cases h
  | some t =>
    rw [hlast] at h
    obtain ⟨_, -, h⟩ := Except.bind_eq_ok.mp h
    obtain ⟨_, -, h⟩ := Except.bind_eq_ok.mp h
    cases Except.pure_eq_ok.mp h
    exact ⟨t, rfl, rfl⟩

theorem callFlush_error {config : Config} {sink : Sink W F}
    {pending : List (SealedTxn F)} {w w' : W} {e : Error}
    (h : callFlush config sink pending w = .error (e, w')) :
    w' = w ∨ ∃ statements endLsn, sink.transact statements endLsn w = .ok w' := by
  rw [callFlush] at h
  cases hfold : foldOps config.views (pending.flatMap SealedTxn.ops) with
  | error e =>
    rw [hfold] at h
    cases h
    exact .inl rfl
  | ok batch =>
    rw [hfold] at h
    cases hlast : pending.getLast? with
    | none =>
      rw [hlast] at h
      cases h
      exact .inl rfl
    | some t =>
      rw [hlast] at h
      cases htransact : sink.transact batch.statements t.endLsn w with
      | error e =>
        simp [htransact, Except.mapError, bind, Except.bind] at h
        exact .inl h.2.symm
      | ok committed =>
        -- the only error left is that of the ack
        cases hack : sink.ack t.endLsn committed with
        | error e =>
          simp [htransact, hack, Except.mapError, bind, Except.bind] at h
          exact .inr ⟨_, _, h.2 ▸ htransact⟩
        | ok w'' => simp [htransact, hack, Except.mapError, bind, Except.bind, pure,
          Except.pure] at h

namespace Control

variable {config : Config} {sink : Sink W F} {s s' : Control W F}

def FlushRaises (sink : Sink W F) (s s' : Control W F) : Prop :=
  ∃ e w, (w = s.world ∨ ∃ statements endLsn, sink.transact statements endLsn s.world = .ok w) ∧
    s' = { s with point := .raised e, world := w }

theorem take_inv (hbatch : Batched s.stream s.loop)
    (hroom : s.loop.pending.length < config.batchMaxTxns) :
    (s.take config).Inv config ∧ (s.take config).loop.checkpointLsn = s.loop.checkpointLsn := by
  rcases s with ⟨point, _ | ⟨⟨stop, arrival⟩, stream⟩, loop, w⟩
  · exact ⟨hbatch, rfl⟩
  · cases arrival with
    | failed e => exact ⟨trivial, rfl⟩
    | wake =>
      cases stop with
      | true => exact ⟨hbatch.tail, rfl⟩
      | false =>
        refine ⟨?_, rfl⟩
        unfold take
        dsimp only
        by_cases hnil : loop.pending = []
        · rw [if_pos hnil]
          exact ⟨hbatch.tail, hroom⟩
        · rw [if_neg hnil]
          exact ⟨hbatch.tail, hnil⟩
    | payload bytes now later =>
      cases stop with
      | true => exact ⟨hbatch.tail, rfl⟩
      | false =>
        unfold take
        dsimp only
        cases hhandle :
            (do loop.handle config (← decodeMessage bytes) now : Except Error (Loop F)) with
        | error e => exact ⟨trivial, rfl⟩
        | ok loop' =>
          obtain ⟨m, hm, hhandle⟩ := Except.bind_eq_ok.mp hhandle
          exact ⟨hbatch.handle hm hhandle, (Loop.handle_ok hhandle).2.1⟩

omit [PyFloat F] in
theorem check_inv (hmax : 0 < config.batchMaxTxns) (hbatch : Batched s.stream s.loop) (now : ℚ) :
    (s.check config now).Inv config ∧
      (s.check config now).loop.checkpointLsn = s.loop.checkpointLsn := by
  obtain ⟨due, hdue, hpending, hroom⟩ := hbatch.due config now
  unfold check
  rw [hdue]
  cases due with
  | true => exact ⟨⟨hbatch, hpending rfl⟩, rfl⟩
  | false =>
    refine ⟨⟨hbatch, ?_⟩, rfl⟩
    rcases hroom rfl with hnil | hlt
    · rwa [hnil]
    · exact hlt

theorem flush_cases (hbatch : Batched s.stream s.loop) {last : Bool}
    (h : s.flush config sink last = s') : FlushRaises sink s s' ∨
    ∃ endLsn w, s.loop.checkpointLsn < endLsn ∧
      IsGreatest {lsn | ∃ t ∈ s.loop.pending, t.endLsn = lsn} endLsn ∧
      s' = if last then
        { s with point := .returned, loop := { s.loop with checkpointLsn := endLsn }, world := w }
      else { s with point := .next, loop := s.loop.flushed endLsn, world := w } := by
  subst h
  unfold flush
  cases hflush : callFlush config sink s.loop.pending s.world with
  | error p => exact .inl ⟨p.1, p.2, callFlush_error hflush, rfl⟩
  | ok r =>
    obtain ⟨t, ht, hend⟩ := callFlush_ok hflush
    refine .inr ⟨r.1, r.2, ?_, ?_, rfl⟩
    · exact hend ▸ hbatch.above t (List.mem_of_getLast? ht)
    · exact hend ▸ hbatch.isGreatest ht

theorem flush_inv (hmax : 0 < config.batchMaxTxns) (hbatch : Batched s.stream s.loop) {last : Bool}
    (h : s.flush config sink last = s') :
    s'.Inv config ∧ s.loop.checkpointLsn ≤ s'.loop.checkpointLsn := by
  obtain ⟨e, w, -, rfl⟩ | ⟨endLsn, w, hlt, -, rfl⟩ := flush_cases hbatch h
  · exact ⟨trivial, le_rfl⟩
  · cases last with
    | true => exact ⟨trivial, hlt.le⟩
    | false => exact ⟨⟨hbatch.flushed endLsn, hmax⟩, hlt.le⟩

omit [PyFloat F] in
theorem leave_inv (hbatch : Batched s.stream s.loop) : s.leave.Inv config := by
  unfold leave Inv
  by_cases hnil : s.loop.pending = []
  · rw [if_pos hnil]
    trivial
  · rw [if_neg hnil]
    exact ⟨hbatch, hnil⟩

theorem step_inv (hmax : 0 < config.batchMaxTxns) (h : s.Inv config)
    (hstep : s.step config sink = some s') :
    s'.Inv config ∧ s.loop.checkpointLsn ≤ s'.loop.checkpointLsn := by
  unfold Inv at h
  unfold step at hstep
  cases hpoint : s.point with
  | next =>
    rw [hpoint] at h hstep
    cases hstep
    obtain ⟨hinv, hsame⟩ := take_inv h.1 h.2
    exact ⟨hinv, hsame.ge⟩
  | condition now =>
    rw [hpoint] at h hstep
    cases hstep
    obtain ⟨hinv, hsame⟩ := check_inv hmax h now
    exact ⟨hinv, hsame.ge⟩
  | flush last =>
    rw [hpoint] at h hstep
    cases hstep
    exact flush_inv hmax h.1 rfl
  | left =>
    rw [hpoint] at h hstep
    cases hstep
    exact ⟨leave_inv h, le_rfl⟩
  | returned =>
    rw [hpoint] at hstep
    cases hstep
  | raised e =>
    rw [hpoint] at hstep
    cases hstep

/-! ### Whole runs -/

theorem reaches_inv (hmax : 0 < config.batchMaxTxns) (h : s.Inv config)
    (hrun : Reaches config sink s s') :
    s'.Inv config ∧ s.loop.checkpointLsn ≤ s'.loop.checkpointLsn := by
  induction hrun with
  | refl => exact ⟨h, le_rfl⟩
  | tail _ hstep ih =>
    obtain ⟨hinv, hle⟩ := step_inv hmax ih.1 hstep
    exact ⟨hinv, ih.2.trans hle⟩

omit [PyFloat F] in
theorem init_inv (hmax : 0 < config.batchMaxTxns) {checkpoint : ℕ} {stream : List Turn}
    (horder : CommitOrder stream) (w : W) : (init checkpoint stream w : Control W F).Inv config :=
  ⟨batched_init horder, hmax⟩

/-- What `_loop` may rely on wherever a run of it stands. -/
structure FlushSafe (config : Config) (sink : Sink W F) (s : Control W F) : Prop where
  oldest : s.point = .next → (s.loop.oldest.isSome ↔ s.loop.pending ≠ [])
  room : s.point = .next → s.loop.pending.length < config.batchMaxTxns
  ordered : s.point = .next → (s.loop.pending.map SealedTxn.endLsn).Pairwise (· < ·)
  above : s.point = .next → ∀ t ∈ s.loop.pending, s.loop.checkpointLsn < t.endLsn
  due : ∀ now, s.point = .condition now → ∃ due, s.loop.due config now = .ok due
  nonempty : ∀ last, s.point = .flush last → s.loop.pending ≠ []
  flushed : ∀ last s', s.point = .flush last → s.step config sink = some s' →
    FlushRaises sink s s' ∨
      IsGreatest {lsn | ∃ t ∈ s.loop.pending, t.endLsn = lsn} s'.loop.checkpointLsn ∧
        if last then s'.point = .returned else s'.point = .next ∧ s'.loop.pending = []
  grows : ∀ s', Reaches config sink s s' → s.loop.checkpointLsn ≤ s'.loop.checkpointLsn

omit [PyFloat F] in
theorem Inv.next (h : s.Inv config) (hpoint : s.point = .next) :
    Batched s.stream s.loop ∧ s.loop.pending.length < config.batchMaxTxns := by
  rw [Inv, hpoint] at h
  exact h

omit [PyFloat F] in
theorem Inv.condition (h : s.Inv config) {now : ℚ} (hpoint : s.point = .condition now) :
    Batched s.stream s.loop := by
  rw [Inv, hpoint] at h
  exact h

omit [PyFloat F] in
theorem Inv.flush (h : s.Inv config) {last : Bool} (hpoint : s.point = .flush last) :
    Batched s.stream s.loop ∧ s.loop.pending ≠ [] := by
  rw [Inv, hpoint] at h
  exact h

/-- The invariant of the flush loop, at every point of every run. -/
theorem flush_loop (hmax : 0 < config.batchMaxTxns) {checkpoint : ℕ} {stream : List Turn} {w : W}
    (horder : CommitOrder stream) (hrun : Reaches config sink (init checkpoint stream w) s) :
    FlushSafe config sink s := by
  have hinv := (reaches_inv hmax (init_inv hmax horder w) hrun).1
  refine ⟨fun hpoint => (hinv.next hpoint).1.oldest, fun hpoint => (hinv.next hpoint).2,
    fun hpoint => ?_, fun hpoint => (hinv.next hpoint).1.above, fun now hpoint => ?_,
    fun last hpoint => (hinv.flush hpoint).2, fun last s' hpoint hstep => ?_,
    fun s' hrun' => (reaches_inv hmax hinv hrun').2⟩
  · exact (List.pairwise_append.mp (hinv.next hpoint).1.ordered).1
  · obtain ⟨due, hdue, -⟩ := (hinv.condition hpoint).due config now
    exact ⟨due, hdue⟩
  · rw [step, hpoint, Option.some_inj] at hstep
    obtain hraise | ⟨endLsn, w, -, hgreatest, rfl⟩ := flush_cases (hinv.flush hpoint).1 hstep
    · exact .inl hraise
    · right
      cases last with
      | true => exact ⟨hgreatest, rfl⟩
      | false => exact ⟨hgreatest, rfl, rfl⟩

def run (config : Config) (sink : Sink W F) : ℕ → Control W F → Control W F
  | 0, s => s
  | n + 1, s =>
    match s.step config sink with
    | none => s
    | some s' => run config sink n s'

theorem reaches_run (n : ℕ) (s : Control W F) : Reaches config sink s (s.run config sink n) := by
  induction n generalizing s with
  | zero => exact .refl
  | succ n ih =>
    unfold run
    cases hstep : s.step config sink with
    | none => exact .refl
    | some s' => exact .head hstep (ih s')

def recordCheckpoints : Sink (List ℕ) Empty :=
  ⟨fun _ endLsn w => .ok (w ++ [endLsn]), fun _ w => .ok w⟩

def sampleTurn (w : Wire) : Turn := ⟨false, .payload (encodeMessage w) 0 0⟩

def sampleStream : List Turn :=
  [sampleTurn (.begin 10 .epoch 1), sampleTurn (.commit 0 10 20 .epoch), ⟨false, .wake⟩,
    sampleTurn (.begin 20 .epoch 2), sampleTurn (.commit 0 20 30 .epoch)]

theorem flush_loop_wake : ∃ s : Control (List ℕ) Empty, s.world = [20] ∧ s.loop.checkpointLsn = 20 ∧
    s.loop.pending = [⟨30, []⟩] ∧ FlushSafe countsConfig recordCheckpoints s := by
  have hlsns : commitLsns sampleStream = [20, 30] := by decide +kernel
  have hrun : (((init 10 sampleStream []).run countsConfig recordCheckpoints 11).world,
      ((init 10 sampleStream []).run countsConfig recordCheckpoints 11).loop.checkpointLsn,
      ((init 10 sampleStream []).run countsConfig recordCheckpoints 11).loop.pending) =
        ([20], 20, [⟨30, []⟩]) := by
    decide +kernel
  obtain ⟨hworld, hrun⟩ := Prod.mk.inj hrun
  obtain ⟨hcheckpoint, hpending⟩ := Prod.mk.inj hrun
  refine ⟨_, hworld, hcheckpoint, hpending, flush_loop (by decide) ?_ (reaches_run 11 _)⟩
  rw [CommitOrder, hlsns]
  decide

end Control

/-! ### Runs and iterations -/

def Turn.item? (turn : Turn) : Option Item :=
  match turn.arrival with
  | .wake => some .wake
  | .payload bytes now later => (decodeMessage bytes).toOption.map fun m => .message m now later
  | .failed _ => none

theorem Turn.item?_payload {stop : Bool} {bytes : List UInt8} {now later : ℚ} {m : Message}
    (h : decodeMessage bytes = .ok m) :
    Turn.item? ⟨stop, .payload bytes now later⟩ = some (.message m now later) := by
  unfold Turn.item?
  dsimp only
  rw [h]
  rfl

def Iterated (config : Config) (checkpoint : ℕ) (stream rest : List Turn) (l : Loop F) : Prop :=
  ∃ taken items handed, stream = taken ++ rest ∧ taken.map Turn.item? = items.map some ∧
    loop config checkpoint items = .ok (l, handed)

theorem iterated_init (config : Config) (checkpoint : ℕ) (stream : List Turn) :
    Iterated config checkpoint stream stream (.init checkpoint : Loop F) :=
  ⟨[], [], [], rfl, rfl, rfl⟩

theorem Iterated.concat {config : Config} {checkpoint : ℕ} {stream rest : List Turn} {turn : Turn}
    {item : Item} {l l' : Loop F} (h : Iterated config checkpoint stream (turn :: rest) l)
    (hitem : turn.item? = some item)
    (hl : ∀ handed, ∃ handed', iterate config (l, handed) item = .ok (l', handed')) :
    Iterated config checkpoint stream rest l' := by
  obtain ⟨taken, items, handed, rfl, hitems, hrun⟩ := h
  obtain ⟨handed', hl'⟩ := hl handed
  refine ⟨taken ++ [turn], items ++ [item], handed', by simp, ?_, ?_⟩
  · rw [List.map_append, List.map_append, hitems]
    exact congrArg (items.map some ++ [·]) hitem
  · rw [loop, Except.foldlM_append_eq_ok]
    exact ⟨(l, handed), hrun, by rw [List.foldlM_cons, hl']; rfl⟩

namespace Control

/-- The iterations of a run, where the last of them is counted with what is still to be done. -/
def Tracks (config : Config) (checkpoint : ℕ) (stream : List Turn) (s : Control W F) : Prop :=
  match s.point with
  | .next => Iterated config checkpoint stream s.stream s.loop
  | .condition now => ∀ due, s.loop.due config now = .ok due →
      Iterated config checkpoint stream s.stream (if due then s.loop.flush.1 else s.loop)
  | .flush false => Iterated config checkpoint stream s.stream s.loop.flush.1
  | _ => True

variable {config : Config} {sink : Sink W F} {checkpoint : ℕ} {stream : List Turn}
  {s s' : Control W F}

theorem take_tracks (h : Iterated config checkpoint stream s.stream s.loop) :
    (s.take config).Tracks config checkpoint stream := by
  rcases s with ⟨point, _ | ⟨⟨stop, arrival⟩, rest⟩, l, w⟩
  · trivial
  · cases arrival with
    | failed e => trivial
    | wake =>
      cases stop with
      | true => trivial
      | false =>
        have hflush : Iterated config checkpoint stream rest l.flush.1 :=
          h.concat rfl fun handed => ⟨_, rfl⟩
        unfold take
        dsimp only
        by_cases hnil : l.pending = []
        · have hsame : l.flush.1 = l := by
            rw [Loop.flush, hnil]
            rfl
          rw [if_pos hnil]
          exact hsame ▸ hflush
        · rw [if_neg hnil]
          exact hflush
    | payload bytes now later =>
      cases stop with
      | true => trivial
      | false =>
        unfold take
        dsimp only
        cases hhandle :
            (do l.handle config (← decodeMessage bytes) now : Except Error (Loop F)) with
        | error e => trivial
        | ok l' =>
          obtain ⟨m, hm, hhandle⟩ := Except.bind_eq_ok.mp hhandle
          intro due hdue
          refine h.concat (Turn.item?_payload hm) fun handed => ?_
          rw [iterate, hhandle]
          change ∃ handed', (l'.due config later >>= _) = _
          rw [hdue]
          cases due with
          | true => exact ⟨_, rfl⟩
          | false => exact ⟨_, rfl⟩

omit [PyFloat F] in
theorem flush_eq {endLsn : ℕ} {l : Loop F} {t : SealedTxn F} (ht : l.pending.getLast? = some t)
    (hend : t.endLsn = endLsn) : l.flush.1 = l.flushed endLsn := by
  rw [Loop.flush, ht, ← hend]

theorem step_tracks (h : s.Tracks config checkpoint stream) (hstep : s.step config sink = some s') :
    s'.Tracks config checkpoint stream := by
  unfold Tracks at h
  unfold step at hstep
  cases hpoint : s.point with
  | next =>
    rw [hpoint] at h hstep
    cases hstep
    exact take_tracks h
  | condition now =>
    rw [hpoint] at h hstep
    cases hstep
    unfold check
    cases hdue : s.loop.due config now with
    | error e => trivial
    | ok due =>
      have hit := h due hdue
      cases due with
      | true => exact hit
      | false => exact hit
  | flush last =>
    rw [hpoint] at h hstep
    cases hstep
    unfold flush
    cases hflush : callFlush config sink s.loop.pending s.world with
    | error e => trivial
    | ok r =>
      obtain ⟨t, ht, hend⟩ := callFlush_ok hflush
      cases last with
      | true => trivial
      | false =>
        change Iterated config checkpoint stream s.stream (s.loop.flushed r.1)
        rw [← flush_eq ht hend]
        exact h
  | left =>
    rw [hpoint] at hstep
    cases hstep
    unfold leave Tracks
    by_cases hnil : s.loop.pending = []
    · rw [if_pos hnil]
      trivial
    · rw [if_neg hnil]
      trivial
  | returned =>
    rw [hpoint] at hstep
    cases hstep
  | raised e =>
    rw [hpoint] at hstep
    cases hstep

theorem reaches_next {w : W} (hrun : Reaches config sink (init checkpoint stream w) s)
    (hpoint : s.point = .next) : Iterated config checkpoint stream s.stream s.loop := by
  have htracks : s.Tracks config checkpoint stream := by
    clear hpoint
    induction hrun with
    | refl => exact iterated_init config checkpoint stream
    | tail _ hstep ih => exact step_tracks ih hstep
  rw [Tracks, hpoint] at htracks
  exact htracks

end Control

end WalFlux.Daemon
