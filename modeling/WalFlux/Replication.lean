import WalFlux.Common

/-! The replication stream: what `messages()` does between two readings of the clock or calls of the
driver, and what is reported to the server. -/

namespace WalFlux.Replication

structure XLogData where
  walEnd : ℕ
  payload : List UInt8
  deriving DecidableEq

def keepaliveSeconds : ℚ := 10

inductive Point
  /-- the first `last_yield = time.monotonic()` -/
  | enter
  /-- the `while` condition -/
  | test
  | readMessage
  /-- `last_yield = time.monotonic()`, then the `yield` of a message -/
  | took (msg : XLogData)
  /-- the condition of `_keepalive_if_due` -/
  | keepalive
  | sendFeedback
  /-- `_last_feedback = time.monotonic()` -/
  | stamp
  | remaining
  | select (timeout : ℚ)
  /-- the condition for a wake -/
  | expired
  /-- `last_yield = time.monotonic()`, then `yield None` -/
  | woke
  | yielded (item : Option XLogData)
  | finished
  deriving DecidableEq

/-- `incoming` is what the driver has for the next calls of `read_message`, `reports` what it has
sent: the times and the flush positions. -/
structure ReplicationStream where
  point : Point
  lastYield : ℚ
  flushLsn : ℕ
  lastFeedback : ℚ
  stopping : Bool
  incoming : List XLogData
  reports : List (ℚ × ℕ)

namespace ReplicationStream

def init (now : ℚ) : ReplicationStream := ⟨.enter, now, 0, now, false, [], []⟩

/-- A step of `messages()`, which rests at a `yield`. -/
def step (wakeSeconds now : ℚ) (s : ReplicationStream) : ReplicationStream :=
  match s.point with
  | .enter => { s with point := .test, lastYield := now }
  | .test => { s with point := if s.stopping then .finished else .readMessage }
  | .readMessage =>
    match s.incoming with
    | [] => { s with point := .keepalive }
    | msg :: incoming => { s with point := .took msg, incoming := incoming }
  | .took msg => { s with point := .yielded (some msg), lastYield := now }
  | .keepalive =>
    { s with
      point := if now - s.lastFeedback ≥ keepaliveSeconds then .sendFeedback else .remaining }
  | .sendFeedback => { s with point := .stamp, reports := s.reports ++ [(now, s.flushLsn)] }
  | .stamp => { s with point := .remaining, lastFeedback := now }
  | .remaining =>
    let remaining := wakeSeconds - (now - s.lastYield)
    { s with point := if remaining > 0 then .select remaining else .expired }
  | .select _ => { s with point := .expired }
  | .expired =>
    { s with
      point := if now - s.lastYield ≥ wakeSeconds ∧ s.stopping = false then .woke else .test }
  | .woke => { s with point := .yielded none, lastYield := now }
  | .yielded _ => s
  | .finished => s

def resume (s : ReplicationStream) : ReplicationStream := { s with point := .test }

def ack (s : ReplicationStream) (now : ℚ) (flushLsn : ℕ) : ReplicationStream :=
  { s with flushLsn := flushLsn, reports := s.reports ++ [(now, flushLsn)] }

def arrive (s : ReplicationStream) (msg : XLogData) : ReplicationStream :=
  { s with incoming := s.incoming ++ [msg] }

def stop (s : ReplicationStream) : ReplicationStream := { s with stopping := true }

def calling (s : ReplicationStream) : Bool :=
  match s.point with
  | .readMessage | .sendFeedback | .select _ => true
  | _ => false

def held (s : ReplicationStream) : List XLogData :=
  match s.point with
  | .took msg => [msg]
  | .yielded (some msg) => [msg]
  | _ => []

theorem step_unread (wakeSeconds now : ℚ) (s : ReplicationStream) :
    (s.step wakeSeconds now).held ++ (s.step wakeSeconds now).incoming = s.held ++ s.incoming := by
  rcases s with ⟨point, lastYield, flushLsn, lastFeedback, stopping, incoming, reports⟩
  cases point with
  | test =>
    unfold step held
    split_ifs <;> rfl
  | readMessage =>
    cases incoming with
    | nil => rfl
    | cons msg incoming => rfl
  | keepalive =>
    unfold step held
    split_ifs <;> rfl
  | remaining =>
    unfold step held
    dsimp only
    split_ifs <;> rfl
  | expired =>
    unfold step held
    split_ifs <;> rfl
  | _ => rfl

/-! ### Pace -/

def Resting (s : ReplicationStream) : Prop :=
  match s.point with
  | .yielded _ | .finished => True
  | _ => False

theorem not_resting {s : ReplicationStream} (hyield : ∀ item, s.point ≠ .yielded item)
    (hfinished : s.point ≠ .finished) : ¬ s.Resting := by
  unfold Resting
  cases hpoint : s.point with
  | yielded item => exact absurd hpoint (hyield item)
  | finished => exact absurd hpoint hfinished
  | _ => exact id

structure Paced (wakeSeconds since : ℚ) (s : ReplicationStream) : Prop where
  lastYield : s.lastYield ≤ since
  lastFeedback : s.lastFeedback ≤ since
  sent : ∀ report ∈ s.reports, report.1 ≤ since
  stamped : s.point ≠ .stamp → ∀ report ∈ s.reports, report.1 ≤ s.lastFeedback
  select : ∀ timeout, s.point = .select timeout →
    0 < timeout ∧ since + timeout = s.lastYield + wakeSeconds
  woke : s.point = .woke → s.lastYield + wakeSeconds ≤ since
  sendFeedback : s.point = .sendFeedback → s.lastFeedback + keepaliveSeconds ≤ since

variable {wakeSeconds since now : ℚ} {s : ReplicationStream}

def timed (s : ReplicationStream) : Bool :=
  match s.point with
  | .select _ | .woke | .sendFeedback => true
  | _ => false

theorem Resting.untimed (h : s.Resting) : s.timed = false := by
  unfold Resting at h
  unfold timed
  cases hpoint : s.point with
  | select timeout =>
    rw [hpoint] at h
    exact h.elim
  | woke =>
    rw [hpoint] at h
    exact h.elim
  | sendFeedback =>
    rw [hpoint] at h
    exact h.elim
  | _ => rfl

theorem Paced.plain (hyield : s.lastYield ≤ now) (hfeedback : s.lastFeedback ≤ now)
    (hsent : ∀ report ∈ s.reports, report.1 ≤ now)
    (hstamped : s.point ≠ .stamp → ∀ report ∈ s.reports, report.1 ≤ s.lastFeedback)
    (huntimed : s.timed = false) : s.Paced wakeSeconds now := by
  unfold timed at huntimed
  refine ⟨hyield, hfeedback, hsent, hstamped, fun timeout hp => ?_, fun hp => ?_, fun hp => ?_⟩
  · rw [hp] at huntimed
    cases huntimed
  · rw [hp] at huntimed
    cases huntimed
  · rw [hp] at huntimed
    cases huntimed

theorem Paced.rest (h : s.Paced wakeSeconds since) (hrest : s.Resting) (hle : since ≤ now) :
    s.Paced wakeSeconds now :=
  .plain (h.lastYield.trans hle) (h.lastFeedback.trans hle) (fun r hr => (h.sent r hr).trans hle)
    h.stamped hrest.untimed

theorem Paced.step (h : s.Paced wakeSeconds since) (hle : since ≤ now) :
    (s.step wakeSeconds now).Paced wakeSeconds now := by
  have hyield := h.lastYield.trans hle
  have hfeedback := h.lastFeedback.trans hle
  have hsent : ∀ report ∈ s.reports, report.1 ≤ now := fun r hr => (h.sent r hr).trans hle
  unfold ReplicationStream.step
  have hstamped : s.point ≠ .stamp → ∀ report ∈ s.reports, report.1 ≤ s.lastFeedback := h.stamped
  cases hpoint : s.point with
  | stamp => exact .plain hyield le_rfl hsent (fun _ => hsent) rfl
  | sendFeedback =>
    -- sent now and not yet stamped: only here may a report be younger than the stamp
    refine .plain hyield hfeedback ?_ (fun hne => absurd rfl hne) rfl
    exact List.forall_mem_append.mpr ⟨hsent, List.forall_mem_singleton.mpr le_rfl⟩
  | keepalive =>
    dsimp only
    split_ifs with hdue
    · refine ⟨hyield, hfeedback, hsent, fun _ => hstamped (by simp [hpoint]), fun _ hp =>
        (by cases hp), fun hp => (by cases hp), fun _ => ?_⟩
      change s.lastFeedback + keepaliveSeconds ≤ now
      linarith
    · exact .plain hyield hfeedback hsent (fun _ => hstamped (by simp [hpoint])) rfl
  | remaining =>
    dsimp only
    split_ifs with hleft
    · refine ⟨hyield, hfeedback, hsent, fun _ => hstamped (by simp [hpoint]), fun timeout hp => ?_,
        fun hp => (by cases hp), fun hp => (by cases hp)⟩
      cases hp
      refine ⟨hleft, ?_⟩
      change now + (wakeSeconds - (now - s.lastYield)) = s.lastYield + wakeSeconds
      ring
    · exact .plain hyield hfeedback hsent (fun _ => hstamped (by simp [hpoint])) rfl
  | expired =>
    dsimp only
    split_ifs with hdue
    · refine ⟨hyield, hfeedback, hsent, fun _ => hstamped (by simp [hpoint]), fun _ hp =>
        (by cases hp), fun _ => ?_, fun hp => (by cases hp)⟩
      change s.lastYield + wakeSeconds ≤ now
      linarith [hdue.1]
    · exact .plain hyield hfeedback hsent (fun _ => hstamped (by simp [hpoint])) rfl
  | readMessage =>
    dsimp only
    cases hin : s.incoming with
    | nil => exact .plain hyield hfeedback hsent (fun _ => hstamped (by simp [hpoint])) rfl
    | cons msg incoming =>
      exact .plain hyield hfeedback hsent (fun _ => hstamped (by simp [hpoint])) rfl
  | test =>
    dsimp only
    split_ifs <;> exact .plain hyield hfeedback hsent (fun _ => hstamped (by simp [hpoint])) rfl
  | enter => exact .plain le_rfl hfeedback hsent (fun _ => hstamped (by simp [hpoint])) rfl
  | took msg => exact .plain le_rfl hfeedback hsent (fun _ => hstamped (by simp [hpoint])) rfl
  | woke => exact .plain le_rfl hfeedback hsent (fun _ => hstamped (by simp [hpoint])) rfl
  | select timeout => exact .plain hyield hfeedback hsent (fun _ => hstamped (by simp [hpoint])) rfl
  | yielded item => exact .plain hyield hfeedback hsent hstamped (by rw [timed, hpoint])
  | finished => exact .plain hyield hfeedback hsent hstamped (by rw [timed, hpoint])

theorem Paced.arrive (h : s.Paced wakeSeconds since) (msg : XLogData) :
    (s.arrive msg).Paced wakeSeconds since :=
  ⟨h.lastYield, h.lastFeedback, h.sent, h.stamped, h.select, h.woke, h.sendFeedback⟩

theorem Paced.stop (h : s.Paced wakeSeconds since) : s.stop.Paced wakeSeconds since :=
  ⟨h.lastYield, h.lastFeedback, h.sent, h.stamped, h.select, h.woke, h.sendFeedback⟩

theorem Paced.resume (h : s.Paced wakeSeconds since) (hrest : s.Resting) (hle : since ≤ now) :
    s.resume.Paced wakeSeconds now := by
  obtain ⟨hyield, hfeedback, hsent, -, -, -, -⟩ := h.rest hrest hle
  refine .plain hyield hfeedback hsent (fun _ => h.stamped ?_) rfl
  intro hpoint
  rw [Resting, hpoint] at hrest
  exact hrest

theorem Paced.ack (h : s.Paced wakeSeconds since) (hrest : s.Resting) (hle : since ≤ now)
    (flushLsn : ℕ) : { s.ack now flushLsn with lastFeedback := now }.Paced wakeSeconds now := by
  have hsent : ∀ report ∈ s.reports ++ [(now, flushLsn)], report.1 ≤ now :=
    List.forall_mem_append.mpr
      ⟨fun r hr => (h.sent r hr).trans hle, List.forall_mem_singleton.mpr le_rfl⟩
  refine .plain (h.lastYield.trans hle) le_rfl hsent (fun _ => hsent) ?_
  exact hrest.untimed

/-! ### Deadlines -/

def timeout (s : ReplicationStream) : ℚ :=
  match s.point with
  | .select timeout => timeout
  | _ => 0

def steps (s : ReplicationStream) : ℚ :=
  match s.point with
  | .enter => 0
  | .test => if s.stopping then 8 else 1
  | .readMessage => 2
  | .took _ => 3
  | .keepalive => 3
  | .sendFeedback => 4
  | .stamp => 5
  | .remaining => 6
  | .select _ => 7
  | .expired => 7
  | .woke => 8
  | .yielded _ => 9
  | .finished => 9

/-- The last yield from which a wake is still to be counted. -/
def anchor (δ since : ℚ) (s : ReplicationStream) : Option ℚ :=
  match s.point with
  | .enter => some (since + δ)
  | .took _ | .woke | .yielded _ | .finished => none
  | _ => some s.lastYield

/-- `messages()` comes up with an item by the time `due`, a few steps of `δ` aside. -/
structure Within (wakeSeconds δ due since : ℚ) (s : ReplicationStream) : Prop where
  anchor : ∀ last ∈ s.anchor δ since, last + wakeSeconds ≤ due
  pace : since ≤ due + s.steps * δ

theorem Within.step {δ due : ℚ} (hδ : 0 ≤ δ) (hwake : 0 ≤ wakeSeconds)
    (hpaced : s.Paced wakeSeconds since) (h : s.Within wakeSeconds δ due since)
    (hnow : now ≤ since + δ + s.timeout) (hrest : ¬ s.Resting) :
    (s.step wakeSeconds now).Within wakeSeconds δ due now := by
  have hpace := h.pace
  have hanchor := h.anchor
  unfold ReplicationStream.step
  unfold steps at hpace
  unfold ReplicationStream.anchor at hanchor
  unfold timeout at hnow
  unfold Resting at hrest
  cases hpoint : s.point with
  | enter =>
    rw [hpoint] at hpace hanchor hnow
    have hyield : now + wakeSeconds ≤ due := by linarith [hanchor _ rfl]
    refine ⟨fun last hl => ?_, ?_⟩
    · cases hl
      exact hyield
    · have hle : now ≤ due := (le_add_of_nonneg_right hwake).trans hyield
      change now ≤ due + (if s.stopping then 8 else 1) * δ
      split_ifs <;> linarith
  | test =>
    rw [hpoint] at hpace hanchor hnow
    dsimp only at hpace hnow ⊢
    split_ifs at hpace ⊢ with hstop
    · refine ⟨fun _ hl => (by cases hl), ?_⟩
      change now ≤ due + 9 * δ
      linarith
    · refine ⟨hanchor, ?_⟩
      change now ≤ due + 2 * δ
      linarith
  | readMessage =>
    rw [hpoint] at hpace hanchor hnow
    dsimp only at hpace hnow ⊢
    have hthree : now ≤ due + 3 * δ := by linarith
    cases s.incoming with
    | nil => exact ⟨hanchor, hthree⟩
    | cons msg incoming => exact ⟨fun _ hl => (by cases hl), hthree⟩
  | took msg =>
    rw [hpoint] at hpace hnow
    dsimp only at hpace hnow
    refine ⟨fun _ hl => (by cases hl), ?_⟩
    change now ≤ due + 9 * δ
    linarith
  | keepalive =>
    rw [hpoint] at hpace hanchor hnow
    dsimp only at hpace hnow ⊢
    split_ifs
    · refine ⟨hanchor, ?_⟩
      change now ≤ due + 4 * δ
      linarith
    · refine ⟨hanchor, ?_⟩
      change now ≤ due + 6 * δ
      linarith
  | sendFeedback =>
    rw [hpoint] at hpace hanchor hnow
    dsimp only at hpace hnow
    refine ⟨hanchor, ?_⟩
    change now ≤ due + 5 * δ
    linarith
  | stamp =>
    rw [hpoint] at hpace hanchor hnow
    dsimp only at hpace hnow
    refine ⟨hanchor, ?_⟩
    change now ≤ due + 6 * δ
    linarith
  | remaining =>
    rw [hpoint] at hpace hanchor hnow
    dsimp only at hpace hnow ⊢
    have hseven : now ≤ due + 7 * δ := by linarith
    split_ifs
    · exact ⟨hanchor, hseven⟩
    · exact ⟨hanchor, hseven⟩
  | select timeout =>
    rw [hpoint] at hpace hanchor hnow
    dsimp only at hnow
    -- the sleep ends with the wake interval
    have hend := (hpaced.select timeout hpoint).2
    have hlast := hanchor _ rfl
    refine ⟨hanchor, ?_⟩
    change now ≤ due + 7 * δ
    linarith
  | expired =>
    rw [hpoint] at hpace hanchor hnow
    dsimp only at hpace hnow ⊢
    have hlast := hanchor _ rfl
    split_ifs with hdue
    · refine ⟨fun _ hl => (by cases hl), ?_⟩
      change now ≤ due + 8 * δ
      linarith
    · refine ⟨hanchor, ?_⟩
      change now ≤ due + (if s.stopping then 8 else 1) * δ
      split_ifs with hstop
      · linarith
      · have hearly : now - s.lastYield < wakeSeconds := by
          by_contra hlate
          exact hdue ⟨not_lt.mp hlate, Bool.eq_false_iff.mpr hstop⟩
        linarith
  | woke =>
    rw [hpoint] at hpace hnow
    dsimp only at hpace hnow
    refine ⟨fun _ hl => (by cases hl), ?_⟩
    change now ≤ due + 9 * δ
    linarith
  | yielded item =>
    rw [hpoint] at hrest
    exact absurd trivial hrest
  | finished =>
    rw [hpoint] at hrest
    exact absurd trivial hrest

theorem Within.arrive {δ due : ℚ} (h : s.Within wakeSeconds δ due since) (msg : XLogData) :
    (s.arrive msg).Within wakeSeconds δ due since :=
  ⟨h.anchor, h.pace⟩

theorem steps_le_stop (s : ReplicationStream) : s.steps ≤ s.stop.steps := by
  unfold steps stop
  cases s.point with
  | test =>
    change (if s.stopping then (8 : ℚ) else 1) ≤ 8
    split_ifs <;> norm_num
  | _ => exact le_rfl

theorem Within.stop {δ due : ℚ} (hδ : 0 ≤ δ) (h : s.Within wakeSeconds δ due since) :
    s.stop.Within wakeSeconds δ due since :=
  ⟨h.anchor, h.pace.trans (by gcongr; exact s.steps_le_stop)⟩

theorem Within.resume {δ due : ℚ} (hδ : 0 ≤ δ) (hyield : s.lastYield + wakeSeconds ≤ due)
    (hnow : now ≤ due) : s.resume.Within wakeSeconds δ due now := by
  refine ⟨fun last hl => ?_, ?_⟩
  · cases hl
    exact hyield
  · change now ≤ due + (if s.stopping then 8 else 1) * δ
    split_ifs <;> linarith

theorem Paced.within {δ : ℚ} (hδ : 0 ≤ δ) (hwake : 0 ≤ wakeSeconds) (h : s.Paced wakeSeconds since)
    (hle : since ≤ now) : s.Within wakeSeconds δ (now + δ + wakeSeconds) since := by
  have hyield := h.lastYield
  have hsteps : 0 ≤ s.steps := by
    unfold steps
    cases s.point with
    | test =>
      dsimp only
      split_ifs <;> norm_num
    | _ => norm_num
  refine ⟨fun last hl => ?_, ?_⟩
  · unfold ReplicationStream.anchor at hl
    cases hpoint : s.point with
    | enter =>
      rw [hpoint] at hl
      cases hl
      linarith
    | took msg =>
      rw [hpoint] at hl
      cases hl
    | woke =>
      rw [hpoint] at hl
      cases hl
    | yielded item =>
      rw [hpoint] at hl
      cases hl
    | finished =>
      rw [hpoint] at hl
      cases hl
    | _ =>
      rw [hpoint] at hl
      cases hl
      linarith
  · have hsteps := mul_nonneg hsteps hδ
    linarith

theorem steps_le (s : ReplicationStream) : s.steps ≤ 9 := by
  unfold steps
  cases s.point with
  | test =>
    dsimp only
    split_ifs <;> norm_num
  | _ => norm_num

theorem Within.clock {δ due : ℚ} (hδ : 0 ≤ δ) (hpaced : s.Paced wakeSeconds since)
    (h : s.Within wakeSeconds δ due since) (hnow : now ≤ since + δ + s.timeout) :
    now ≤ due + 10 * δ := by
  cases hpoint : s.point with
  | select timeout =>
    have hanchor := h.anchor s.lastYield (by rw [ReplicationStream.anchor, hpoint]; rfl)
    have hend := (hpaced.select timeout hpoint).2
    rw [ReplicationStream.timeout, hpoint] at hnow
    dsimp only at hnow
    linarith
  | _ =>
    have hpace : since ≤ due + 9 * δ := h.pace.trans (by gcongr; exact s.steps_le)
    rw [ReplicationStream.timeout, hpoint] at hnow
    dsimp only at hnow
    linarith

/-! ### Keepalives -/

def heard (started : ℚ) (s : ReplicationStream) : ℚ :=
  (s.reports.getLast?.map Prod.fst).getD started

def quiet (s : ReplicationStream) : Bool :=
  match s.point with
  | .remaining | .select _ | .expired | .woke | .yielded none => true
  | _ => false

/-- The last report is recent: it was stamped at once, and looked at in every pass without a
message. -/
structure Heard (wakeSeconds δ started since : ℚ) (s : ReplicationStream) : Prop where
  stamp : s.point = .stamp → s.heard started = since
  stamped : s.point ≠ .stamp → s.lastFeedback ≤ s.heard started + δ
  quiet : s.quiet = true →
    s.Within wakeSeconds δ (s.lastFeedback + keepaliveSeconds + wakeSeconds) since

theorem heard_ack (s : ReplicationStream) (now started : ℚ) (flushLsn : ℕ) :
    (s.ack now flushLsn).heard started = now := by
  simp [heard, ack]

variable {δ started : ℚ}

theorem Heard.loud (hstamp : s.point ≠ .stamp) (hstamped : s.lastFeedback ≤ s.heard started + δ)
    (hloud : s.quiet = false) : s.Heard wakeSeconds δ started now :=
  ⟨fun h => absurd h hstamp, fun _ => hstamped, fun h => by rw [hloud] at h; cases h⟩

theorem step_frame (wakeSeconds now : ℚ) (hsend : s.point ≠ .sendFeedback)
    (hstamp : s.point ≠ .stamp) :
    (s.step wakeSeconds now).reports = s.reports ∧
      (s.step wakeSeconds now).lastFeedback = s.lastFeedback ∧
      (s.step wakeSeconds now).point ≠ .stamp := by
  unfold ReplicationStream.step
  cases hpoint : s.point with
  | sendFeedback => exact absurd hpoint hsend
  | stamp => exact absurd hpoint hstamp
  | test =>
    refine ⟨rfl, rfl, ?_⟩
    dsimp only
    split_ifs <;> simp
  | readMessage =>
    dsimp only
    cases s.incoming <;> exact ⟨rfl, rfl, by simp⟩
  | keepalive =>
    refine ⟨rfl, rfl, ?_⟩
    dsimp only
    split_ifs <;> simp
  | remaining =>
    refine ⟨rfl, rfl, ?_⟩
    dsimp only
    split_ifs <;> simp
  | expired =>
    refine ⟨rfl, rfl, ?_⟩
    dsimp only
    split_ifs <;> simp
  | yielded item => exact ⟨rfl, rfl, hstamp⟩
  | finished => exact ⟨rfl, rfl, hstamp⟩
  | _ => exact ⟨rfl, rfl, by simp⟩

theorem Within.looked (hδ : 0 ≤ δ) (hwake : 0 ≤ wakeSeconds) (hyield : s.lastYield ≤ now)
    (hrecent : now ≤ s.lastFeedback + keepaliveSeconds) (hpoint : s.point = .remaining) :
    s.Within wakeSeconds δ (s.lastFeedback + keepaliveSeconds + wakeSeconds) now := by
  refine ⟨fun last hl => ?_, ?_⟩
  · rw [ReplicationStream.anchor, hpoint] at hl
    cases hl
    gcongr
    exact hyield.trans hrecent
  · rw [steps, hpoint]
    dsimp only
    linarith

theorem quiet_of_step (hquiet : (s.step wakeSeconds now).quiet = true)
    (hlook : s.point ≠ .keepalive) (hstamp : s.point ≠ .stamp) : s.quiet = true := by
  unfold ReplicationStream.step quiet at hquiet
  unfold quiet
  cases hpoint : s.point with
  | keepalive => exact absurd hpoint hlook
  | stamp => exact absurd hpoint hstamp
  | test =>
    rw [hpoint] at hquiet
    dsimp only at hquiet
    split_ifs at hquiet
  | readMessage =>
    rw [hpoint] at hquiet
    dsimp only at hquiet
    cases hin : s.incoming <;> simp [hin] at hquiet
  | enter =>
    rw [hpoint] at hquiet
    cases hquiet
  | took msg =>
    rw [hpoint] at hquiet
    cases hquiet
  | sendFeedback =>
    rw [hpoint] at hquiet
    cases hquiet
  | finished =>
    rw [hpoint] at hquiet
    simp [hpoint] at hquiet
  | yielded item =>
    rw [hpoint] at hquiet
    simpa [hpoint] using hquiet
  | _ => rfl

theorem Heard.arrive (h : s.Heard wakeSeconds δ started since) (msg : XLogData) :
    (s.arrive msg).Heard wakeSeconds δ started since :=
  ⟨h.stamp, h.stamped, fun hquiet => (h.quiet hquiet).arrive msg⟩

theorem Heard.stop (hδ : 0 ≤ δ) (h : s.Heard wakeSeconds δ started since) :
    s.stop.Heard wakeSeconds δ started since :=
  ⟨h.stamp, h.stamped, fun hquiet => (h.quiet hquiet).stop hδ⟩

theorem Heard.step (hδ : 0 ≤ δ) (hwake : 0 ≤ wakeSeconds) (hpaced : s.Paced wakeSeconds since)
    (h : s.Heard wakeSeconds δ started since) (hle : since ≤ now)
    (hnow : now ≤ since + δ + s.timeout) (hrest : ¬ s.Resting) :
    (s.step wakeSeconds now).Heard wakeSeconds δ started now := by
  have hyield := hpaced.lastYield.trans hle
  by_cases hsend : s.point = .sendFeedback
  · unfold ReplicationStream.step
    rw [hsend]
    refine ⟨fun _ => ?_, fun hne => absurd rfl hne, fun hq => by cases hq⟩
    exact s.heard_ack now started s.flushLsn
  · by_cases hstamp : s.point = .stamp
    · have hheard := h.stamp hstamp
      rw [timeout, hstamp] at hnow
      unfold ReplicationStream.step
      rw [hstamp]
      refine ⟨fun hp => (by cases hp), fun _ => ?_, fun _ => ?_⟩
      · change now ≤ s.heard started + δ
        rw [hheard]
        linarith
      · exact .looked hδ hwake hyield (le_add_of_nonneg_right (by norm_num [keepaliveSeconds])) rfl
    · obtain ⟨hreports, hlast, hne⟩ := step_frame wakeSeconds now hsend hstamp
      refine ⟨fun hp => absurd hp hne, fun _ => ?_, fun hquiet => ?_⟩
      · rw [hlast, heard, hreports]
        exact h.stamped hstamp
      · rw [hlast]
        by_cases hlook : s.point = .keepalive
        · unfold ReplicationStream.step at hquiet ⊢
          rw [hlook] at hquiet ⊢
          dsimp only at hquiet ⊢
          split_ifs at hquiet ⊢ with hdue
          · cases hquiet
          · refine .looked (s := { s with point := .remaining }) hδ hwake hyield ?_ rfl
            change now ≤ s.lastFeedback + keepaliveSeconds
            linarith
        · exact (h.quiet (quiet_of_step hquiet hlook hstamp)).step hδ hwake hpaced hnow hrest

/-! ### Stops -/

theorem step_stopping (wakeSeconds now : ℚ) (s : ReplicationStream) :
    (s.step wakeSeconds now).stopping = s.stopping := by
  unfold ReplicationStream.step
  cases hpoint : s.point with
  | readMessage => cases hin : s.incoming <;> rfl
  | _ => rfl

def left (s : ReplicationStream) : ℕ :=
  match s.point with
  | .readMessage => 8
  | .keepalive => 7
  | .sendFeedback => 6
  | .stamp => 5
  | .remaining => 4
  | .select _ => 3
  | .expired | .enter => 2
  | .test | .took _ | .woke => 1
  | .yielded _ | .finished => 0

theorem left_le (s : ReplicationStream) : s.left ≤ 8 := by
  unfold left
  cases s.point <;> norm_num

theorem left_step (hstop : s.stopping = true) (hrest : ¬ s.Resting) :
    (s.step wakeSeconds now).left < s.left := by
  unfold Resting at hrest
  unfold ReplicationStream.step left
  cases hpoint : s.point with
  | readMessage =>
    dsimp only
    cases s.incoming <;> norm_num
  | test =>
    dsimp only
    rw [if_pos hstop]
    norm_num
  | keepalive =>
    dsimp only
    split_ifs <;> norm_num
  | remaining =>
    dsimp only
    split_ifs <;> norm_num
  | expired =>
    dsimp only
    rw [if_neg (by simp [hstop])]
    norm_num
  | yielded item =>
    rw [hpoint] at hrest
    exact absurd trivial hrest
  | finished =>
    rw [hpoint] at hrest
    exact absurd trivial hrest
  | _ => norm_num

end ReplicationStream

end WalFlux.Replication
