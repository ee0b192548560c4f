import WalFlux.Daemon.Live

/-! How long things take: the wakes, the keepalives, the flush of a batch and a graceful stop. -/

namespace WalFlux.Daemon

open Aggregates Protocol Replication

variable {W F : Type}

/-- The program takes its next step within `δ`; a sleep in `select` lasts as long as was asked for
on top of that, and a flush as long as it likes. -/
def Live.OnTime (δ : ℚ) (s : Live W F) : Prop :=
  match s.stage with
  | .next => s.clock ≤ s.since + δ + s.stream.timeout
  | .condition | .acked _ | .left => s.clock ≤ s.since + δ
  | .flush _ | .returned | .raised _ => True

instance (δ : ℚ) : DecidablePred (Live.OnTime δ : Live W F → Prop)
  | ⟨.next, _, _, _, _, _⟩ => inferInstanceAs (Decidable (_ ≤ _))
  | ⟨.condition, _, _, _, _, _⟩ => inferInstanceAs (Decidable (_ ≤ _))
  | ⟨.acked _, _, _, _, _, _⟩ => inferInstanceAs (Decidable (_ ≤ _))
  | ⟨.left, _, _, _, _, _⟩ => inferInstanceAs (Decidable (_ ≤ _))
  | ⟨.flush _, _, _, _, _, _⟩ => .isTrue trivial
  | ⟨.returned, _, _, _, _, _⟩ => .isTrue trivial
  | ⟨.raised _, _, _, _, _, _⟩ => .isTrue trivial

variable [PyFloat F]

def Live.LeadsOnTime (config : Config) (sink : Sink W F) (δ : ℚ) (s : Live W F)
    (events : List Event) (s' : Live W F) : Prop :=
  Trace.Leads (Live.step config sink) (Live.OnTime δ) s events s'

variable {config : Config} {sink : Sink W F} {δ : ℚ} {s s' : Live W F}

theorem Live.step_rule {P : Live W F → Prop} {e : Event} (hstep : s.step config sink e = some s')
    (helapse : ∀ d, 0 ≤ d → P { s with clock := s.clock + d })
    (harrive : ∀ msg, P { s with stream := s.stream.arrive msg })
    (hstop : P { s with stream := s.stream.stop })
    (hrun : ∀ s₁, s.run config sink = some s₁ → P { s₁ with since := s.clock })
    (hfail : ∀ e, P (s.raise e)) : P s' := by
  cases e with
  | elapse d =>
    unfold Live.step at hstep
    dsimp only at hstep
    split_ifs at hstep with hd
    exact Option.some_inj.mp hstep ▸ helapse d hd
  | arrive msg => exact Option.some_inj.mp hstep ▸ harrive msg
  | stop => exact Option.some_inj.mp hstep ▸ hstop
  | run =>
    obtain ⟨s₁, hs₁, rfl⟩ := Option.map_eq_some_iff.mp hstep
    exact hrun s₁ hs₁
  | fail e =>
    unfold Live.step at hstep
    cases hstage : s.stage with
    | next =>
      rw [hstage] at hstep
      dsimp only at hstep
      split_ifs at hstep
      exact Option.some_inj.mp hstep ▸ hfail e
    | _ =>
      rw [hstage] at hstep
      cases hstep

theorem wakeSeconds_nonneg (config : Config) : 0 ≤ wakeSeconds config :=
  le_min zero_le_one (div_nonneg (Nat.cast_nonneg _) (by norm_num))

/-! ### The stream under the loop -/

def Live.Paced (config : Config) (s : Live W F) : Prop :=
  s.since ≤ s.clock ∧
    match s.stage with
    | .next => s.stream.Paced (wakeSeconds config) s.since
    | .condition | .flush _ | .left =>
      s.stream.Resting ∧ s.stream.Paced (wakeSeconds config) s.since
    | .acked _ => s.stream.Resting ∧
      { s.stream with lastFeedback := s.since }.Paced (wakeSeconds config) s.since
    | .returned | .raised _ => True

theorem Live.Paced.take (h : s.Paced config) (hstage : s.stage = .next)
    (htakes : s.Takes config s') : Live.Paced config { s' with since := s.clock } := by
  obtain ⟨hle, h⟩ := h
  rw [hstage] at h
  dsimp only at h
  have hrest : ∀ item, s.stream.point = .yielded item → s.stream.Resting := by
    intro item hpoint
    rw [ReplicationStream.Resting, hpoint]
    trivial
  cases htakes with
  | inside hyield hfinished =>
    refine ⟨le_rfl, ?_⟩
    rw [hstage]
    exact h.step hle
  | exhausted hpoint =>
    have hrest : s.stream.Resting := by
      rw [ReplicationStream.Resting, hpoint]
      trivial
    exact ⟨le_rfl, hrest, h.rest hrest hle⟩
  | stopped item hpoint hstop => exact ⟨le_rfl, hrest _ hpoint, h.rest (hrest _ hpoint) hle⟩
  | idle hpoint hstop hnil => exact ⟨le_rfl, h.resume (hrest _ hpoint) hle⟩
  | overdue hpoint hstop hnil => exact ⟨le_rfl, hrest _ hpoint, h.rest (hrest _ hpoint) hle⟩
  | refused msg e hpoint hstop hhandle => exact ⟨le_rfl, trivial⟩
  | handled msg loop hpoint hstop hhandle =>
    exact ⟨le_rfl, hrest _ hpoint, h.rest (hrest _ hpoint) hle⟩

theorem Live.Paced.run (h : s.Paced config) (hrun : s.run config sink = some s') :
    Live.Paced config { s' with since := s.clock } := by
  unfold Live.run at hrun
  cases hstage : s.stage with
  | next =>
    rw [hstage] at hrun
    exact h.take hstage (Option.some_inj.mp hrun ▸ s.takes config)
  | condition =>
    rw [hstage] at hrun
    cases hrun
    obtain ⟨hle, h⟩ := h
    rw [hstage] at h
    unfold Live.check
    cases s.loop.due config s.clock with
    | error e => exact ⟨le_rfl, trivial⟩
    | ok due =>
      cases due with
      | true => exact ⟨le_rfl, h.1, h.2.rest h.1 hle⟩
      | false => exact ⟨le_rfl, h.2.resume h.1 hle⟩
  | flush last =>
    rw [hstage] at hrun
    cases hrun
    obtain ⟨hle, h⟩ := h
    rw [hstage] at h
    unfold Live.flush
    cases callFlush config sink s.loop.pending s.world with
    | error e => exact ⟨le_rfl, trivial⟩
    | ok r => exact ⟨le_rfl, h.1, h.2.ack h.1 hle r.1⟩
  | acked last =>
    rw [hstage] at hrun
    cases hrun
    obtain ⟨hle, h⟩ := h
    rw [hstage] at h
    obtain ⟨hrest, h⟩ := h
    cases last with
    | true => exact ⟨le_rfl, trivial⟩
    | false =>
      refine ⟨le_rfl, .plain (h.lastYield.trans hle) le_rfl (fun r hr =>
        (h.sent r hr).trans hle) ?_ rfl⟩
      exact fun _ r hr => (h.sent r hr).trans hle
  | left =>
    rw [hstage] at hrun
    cases hrun
    obtain ⟨hle, h⟩ := h
    rw [hstage] at h
    refine ⟨le_rfl, ?_⟩
    unfold Live.leave
    split_ifs
    · trivial
    · exact ⟨h.1, h.2.rest h.1 hle⟩
  | returned =>
    rw [hstage] at hrun
    cases hrun
  | raised e =>
    rw [hstage] at hrun
    cases hrun

theorem Live.Paced.step {e : Event} (h : s.Paced config) (hstep : s.step config sink e = some s') :
    s'.Paced config := by
  refine Live.step_rule hstep (fun d hd => ?_) (fun msg => ?_) ?_ (fun s₁ hrun => h.run hrun)
    (fun e => ⟨h.1, trivial⟩)
  · exact ⟨h.1.trans (le_add_of_nonneg_right hd), h.2⟩
  · obtain ⟨hle, h⟩ := h
    refine ⟨hle, ?_⟩
    cases hstage : s.stage with
    | next =>
      rw [hstage] at h
      exact h.arrive msg
    | acked last =>
      rw [hstage] at h
      exact ⟨h.1, h.2.arrive msg⟩
    | returned => trivial
    | raised e => trivial
    | _ =>
      rw [hstage] at h
      exact ⟨h.1, h.2.arrive msg⟩
  · obtain ⟨hle, h⟩ := h
    refine ⟨hle, ?_⟩
    cases hstage : s.stage with
    | next =>
      rw [hstage] at h
      exact h.stop
    | acked last =>
      rw [hstage] at h
      exact ⟨h.1, h.2.stop⟩
    | returned => trivial
    | raised e => trivial
    | _ =>
      rw [hstage] at h
      exact ⟨h.1, h.2.stop⟩

omit [PyFloat F] in
theorem Live.paced_init (checkpoint : ℕ) (now : ℚ) (w : W) :
    (Live.init checkpoint now w : Live W F).Paced config :=
  ⟨le_rfl, .plain le_rfl le_rfl (fun r hr => by cases hr) (fun _ r hr => by cases hr) rfl⟩

/-! ### The flush deadline -/

def due (config : Config) (arrival : ℚ) : ℚ :=
  arrival + config.batchMaxMs / 1000 + wakeSeconds config

structure Live.Prompt (config : Config) (δ : ℚ) (s : Live W F) : Prop where
  oldest : s.loop.oldest.isSome ↔ s.loop.pending ≠ []
  pace : ∀ arrival, s.loop.oldest = some arrival →
    match s.stage with
    | .next => s.stream.Within (wakeSeconds config) δ (due config arrival) s.since
    | .condition | .left => s.since ≤ due config arrival + 10 * δ
    | .flush _ => s.since ≤ due config arrival + 11 * δ
    | .acked last => last = true
    | .returned | .raised _ => True

theorem Loop.handle_oldest {l l' : Loop F} {m : Message} {now : ℚ}
    (h : l.handle config m now = .ok l') :
    (l'.oldest = l.oldest ∧ l'.pending = l.pending) ∨
      (l'.oldest = some (l.oldest.getD now) ∧ l'.pending ≠ []) := by
  obtain ⟨a, -, ⟨c, -, -, rfl⟩ | ⟨-, rfl⟩⟩ := Loop.handle_cases h
  · exact .inr ⟨rfl, by simp⟩
  · exact .inl ⟨rfl, rfl⟩

omit [PyFloat F] in
theorem Loop.not_due {l : Loop F} {now arrival : ℚ} (h : l.due config now = .ok false)
    (hpending : l.pending ≠ []) (holdest : l.oldest = some arrival) :
    now + wakeSeconds config ≤ WalFlux.Daemon.due config arrival := by
  unfold Loop.due at h
  rw [if_neg hpending] at h
  split_ifs at h with hfull
  · cases h
  · rw [holdest] at h
    have hyoung : (now - arrival) * 1000 < config.batchMaxMs :=
      not_le.mp (of_decide_eq_false (Except.ok.inj h))
    unfold WalFlux.Daemon.due
    linarith

theorem Live.Prompt.take (hδ : 0 ≤ δ) (htime : s.OnTime δ) (hpaced : s.Paced config)
    (h : s.Prompt config δ) (hstage : s.stage = .next) (htakes : s.Takes config s') :
    Live.Prompt config δ { s' with since := s.clock } := by
  obtain ⟨hle, hpaced⟩ := hpaced
  obtain ⟨holdest, hpace⟩ := h
  rw [hstage] at hpaced hpace
  rw [Live.OnTime, hstage] at htime
  dsimp only at hpaced hpace htime
  have hclock : ∀ arrival, s.loop.oldest = some arrival → s.clock ≤ due config arrival + 10 * δ :=
    fun arrival harrival => (hpace arrival harrival).clock hδ hpaced htime
  cases htakes with
  | inside hyield hfinished =>
    refine ⟨holdest, fun arrival harrival => ?_⟩
    have hrest := ReplicationStream.not_resting hyield hfinished
    rw [hstage]
    exact (hpace arrival harrival).step hδ (wakeSeconds_nonneg config) hpaced htime hrest
  | exhausted hpoint => exact ⟨holdest, hclock⟩
  | stopped item hpoint hstop => exact ⟨holdest, hclock⟩
  | idle hpoint hstop hnil =>
    refine ⟨holdest, fun arrival harrival => ?_⟩
    exact absurd hnil (holdest.mp (harrival ▸ rfl))
  | overdue hpoint hstop hnil =>
    refine ⟨holdest, fun arrival harrival => (hclock arrival harrival).trans ?_⟩
    gcongr
    norm_num
  | refused msg e hpoint hstop hhandle => exact ⟨holdest, fun _ _ => trivial⟩
  | handled msg loop hpoint hstop hhandle =>
    obtain ⟨m, -, hhandle⟩ := Except.bind_eq_ok.mp hhandle
    obtain ⟨hsame, hpending⟩ | ⟨hsealed, hpending⟩ := Loop.handle_oldest hhandle
    · refine ⟨by rw [hsame, hpending]; exact holdest, fun arrival harrival => ?_⟩
      exact hclock arrival (hsame ▸ harrival)
    · refine ⟨by simp [hsealed, hpending], fun arrival harrival => ?_⟩
      rw [hsealed] at harrival
      cases hold : s.loop.oldest with
      | some oldest =>
        rw [hold] at harrival
        cases harrival
        exact hclock oldest hold
      | none =>
        rw [hold] at harrival
        cases harrival
        have hwake := wakeSeconds_nonneg config
        have hbatch : (0 : ℚ) ≤ config.batchMaxMs / 1000 := by positivity
        change s.clock ≤ due config s.clock + 10 * δ
        unfold due
        linarith

theorem Live.Prompt.run (hδ : 0 ≤ δ) (htime : s.OnTime δ) (hpaced : s.Paced config)
    (h : s.Prompt config δ) (hrun : s.run config sink = some s') :
    Live.Prompt config δ { s' with since := s.clock } := by
  unfold Live.run at hrun
  cases hstage : s.stage with
  | next =>
    rw [hstage] at hrun
    exact h.take hδ htime hpaced hstage (Option.some_inj.mp hrun ▸ s.takes config)
  | condition =>
    rw [hstage] at hrun
    cases hrun
    obtain ⟨hle, hpaced⟩ := hpaced
    obtain ⟨holdest, hpace⟩ := h
    rw [hstage] at hpaced hpace
    rw [Live.OnTime, hstage] at htime
    unfold Live.check
    cases hdue : s.loop.due config s.clock with
    | error e => exact ⟨holdest, fun _ _ => trivial⟩
    | ok due =>
      cases due with
      | true =>
        refine ⟨holdest, fun arrival harrival => ?_⟩
        -- the last step was in time, and this one took at most `δ`
        have hsince := hpace arrival harrival
        change s.clock ≤ Daemon.due config arrival + 11 * δ
        linarith
      | false =>
        refine ⟨holdest, fun arrival harrival => ?_⟩
        -- not yet due, so the whole wake interval is still ahead of the deadline
        have hyoung := Loop.not_due hdue (holdest.mp (harrival ▸ rfl)) harrival
        refine .resume hδ (le_trans ?_ hyoung)
          ((le_add_of_nonneg_right (wakeSeconds_nonneg config)).trans hyoung)
        gcongr
        exact hpaced.2.lastYield.trans hle
  | flush last =>
    rw [hstage] at hrun
    cases hrun
    unfold Live.flush
    cases callFlush config sink s.loop.pending s.world with
    | error e => exact ⟨h.oldest, fun _ _ => trivial⟩
    | ok r =>
      cases last with
      | true => exact ⟨h.oldest, fun _ _ => rfl⟩
      | false =>
        refine ⟨by simp [Loop.flushed], fun arrival harrival => ?_⟩
        cases harrival
  | acked last =>
    rw [hstage] at hrun
    cases hrun
    obtain ⟨holdest, hpace⟩ := h
    rw [hstage] at hpace
    cases last with
    | true => exact ⟨holdest, fun _ _ => trivial⟩
    | false => exact ⟨holdest, fun arrival harrival => Bool.noConfusion (hpace arrival harrival)⟩
  | left =>
    rw [hstage] at hrun
    cases hrun
    obtain ⟨holdest, hpace⟩ := h
    rw [hstage] at hpace
    rw [Live.OnTime, hstage] at htime
    unfold Live.leave
    refine ⟨holdest, fun arrival harrival => ?_⟩
    have hsince := hpace arrival harrival
    split_ifs
    · trivial
    · change s.clock ≤ due config arrival + 11 * δ
      linarith
  | returned =>
    rw [hstage] at hrun
    cases hrun
  | raised e =>
    rw [hstage] at hrun
    cases hrun

theorem Live.Prompt.step {e : Event} (hδ : 0 ≤ δ) (htime : s.OnTime δ) (hpaced : s.Paced config)
    (h : s.Prompt config δ) (hstep : s.step config sink e = some s') : s'.Prompt config δ := by
  refine Live.step_rule hstep (fun d hd => ⟨h.oldest, h.pace⟩) (fun msg => ?_) ?_
    (fun s₁ hrun => h.run hδ htime hpaced hrun) (fun e => ⟨h.oldest, fun _ _ => trivial⟩)
  · refine ⟨h.oldest, fun arrival harrival => ?_⟩
    have hpace := h.pace arrival harrival
    cases hstage : s.stage with
    | next =>
      rw [hstage] at hpace
      exact hpace.arrive msg
    | _ =>
      rw [hstage] at hpace
      exact hpace
  · refine ⟨h.oldest, fun arrival harrival => ?_⟩
    have hpace := h.pace arrival harrival
    cases hstage : s.stage with
    | next =>
      rw [hstage] at hpace
      exact hpace.stop hδ
    | _ =>
      rw [hstage] at hpace
      exact hpace

omit [PyFloat F] in
theorem Live.onTime_init (hδ : 0 ≤ δ) (checkpoint : ℕ) (now : ℚ) (w : W) :
    (Live.init checkpoint now w : Live W F).OnTime δ := by
  change now ≤ now + δ + 0
  linarith

theorem leads_prompt {checkpoint : ℕ} {now : ℚ} {w : W} {events : List Event} (hδ : 0 ≤ δ)
    (h : Live.LeadsOnTime config sink δ (.init checkpoint now w) events s) :
    s.OnTime δ ∧ s.Paced config ∧ s.Prompt config δ := by
  have hinit := Live.onTime_init (F := F) hδ checkpoint now w
  have hprompt : (Live.init checkpoint now w : Live W F).Prompt config δ :=
    ⟨by simp [Live.init, Loop.init], fun arrival harrival => by cases harrival⟩
  refine ⟨h.ok_last hinit, h.invariant (P := fun s => s.Paced config ∧ s.Prompt config δ) hinit
    ⟨Live.paced_init checkpoint now w, hprompt⟩ ?_⟩
  rintro t e u htime ⟨hpaced, hprompt⟩ hstep -
  exact ⟨hpaced.step hstep, hprompt.step hδ htime hpaced hstep⟩

/-- In every run that keeps to its time, a batch is at its flush within `batch_max_ms` and a wake
interval of the arrival of its first transaction. -/
theorem flush_by_deadline {checkpoint : ℕ} {now : ℚ} {w : W} {events : List Event} (hδ : 0 ≤ δ)
    (h : Live.LeadsOnTime config sink δ (.init checkpoint now w) events s)
    (hpending : s.loop.pending ≠ []) :
    ∃ arrival, s.loop.oldest = some arrival ∧
      (s.stage = .next ∨ s.stage = .condition ∨ s.stage = .left →
        s.clock ≤ due config arrival + 11 * δ) ∧
      ∀ last, s.stage = .flush last → s.since ≤ due config arrival + 11 * δ := by
  obtain ⟨htime, ⟨-, hpaced⟩, holdest, hpace⟩ := leads_prompt hδ h
  obtain ⟨arrival, harrival⟩ := Option.isSome_iff_exists.mp (holdest.mpr hpending)
  have hpace := hpace arrival harrival
  refine ⟨arrival, harrival, ?_, fun last hstage => ?_⟩
  · rintro (hstage | hstage | hstage)
    · rw [hstage] at hpace hpaced
      rw [Live.OnTime, hstage] at htime
      have hclock := hpace.clock hδ hpaced htime
      linarith
    · rw [hstage] at hpace
      rw [Live.OnTime, hstage] at htime
      dsimp only at hpace htime
      linarith
    · rw [hstage] at hpace
      rw [Live.OnTime, hstage] at htime
      dsimp only at hpace htime
      linarith
  · rw [hstage] at hpace
    exact hpace

theorem sample_onTime : ∃ s : Live (List ℕ) Empty,
    Live.LeadsOnTime countsConfig Control.recordCheckpoints (1 / 100)
    (.init 10 0 []) sampleEvents s ∧
      s.stage = .next ∧ s.stream.point = .yielded none ∧ s.loop.pending = [⟨20, []⟩] ∧
      s.clock = 1 / 5 := by
  have hrun : (Trace.exec (Live.step countsConfig Control.recordCheckpoints) (Live.OnTime (1 / 100))
      (.init 10 0 []) sampleEvents).map
        (fun s => (s.stage, s.stream.point, s.loop.pending, s.clock)) =
          some (.next, .yielded none, [⟨20, []⟩], 1 / 5) := by
    decide +kernel
  obtain ⟨s, hexec, hs⟩ := Option.map_eq_some_iff.mp hrun
  simp only [Prod.mk.injEq] at hs
  exact ⟨s, Trace.leads_of_exec hexec, hs⟩

theorem flush_by_deadline_wake : ∃ s : Live (List ℕ) Empty, s.clock = 1 / 5 ∧
    ∃ arrival, s.loop.oldest = some arrival ∧
      (s.stage = .next ∨ s.stage = .condition ∨ s.stage = .left →
        s.clock ≤ due countsConfig arrival + 11 * (1 / 100)) ∧
      ∀ last, s.stage = .flush last → s.since ≤ due countsConfig arrival + 11 * (1 / 100) := by
  obtain ⟨s, hrun, -, -, hpending, hclock⟩ := sample_onTime
  refine ⟨s, hclock, flush_by_deadline (by norm_num) hrun ?_⟩
  rw [hpending]
  exact List.cons_ne_nil _ _

/-! ### Wakes and keepalives -/

/-- In every run `select` sleeps for at most the wake interval, a wake comes no earlier than that
after the last item, and a keepalive no earlier than its interval after any report. -/
theorem wakes_and_keepalives_spaced {checkpoint : ℕ} {now : ℚ} {w : W} {events : List Event}
    (h : Live.Leads config sink (.init checkpoint now w) events s) (hstage : s.stage = .next) :
    (∀ timeout, s.stream.point = .select timeout → 0 < timeout ∧ timeout ≤ wakeSeconds config) ∧
    (s.stream.point = .woke → s.stream.lastYield + wakeSeconds config ≤ s.clock) ∧
    (s.stream.point = .sendFeedback →
      ∀ report ∈ s.stream.reports, report.1 + keepaliveSeconds ≤ s.clock) := by
  have hpaced : s.Paced config := h.invariant (P := fun s => s.Paced config) trivial
    (Live.paced_init checkpoint now w) fun _ _ _ _ hpaced hstep _ => hpaced.step hstep
  obtain ⟨hle, hpaced⟩ := hpaced
  rw [hstage] at hpaced
  refine ⟨fun timeout hpoint => ?_, fun hpoint => (hpaced.woke hpoint).trans hle,
    fun hpoint report hreport => ?_⟩
  · obtain ⟨hpos, hend⟩ := hpaced.select timeout hpoint
    have hyield := hpaced.lastYield
    exact ⟨hpos, by linarith⟩
  · have hstamped := hpaced.stamped (by rw [hpoint]; exact fun hp => by cases hp) report hreport
    have hsend := hpaced.sendFeedback hpoint
    linarith

theorem wakes_and_keepalives_spaced_wake : ∃ s : Live (List ℕ) Empty,
    s.stream.point = .yielded none ∧ (∀ timeout, s.stream.point = .select timeout →
      0 < timeout ∧ timeout ≤ wakeSeconds countsConfig) ∧
    (s.stream.point = .woke → s.stream.lastYield + wakeSeconds countsConfig ≤ s.clock) ∧
    (s.stream.point = .sendFeedback →
      ∀ report ∈ s.stream.reports, report.1 + keepaliveSeconds ≤ s.clock) := by
  obtain ⟨s, hrun, hstage, hpoint, -, -⟩ := sample_onTime
  exact ⟨s, hpoint, wakes_and_keepalives_spaced (hrun.mono fun _ _ => trivial) hstage⟩

def Live.Heard (config : Config) (δ started : ℚ) (s : Live W F) : Prop :=
  match s.stage with
  | .next => s.stream.Heard (wakeSeconds config) δ started s.since
  | .condition | .flush _ | .left => s.stream.lastFeedback ≤ s.stream.heard started + δ
  | .acked _ => s.stream.heard started = s.since
  | .returned | .raised _ => True

theorem Live.Heard.take {started : ℚ} (hδ : 0 ≤ δ) (htime : s.OnTime δ) (hpaced : s.Paced config)
    (h : s.Heard config δ started) (hstage : s.stage = .next) (htakes : s.Takes config s') :
    Live.Heard config δ started { s' with since := s.clock } := by
  obtain ⟨hle, hpaced⟩ := hpaced
  rw [Live.Heard, hstage] at h
  rw [hstage] at hpaced
  rw [Live.OnTime, hstage] at htime
  dsimp only at hpaced h htime
  have hstamped : ∀ item, s.stream.point = .yielded item →
      s.stream.lastFeedback ≤ s.stream.heard started + δ :=
    fun item hpoint => h.stamped (by rw [hpoint]; exact fun hp => by cases hp)
  cases htakes with
  | inside hyield hfinished =>
    have hrest := ReplicationStream.not_resting hyield hfinished
    rw [Live.Heard, hstage]
    exact h.step hδ (wakeSeconds_nonneg config) hpaced hle htime hrest
  | exhausted hpoint => exact h.stamped (by rw [hpoint]; exact fun hp => by cases hp)
  | stopped item hpoint hstop => exact hstamped item hpoint
  | idle hpoint hstop hnil =>
    exact .loud (fun hp => by cases hp) (hstamped none hpoint) rfl
  | overdue hpoint hstop hnil => exact hstamped none hpoint
  | refused msg e hpoint hstop hhandle => trivial
  | handled msg loop hpoint hstop hhandle => exact hstamped _ hpoint

theorem Live.Heard.run {started : ℚ} (hδ : 0 ≤ δ) (htime : s.OnTime δ) (hpaced : s.Paced config)
    (h : s.Heard config δ started) (hrun : s.run config sink = some s') :
    Live.Heard config δ started { s' with since := s.clock } := by
  unfold Live.run at hrun
  cases hstage : s.stage with
  | next =>
    rw [hstage] at hrun
    exact h.take hδ htime hpaced hstage (Option.some_inj.mp hrun ▸ s.takes config)
  | condition =>
    rw [hstage] at hrun
    cases hrun
    rw [Live.Heard, hstage] at h
    unfold Live.check
    cases s.loop.due config s.clock with
    | error e => trivial
    | ok due =>
      cases due with
      | true => exact h
      | false => exact .loud (fun hp => by cases hp) h rfl
  | flush last =>
    rw [hstage] at hrun
    cases hrun
    unfold Live.flush
    cases callFlush config sink s.loop.pending s.world with
    | error e => trivial
    | ok r => exact s.stream.heard_ack s.clock started r.1
  | acked last =>
    rw [hstage] at hrun
    cases hrun
    rw [Live.Heard, hstage] at h
    rw [Live.OnTime, hstage] at htime
    cases last with
    | true => trivial
    | false =>
      refine .loud (fun hp => by cases hp) ?_ rfl
      change s.clock ≤ s.stream.heard started + δ
      exact h ▸ htime
  | left =>
    rw [hstage] at hrun
    cases hrun
    rw [Live.Heard, hstage] at h
    unfold Live.leave
    split_ifs
    · trivial
    · exact h
  | returned =>
    rw [hstage] at hrun
    cases hrun
  | raised e =>
    rw [hstage] at hrun
    cases hrun

theorem Live.Heard.step {started : ℚ} {e : Event} (hδ : 0 ≤ δ) (htime : s.OnTime δ)
    (hpaced : s.Paced config) (h : s.Heard config δ started)
    (hstep : s.step config sink e = some s') : s'.Heard config δ started := by
  refine Live.step_rule hstep (fun d hd => h) (fun msg => ?_) ?_
    (fun s₁ hrun => h.run hδ htime hpaced hrun) (fun e => trivial)
  · unfold Live.Heard at h ⊢
    cases hstage : s.stage with
    | next =>
      rw [hstage] at h
      exact h.arrive msg
    | _ =>
      rw [hstage] at h
      exact h
  · unfold Live.Heard at h ⊢
    cases hstage : s.stage with
    | next =>
      rw [hstage] at h
      exact h.stop hδ
    | _ =>
      rw [hstage] at h
      exact h

/-- In every run that keeps to its time, the server has heard from the stream within the keepalive
interval and a wake of it, wherever the loop gets a wake. -/
theorem keepalive_by_deadline {checkpoint : ℕ} {now : ℚ} {w : W} {events : List Event} (hδ : 0 ≤ δ)
    (h : Live.LeadsOnTime config sink δ (.init checkpoint now w) events s)
    (hstage : s.stage = .next) (hpoint : s.stream.point = .yielded none) :
    s.clock ≤ s.stream.heard now + keepaliveSeconds + wakeSeconds config + 11 * δ := by
  have hinit := Live.onTime_init (F := F) hδ checkpoint now w
  have hheard : (Live.init checkpoint now w : Live W F).Heard config δ now :=
    .loud (fun hp => by cases hp) (le_add_of_nonneg_right hδ) rfl
  have hrun := h.invariant (P := fun s => s.Paced config ∧ s.Heard config δ now) hinit
    ⟨Live.paced_init checkpoint now w, hheard⟩ fun t e u htime ht hstep _ =>
      ⟨ht.1.step hstep, ht.2.step hδ htime ht.1 hstep⟩
  have htime := h.ok_last hinit
  obtain ⟨⟨-, hpaced⟩, hheard⟩ := hrun
  rw [Live.Heard, hstage] at hheard
  rw [hstage] at hpaced
  rw [Live.OnTime, hstage] at htime
  have hwithin := hheard.quiet (by rw [ReplicationStream.quiet, hpoint])
  have hclock := hwithin.clock hδ hpaced htime
  have hstamped := hheard.stamped (by rw [hpoint]; exact fun hp => by cases hp)
  linarith

theorem keepalive_by_deadline_wake : ∃ s : Live (List ℕ) Empty, s.clock = 1 / 5 ∧
    s.clock ≤ s.stream.heard 0 + keepaliveSeconds + wakeSeconds countsConfig + 11 * (1 / 100) := by
  obtain ⟨s, hrun, hstage, hpoint, -, hclock⟩ := sample_onTime
  exact ⟨s, hclock, keepalive_by_deadline (by norm_num) hrun hstage hpoint⟩

/-! ### Stops -/

def Event.isRun : Event → Bool
  | .run => true
  | _ => false

def Live.left (s : Live W F) : ℕ :=
  match s.stage with
  | .next => s.stream.left + 4
  | .left => 3
  | .flush _ => 2
  | .acked _ => 1
  | _ => 0

def Live.stopDue (config : Config) (δ : ℚ) (s : Live W F) : ℚ := s.clock + δ + wakeSeconds config

structure Live.Stopping (config : Config) (δ : ℚ) (s s₀ : Live W F) : Prop where
  stopping : s.stream.stopping = true
  pending : s.loop.pending = s₀.loop.pending
  assembly : s.loop.assembly = s₀.loop.assembly
  pace : match s.stage with
    | .next => s.stream.Within (wakeSeconds config) δ (s₀.stopDue config δ) s.since
    | .left => s.since ≤ s₀.stopDue config δ + 10 * δ
    | .flush last => last = true
    | .acked last => last = true
    | .condition => False
    | .returned | .raised _ => True

variable {s₀ : Live W F}

theorem Live.Stopping.take (hδ : 0 ≤ δ) (htime : s.OnTime δ) (hpaced : s.Paced config)
    (h : s.Stopping config δ s₀) (hstage : s.stage = .next)
    (htakes : s.Takes config s') :
    Live.Stopping config δ { s' with since := s.clock } s₀ ∧
      s'.left < s.left := by
  obtain ⟨hstop, hpending, hassembly, hpace⟩ := h
  obtain ⟨hle, hpaced⟩ := hpaced
  rw [hstage] at hpaced hpace
  rw [Live.OnTime, hstage] at htime
  dsimp only at hpaced hpace htime
  have hclock : s.clock ≤ s₀.stopDue config δ + 10 * δ := hpace.clock hδ hpaced htime
  have hleft : s.left = s.stream.left + 4 := by rw [Live.left, hstage]
  have hout : 3 < s.left := by omega
  cases htakes with
  | inside hyield hfinished =>
    have hrest := ReplicationStream.not_resting hyield hfinished
    refine ⟨⟨?_, hpending, hassembly, ?_⟩, ?_⟩
    · exact (s.stream.step_stopping _ _).trans hstop
    · rw [hstage]
      exact hpace.step hδ (wakeSeconds_nonneg config) hpaced htime hrest
    · rw [hleft, Live.left, hstage]
      exact Nat.add_lt_add_right (s.stream.left_step hstop hrest) 4
  | exhausted hpoint => exact ⟨⟨hstop, hpending, hassembly, hclock⟩, hout⟩
  | stopped item hpoint _ => exact ⟨⟨hstop, hpending, hassembly, hclock⟩, hout⟩
  | idle hpoint hrunning _ => simp [hstop] at hrunning
  | overdue hpoint hrunning _ => simp [hstop] at hrunning
  | refused msg e hpoint hrunning _ => simp [hstop] at hrunning
  | handled msg loop hpoint hrunning _ => simp [hstop] at hrunning

theorem Live.Stopping.run (hδ : 0 ≤ δ) (htime : s.OnTime δ) (hpaced : s.Paced config)
    (h : s.Stopping config δ s₀) (hrun : s.run config sink = some s') :
    Live.Stopping config δ { s' with since := s.clock } s₀ ∧
      s'.left < s.left := by
  unfold Live.run at hrun
  cases hstage : s.stage with
  | next =>
    rw [hstage] at hrun
    exact h.take hδ htime hpaced hstage (Option.some_inj.mp hrun ▸ s.takes config)
  | condition =>
    have hpace := h.pace
    rw [hstage] at hpace
    exact hpace.elim
  | flush last =>
    rw [hstage] at hrun
    cases hrun
    obtain ⟨hstop, hpending, hassembly, hpace⟩ := h
    rw [hstage] at hpace
    rw [Live.left, Live.left, hstage]
    cases hpace
    unfold Live.flush
    cases callFlush config sink s.loop.pending s.world with
    | error e => exact ⟨⟨hstop, hpending, hassembly, trivial⟩, by simp⟩
    | ok r => exact ⟨⟨hstop, hpending, hassembly, rfl⟩, by simp⟩
  | acked last =>
    rw [hstage] at hrun
    cases hrun
    obtain ⟨hstop, hpending, hassembly, hpace⟩ := h
    rw [hstage] at hpace
    rw [Live.left, Live.left, hstage]
    cases hpace
    exact ⟨⟨hstop, hpending, hassembly, trivial⟩, by simp [Live.stamp]⟩
  | left =>
    rw [hstage] at hrun
    cases hrun
    obtain ⟨hstop, hpending, hassembly, -⟩ := h
    rw [Live.left, Live.left, hstage]
    unfold Live.leave
    split_ifs
    · exact ⟨⟨hstop, hpending, hassembly, trivial⟩, by simp⟩
    · exact ⟨⟨hstop, hpending, hassembly, rfl⟩, by simp⟩
  | returned =>
    rw [hstage] at hrun
    cases hrun
  | raised e =>
    rw [hstage] at hrun
    cases hrun

theorem Live.Stopping.step {e : Event} (hδ : 0 ≤ δ) (htime : s.OnTime δ) (hpaced : s.Paced config)
    (h : s.Stopping config δ s₀) (hstep : s.step config sink e = some s') :
    s'.Stopping config δ s₀ := by
  refine Live.step_rule (P := fun s => s.Stopping config δ s₀) hstep
    (fun d hd => ⟨h.stopping, h.pending, h.assembly, h.pace⟩)
      (fun msg => ⟨h.stopping, h.pending, h.assembly, ?_⟩)
    ⟨rfl, h.pending, h.assembly, ?_⟩
    (fun s₁ hrun => (h.run hδ htime hpaced hrun).1)
    (fun e => ⟨h.stopping, h.pending, h.assembly, trivial⟩)
  · have hpace := h.pace
    cases hstage : s.stage with
    | next =>
      rw [hstage] at hpace
      exact hpace.arrive msg
    | _ =>
      rw [hstage] at hpace
      exact hpace
  · have hpace := h.pace
    cases hstage : s.stage with
    | next =>
      rw [hstage] at hpace
      exact hpace.stop hδ
    | _ =>
      rw [hstage] at hpace
      exact hpace

theorem Live.Stopping.left_step {e : Event} (hδ : 0 ≤ δ) (htime : s.OnTime δ)
    (hpaced : s.Paced config) (h : s.Stopping config δ s₀)
    (hstep : s.step config sink e = some s') : s'.left + (if e.isRun then 1 else 0) ≤ s.left := by
  cases e with
  | run =>
    obtain ⟨s₁, hrun, rfl⟩ := Option.map_eq_some_iff.mp hstep
    exact (h.run hδ htime hpaced hrun).2
  | elapse d =>
    unfold Live.step at hstep
    dsimp only at hstep
    split_ifs at hstep
    exact Option.some_inj.mp hstep ▸ le_rfl
  | fail e =>
    unfold Live.step at hstep
    cases hstage : s.stage with
    | next =>
      rw [hstage] at hstep
      dsimp only at hstep
      split_ifs at hstep
      exact Option.some_inj.mp hstep ▸ Nat.zero_le _
    | _ =>
      rw [hstage] at hstep
      cases hstep
  | arrive msg => exact Option.some_inj.mp hstep ▸ le_rfl
  | stop => exact Option.some_inj.mp hstep ▸ le_rfl

/-- What becomes of a run after a stop that is set while the loop is at its stream: nothing more is
handled or given up, what is pending goes into one flush, and the way there is short. -/
structure GracefulStop (config : Config) (δ : ℚ) (s : Live W F) (events : List Event)
    (s' : Live W F) : Prop where
  pending : s'.loop.pending = s.loop.pending
  assembly : s'.loop.assembly = s.loop.assembly
  last : ∀ last, s'.stage = .flush last → last = true
  clock : s'.stage = .next ∨ s'.stage = .left → s'.clock ≤ s.clock + wakeSeconds config + 12 * δ
  steps : events.countP Event.isRun ≤ 12

theorem stops_gracefully {checkpoint : ℕ} {now : ℚ} {w : W} {events events' : List Event}
    (hδ : 0 ≤ δ) (h : Live.LeadsOnTime config sink δ (.init checkpoint now w) events s)
    (hstage : s.stage = .next) (hstop : s.stream.stopping = true)
    (h' : Live.LeadsOnTime config sink δ s events' s') : GracefulStop config δ s events' s' := by
  obtain ⟨htime, hpaced, -⟩ := leads_prompt hδ h
  have hstart : s.Stopping config δ s := by
    refine ⟨hstop, rfl, rfl, ?_⟩
    obtain ⟨hle, hpaced⟩ := hpaced
    rw [hstage] at hpaced ⊢
    exact hpaced.within hδ (wakeSeconds_nonneg config) hle
  have hinv : ∀ (t : Live W F) (e : Event) (u : Live W F), t.OnTime δ →
      t.Paced config ∧ t.Stopping config δ s → t.step config sink e = some u →
      u.Paced config ∧ u.Stopping config δ s := by
    rintro t e u htime ⟨hpaced, hstopping⟩ hstep
    exact ⟨hpaced.step hstep, hstopping.step hδ htime hpaced hstep⟩
  have hcount := h'.count_add_le Event.isRun Live.left htime ⟨hpaced, hstart⟩
    fun t e u htime hP hstep _ => ⟨hinv t e u htime hP hstep, hP.2.left_step hδ htime hP.1 hstep⟩
  have htime' := h'.ok_last htime
  obtain ⟨⟨-, hpaced'⟩, -, hpending, hassembly, hpace⟩ :=
    h'.invariant htime ⟨hpaced, hstart⟩ fun t e u htime hP hstep _ => hinv t e u htime hP hstep
  refine ⟨hpending, hassembly, fun last hlast => ?_, ?_, ?_⟩
  · rw [hlast] at hpace
    exact hpace
  · unfold Live.stopDue at hpace
    rintro (hnext | hleft)
    · rw [hnext] at hpace hpaced'
      rw [Live.OnTime, hnext] at htime'
      have hclock := hpace.clock hδ hpaced' htime'
      linarith
    · rw [hleft] at hpace
      rw [Live.OnTime, hleft] at htime'
      dsimp only at hpace htime'
      linarith
  · have hleft : s.left ≤ 12 := by
      rw [Live.left, hstage]
      exact Nat.add_le_add_right s.stream.left_le 4
    omega

theorem stops_gracefully_wake : ∃ s s' : Live (List ℕ) Empty, s'.stage = .returned ∧
    s'.world = [20] ∧ GracefulStop countsConfig (1 / 100) s (List.replicate 4 .run) s' := by
  have hrun : ((Trace.exec (Live.step countsConfig Control.recordCheckpoints)
    (Live.OnTime (1 / 100))
      (.init 10 0 []) (sampleEvents ++ [.stop])).bind fun s =>
        (Trace.exec (Live.step countsConfig Control.recordCheckpoints) (Live.OnTime (1 / 100)) s
          (List.replicate 4 .run)).map fun s' =>
            (s.stage, s.stream.stopping, s'.stage, s'.world)) =
      some (.next, true, .returned, [20]) := by
    decide +kernel
  obtain ⟨s, hs, hrun⟩ := Option.bind_eq_some_iff.mp hrun
  obtain ⟨s', hs', hrun⟩ := Option.map_eq_some_iff.mp hrun
  simp only [Prod.mk.injEq] at hrun
  obtain ⟨hstage, hstop, hreturned, hworld⟩ := hrun
  exact ⟨s, s', hreturned, hworld, stops_gracefully (by norm_num)
    (Trace.leads_of_exec hs) hstage hstop (Trace.leads_of_exec hs')⟩

end WalFlux.Daemon
