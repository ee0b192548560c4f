import WalFlux.System

/-! The invariant of the system: the targets are made of the transactions up to the checkpoint, and
the daemon that opened the slot's stream last follows on from there. -/

namespace WalFlux

open Aggregates Protocol

variable {ι T F : Type} [PyFloat F] [DecidableEq F] {config : Config} {fx : Effects T F}
  {base : List (SealedTxn F) → T → Prop}

/-! ### What the targets hold -/

def applyBatches (fx : Effects T F) (batches : List (List (SealedTxn F))) (t : T) :
    Except Error T :=
  batches.foldlM (fun t txns => fx.flush (txns.flatMap SealedTxn.ops) t) t

/-- The targets come from a base that holds the first transactions, by batches that cut the others:
each of them once, whole and in order. -/
def Built (fx : Effects T F) (base : List (SealedTxn F) → T → Prop) (txns : List (SealedTxn F))
    (t : T) : Prop :=
  ∃ first batches t₀, base first t₀ ∧ txns = first ++ batches.flatten ∧
    applyBatches fx batches t₀ = .ok t

omit [PyFloat F] [DecidableEq F] in
theorem Built.of_base {txns : List (SealedTxn F)} {t : T} (h : base txns t) :
    Built fx base txns t :=
  ⟨txns, [], t, h, by simp, rfl⟩

omit [PyFloat F] [DecidableEq F] in
theorem Built.flush {txns batch : List (SealedTxn F)} {t t' : T} (h : Built fx base txns t)
    (hflush : fx.flush (batch.flatMap SealedTxn.ops) t = .ok t') :
    Built fx base (txns ++ batch) t' := by
  obtain ⟨first, batches, t₀, ht₀, rfl, hrun⟩ := h
  refine ⟨first, batches ++ [batch], t₀, ht₀, by simp, ?_⟩
  rw [applyBatches, List.foldlM_append, ← applyBatches, hrun]
  exact (bind_pure _).trans hflush

/-! ### The invariant -/

/-- The daemon's memory against the durable checkpoint. -/
def Run.Matches (r : Run F) (s : Server ι T F) (checkpoint : ℕ) : Prop :=
  match r.phase with
  | .receiving | .flushing _ =>
    r.loop.checkpointLsn = checkpoint ∧ r.loop.pending = s.between checkpoint r.pos
  | .committed endLsn _ | .acked endLsn _ =>
    endLsn = checkpoint ∧ s.between checkpoint r.pos = []

/-- What a run has reported: never less than before, and its stream keeps the last of it. -/
structure Run.Reports (r : Run F) : Prop where
  sorted : r.reported.Pairwise (· ≤ ·)
  le : ∀ lsn ∈ r.reported, lsn ≤ r.flushLsn

structure Follows (s : Server ι T F) (r : Run F) (checkpoint : ℕ) : Prop where
  pos_le : r.pos ≤ s.wal
  matching : r.Matches s checkpoint
  flushLsn_le : r.flushLsn ≤ checkpoint
  reports : r.Reports

/-- The transaction being sent is the next one, and its payloads end it. -/
def SendsNext (config : Config) (s : Server ι T F) (r : Run F) : Prop :=
  ∀ t payloads, r.sending = some (t, payloads) →
    s.history.find? (fun t => r.pos < t.endLsn) = some t ∧
      (rendersTxn config t r.loop.assembly payloads = true ∨
        completes config t r.loop.assembly payloads = true)

/-- A walsender belongs to the last opener, and nothing it was told or the slot has confirmed lies
beyond the checkpoint. -/
structure SlotOk (s : Server ι T F) (slot : Slot ι) : Prop where
  confirmed_le_wal : slot.confirmed ≤ s.wal
  row_isSome : ∀ d, slot.opener = some d → s.row.isSome
  confirmed_le : ∀ checkpoint, s.row = some checkpoint → slot.confirmed ≤ checkpoint
  opener_eq : ∀ w, slot.walsender = some w → slot.opener = some w.owner
  feedback_le : ∀ w, slot.walsender = some w → ∀ checkpoint, s.row = some checkpoint →
    ∀ lsn ∈ w.feedback, lsn ≤ checkpoint

/-- Between the drop of the old slot and the commit of the backfill there is no checkpoint to start
from. -/
def AdminOk (s : Server ι T F) : Option (Admin F) → Prop
  | some (.setup _ .deleteCheckpoint) => s.slot = none
  | some (.setup _ .connect) => s.slot = none ∧ s.row = none
  | some (.setup _ .createSlot) => s.slot = none ∧ s.row = none
  | some (.setup _ (.backfill text snapshot)) => s.row = none ∧ ∃ lsn : ℕ,
      parseLsn text = .ok (lsn : ℤ) ∧ s.slot = some ⟨lsn, none, none⟩ ∧ lsn ≤ s.wal ∧
        snapshot = s.upTo lsn
  | some (.teardown .dropPublication) => s.slot = none
  | some (.teardown .dropSchema) => s.slot = none
  | _ => True

omit [PyFloat F] [DecidableEq F] in
theorem AdminOk.mono {s s' : Server ι T F} {admin : Option (Admin F)} (h : AdminOk s admin)
    (hnone : s.slot = none → s'.slot = none ∧ s'.row = s.row)
    (hnew : ∀ lsn, s.slot = some ⟨lsn, none, none⟩ → s.row = none → lsn ≤ s.wal →
      s'.slot = s.slot ∧ s'.row = s.row ∧ lsn ≤ s'.wal ∧ s'.upTo lsn = s.upTo lsn) :
    AdminOk s' admin := by
  cases admin with
  | none => trivial
  | some admin =>
    cases admin with
    | teardown stage =>
      cases stage with
      | dropPublication => exact (hnone h).1
      | dropSchema => exact (hnone h).1
      | _ => trivial
    | setup force stage =>
      cases stage with
      | deleteCheckpoint => exact (hnone h).1
      | connect => exact ⟨(hnone h.1).1, (hnone h.1).2.trans h.2⟩
      | createSlot => exact ⟨(hnone h.1).1, (hnone h.1).2.trans h.2⟩
      | backfill text snapshot =>
        obtain ⟨hrow, lsn, hparse, hslot, hle, hsnapshot⟩ := h
        obtain ⟨hslot', hrow', hle', hupTo⟩ := hnew lsn hslot hrow hle
        exact ⟨hrow'.trans hrow, lsn, hparse, hslot'.trans hslot, hle', hsnapshot.trans hupTo.symm⟩
      | _ => trivial

structure Inv (config : Config) (fx : Effects T F) (base : List (SealedTxn F) → T → Prop)
    (s : Sys ι T F) : Prop where
  increasing : Log.Increasing SealedTxn.endLsn s.server.history
  le_wal : ∀ t ∈ s.server.history, t.endLsn ≤ s.server.wal
  row : ∀ checkpoint, s.server.row = some checkpoint → checkpoint ≤ s.server.wal ∧
    Built fx base (s.server.upTo checkpoint) s.server.targets
  slot : ∀ slot, s.server.slot = some slot → SlotOk s.server slot
  sends : ∀ d r, s.daemons d = .streaming r → SendsNext config s.server r
  follows : ∀ slot d r, s.server.slot = some slot → slot.opener = some d →
    s.daemons d = .streaming r → ∃ checkpoint, s.server.row = some checkpoint ∧
      Follows s.server r checkpoint
  admin : AdminOk s.server s.admin

namespace Sys

variable [DecidableEq ι] {s s' : Sys ι T F} {d : ι}

omit [PyFloat F] [DecidableEq F] in
theorem withRun_eq_some {f : Run F → Option (Server ι T F × Process F)} :
    s.withRun d f = some s' ↔ ∃ r server p, s.daemons d = .streaming r ∧ f r = some (server, p) ∧
      s' = { s.setDaemon d p with server := server } := by
  rw [withRun]
  cases s.daemons d with
  | streaming r =>
    simp only [Option.map_eq_some_iff, Prod.exists, Process.streaming.injEq]
    constructor
    · rintro ⟨server, p, hf, rfl⟩
      exact ⟨r, server, p, rfl, hf, rfl⟩
    · rintro ⟨_, server, p, rfl, hf, rfl⟩
      exact ⟨server, p, hf, rfl⟩
  | _ => simp

end Sys

namespace Inv

variable [DecidableEq ι] {s s' : Sys ι T F} {d : ι}

theorem setDaemon (h : Inv config fx base s) {p : Process F}
    (hp : ∀ r, p = .streaming r → SendsNext config s.server r ∧
      ∀ slot, s.server.slot = some slot → slot.opener = some d →
        ∃ checkpoint, s.server.row = some checkpoint ∧ Follows s.server r checkpoint) :
    Inv config fx base (s.setDaemon d p) where
  increasing := h.increasing
  le_wal := h.le_wal
  row := h.row
  slot := h.slot
  admin := h.admin
  sends := by
    intro d' r hr
    by_cases hd : d' = d
    · subst hd
      exact (hp r (by simpa [Sys.setDaemon] using hr)).1
    · exact h.sends d' r (by simpa [Sys.setDaemon, hd] using hr)
  follows := by
    intro slot d' r hslot ho hr
    by_cases hd : d' = d
    · subst hd
      exact (hp r (by simpa [Sys.setDaemon] using hr)).2 slot hslot ho
    · exact h.follows slot d' r hslot ho (by simpa [Sys.setDaemon, hd] using hr)

theorem setDaemon_idle (h : Inv config fx base s) {p : Process F} (hp : ∀ r, p ≠ .streaming r) :
    Inv config fx base (s.setDaemon d p) :=
  h.setDaemon fun r hr => absurd hr (hp r)

theorem setRun (h : Inv config fx base s) {r r' : Run F} (hr : s.daemons d = .streaming r)
    (hsends : SendsNext config s.server r → SendsNext config s.server r')
    (hfollows : ∀ checkpoint, s.server.row = some checkpoint → Follows s.server r checkpoint →
      Follows s.server r' checkpoint) : Inv config fx base (s.setDaemon d (.streaming r')) := by
  refine h.setDaemon ?_
  rintro _ ⟨⟩
  refine ⟨hsends (h.sends d r hr), fun slot hslot ho => ?_⟩
  obtain ⟨checkpoint, hrow, hf⟩ := h.follows slot d r hslot ho hr
  exact ⟨checkpoint, hrow, hfollows checkpoint hrow hf⟩

end Inv

/-! ### Receiving -/

variable {t : SealedTxn F} {a a' : Daemon.Assembly F} {payload : List UInt8}
  {rest : List (List UInt8)} {m : Message}

theorem completes_cons (h : completes config t a (payload :: rest) = true)
    (hm : decodeMessage payload = .ok m) (ha : Daemon.assemble config a m = .ok a') :
    (∃ c, m = .commit c ∧ rest = [] ∧ c.endLsn = t.endLsn ∧ a.openOps = some t.ops) ∨
      (∀ c, m ≠ .commit c) ∧ completes config t a' rest = true := by
  rw [completes, hm] at h
  cases m with
  | begin b => cases h
  | commit c => exact .inl ⟨c, rfl, of_decide_eq_true h⟩
  | _ =>
    simp only [ha] at h
    exact .inr ⟨fun _ hm => (nomatch hm), h⟩

theorem rendersTxn_cons (h : rendersTxn config t a (payload :: rest) = true)
    (hm : decodeMessage payload = .ok m) (ha : Daemon.assemble config a m = .ok a') :
    (∀ c, m ≠ .commit c) ∧ completes config t a' rest = true := by
  rw [rendersTxn, hm] at h
  cases m with
  | begin b =>
    cases ha
    exact ⟨fun _ hm => (nomatch hm), h⟩
  | _ => cases h

theorem Run.receive_cases {r r' : Run F} {now later : ℚ}
    (hsends : rendersTxn config t r.loop.assembly (payload :: rest) = true ∨
      completes config t r.loop.assembly (payload :: rest) = true)
    (h : r.receive config t payload rest now later = some r') :
    (∃ due : Bool, r'.phase = if due then .flushing false else .receiving) ∧
      r'.flushLsn = r.flushLsn ∧ r'.reported = r.reported ∧
      r'.loop.checkpointLsn = r.loop.checkpointLsn ∧
      (r'.pos = t.endLsn ∧ r'.sending = none ∧
          r'.loop.pending = r.loop.pending ++ (if r.loop.checkpointLsn <
            t.endLsn then [t] else []) ∨
        r'.pos = r.pos ∧ r'.sending = some (t, rest) ∧
          completes config t r'.loop.assembly rest = true ∧ r'.loop.pending = r.loop.pending) := by
  rw [Run.receive] at h
  cases hm : decodeMessage payload with
  | error e => simp [hm] at h
  | ok m =>
    cases hl : r.loop.handle config m now with
    | error e => simp [hm, hl] at h
    | ok loop =>
      cases hdue : loop.due config later with
      | error e => simp [hm, hl, hdue] at h
      | ok due =>
        simp only [hm, hl, hdue, Option.some.injEq] at h
        subst h
        obtain ⟨hassemble, hckpt, hpending⟩ := Daemon.Loop.handle_ok hl
        refine ⟨⟨due, rfl⟩, rfl, rfl, hckpt, ?_⟩
        have hcommit : (∃ c, m = .commit c ∧ rest = [] ∧ c.endLsn = t.endLsn ∧
            r.loop.assembly.openOps = some t.ops) ∨
            (∀ c, m ≠ .commit c) ∧ completes config t loop.assembly rest = true :=
          hsends.elim (fun h => .inr (rendersTxn_cons h hm hassemble))
            fun h => completes_cons h hm hassemble
        rcases hcommit with ⟨c, rfl, rfl, hlsn, hops⟩ | ⟨hother, hcompletes⟩
        · refine .inl ⟨by simp, by simp, ?_⟩
          rw [← hlsn]
          rcases hpending with ⟨_, ⟨⟩, hlt, hpending⟩ | ⟨hle, hpending⟩
          · rw [if_pos hlt]
            rw [hops, hlsn] at hpending
            exact hpending
          · rw [if_neg (not_lt.mpr (hle c rfl)), List.append_nil]
            exact hpending
        · have hrest : rest ≠ [] := by
            rintro rfl
            cases hcompletes
          refine .inr ⟨by simp [hrest], by simp [hrest], hcompletes, ?_⟩
          rcases hpending with ⟨c, rfl, -⟩ | ⟨-, hpending⟩
          · exact absurd rfl (hother c)
          · exact hpending

namespace Inv

variable [DecidableEq ι] {s s' : Sys ι T F} {d : ι}

theorem receive (h : Inv config fx base s) {r r' : Run F} (hr : s.daemons d = .streaming r)
    (hsending : r.sending = some (t, payload :: rest)) (hphase : r.phase = .receiving)
    {now later : ℚ} (hreceive : r.receive config t payload rest now later = some r') :
    Inv config fx base (s.setDaemon d (.streaming r')) := by
  obtain ⟨hfind, hpayloads⟩ := h.sends d r hr t _ hsending
  obtain ⟨-, hmem, -⟩ := Log.between_of_find? h.increasing hfind
  obtain ⟨⟨due, hphase'⟩, hflush, hreported, hckpt, hcases⟩ := Run.receive_cases hpayloads hreceive
  refine h.setRun hr (fun _ => ?_) fun checkpoint hrow hf => ?_
  · intro t' payloads' hsending'
    rcases hcases with ⟨-, hnone, -⟩ | ⟨hpos, hsome, hcompletes, -⟩
    · rw [hnone] at hsending'
      cases hsending'
    · rw [hsome] at hsending'
      cases hsending'
      rw [hpos]
      exact ⟨hfind, .inr hcompletes⟩
  · have hmatch := hf.matching
    rw [Run.Matches, hphase] at hmatch
    obtain ⟨hlsn, hpending⟩ := hmatch
    have hmatch' : r'.loop.checkpointLsn = checkpoint ∧
        r'.loop.pending = s.server.between checkpoint r'.pos := by
      refine ⟨hckpt.trans hlsn, ?_⟩
      rcases hcases with ⟨hpos, -, hpending'⟩ | ⟨hpos, -, -, hpending'⟩
      · rw [hpending', hpos, hpending, hlsn]
        exact (Log.between_next h.increasing hfind checkpoint).symm
      · rw [hpending', hpos, hpending]
    refine ⟨?_, ?_, hflush ▸ hf.flushLsn_le, ⟨hreported ▸ hf.reports.sorted, ?_⟩⟩
    · rcases hcases with ⟨hpos, -⟩ | ⟨hpos, -⟩
      · rw [hpos]
        exact h.le_wal t hmem
      · rw [hpos]
        exact hf.pos_le
    · rw [Run.Matches, hphase']
      cases due <;> exact hmatch'
    · rw [hreported, hflush]
      exact hf.reports.le

/-! ### The server's own steps -/

omit [DecidableEq ι] in
theorem commitTxn (h : Inv config fx base s) (ht : s.server.wal < t.endLsn) :
    Inv config fx base { s with server := { s.server with
      history := s.server.history ++ [t], wal := t.endLsn } } where
  increasing := Log.increasing_concat h.increasing fun t' ht' => (h.le_wal t' ht').trans_lt ht
  le_wal := by
    intro t' ht'
    rcases List.mem_append.mp ht' with ht' | ht'
    · exact (h.le_wal t' ht').trans ht.le
    · exact (List.mem_singleton.mp ht' ▸ le_rfl)
  row := by
    intro checkpoint hrow
    obtain ⟨hle, hbuilt⟩ := h.row checkpoint hrow
    refine ⟨hle.trans ht.le, ?_⟩
    rw [Server.upTo, Log.upTo_concat_of_lt (hle.trans_lt ht)]
    exact hbuilt
  slot := by
    intro slot hslot
    obtain ⟨hwal, hrow, hle, hopener, hfeedback⟩ := h.slot slot hslot
    exact ⟨hwal.trans ht.le, hrow, hle, hopener, hfeedback⟩
  sends := by
    intro d r hr t' payloads hsending
    obtain ⟨hfind, hpayloads⟩ := h.sends d r hr t' payloads hsending
    refine ⟨?_, hpayloads⟩
    rw [List.find?_append, hfind]
    rfl
  follows := by
    intro slot d r hslot ho hr
    obtain ⟨checkpoint, hrow, hpos, hmatch, hflush, hreports⟩ := h.follows slot d r hslot ho hr
    refine ⟨checkpoint, hrow, hpos.trans ht.le, ?_, hflush, hreports⟩
    have hbetween : Log.between SealedTxn.endLsn (s.server.history ++ [t]) checkpoint r.pos =
        s.server.between checkpoint r.pos := Log.between_concat_of_lt (hpos.trans_lt ht)
    rw [Run.Matches] at hmatch ⊢
    simp only [Server.between, hbetween]
    exact hmatch
  admin := h.admin.mono (fun hslot => ⟨hslot, rfl⟩) fun lsn _ _ hle =>
    ⟨rfl, rfl, hle.trans ht.le, Log.upTo_concat_of_lt (hle.trans_lt ht)⟩

omit [DecidableEq ι] in
theorem setSlot (h : Inv config fx base s) {slot slot' : Slot ι} (hslot : s.server.slot = some slot)
    (hopener : slot'.opener = slot.opener) (hwalsender : slot.walsender.isSome)
    (hok : SlotOk s.server slot → SlotOk s.server slot') :
    Inv config fx base (s.setSlot slot') where
  increasing := h.increasing
  le_wal := h.le_wal
  row := h.row
  sends := h.sends
  slot := by
    rintro _ ⟨⟩
    obtain ⟨hwal, hrow, hle, hopener, hfeedback⟩ := hok (h.slot slot hslot)
    exact ⟨hwal, hrow, hle, hopener, hfeedback⟩
  follows := by
    rintro _ d r ⟨⟩ ho hr
    obtain ⟨checkpoint, hrow, hpos, hmatch, hflush, hreports⟩ :=
      h.follows slot d r hslot (hopener ▸ ho) hr
    exact ⟨checkpoint, hrow, hpos, hmatch, hflush, hreports⟩
  admin := by
    refine h.admin.mono (fun hnone => ?_) fun lsn hnew => ?_
    · cases hnone.symm.trans hslot
    · cases hnew.symm.trans hslot
      cases hwalsender

omit [DecidableEq ι] in
theorem feedback (h : Inv config fx base s) {slot : Slot ι} {w : Walsender ι} {lsn : ℕ}
    {rest : List ℕ} (hslot : s.server.slot = some slot) (hw : slot.walsender = some w)
    (hlsn : w.feedback = lsn :: rest) : Inv config fx base
      (s.setSlot ({ slot with walsender := some { w with feedback := rest } }.confirm lsn)) := by
  refine h.setSlot hslot ?_ (by rw [hw]; rfl) fun hok => ?_
  · rw [Slot.confirm]
    split_ifs <;> rfl
  · have hrest : SlotOk s.server { slot with walsender := some { w with feedback := rest } } := by
      refine ⟨hok.confirmed_le_wal, hok.row_isSome, hok.confirmed_le, ?_, ?_⟩
      · rintro _ ⟨⟩
        exact hok.opener_eq w hw
      · rintro _ ⟨⟩ checkpoint hrow p hp
        exact hok.feedback_le w hw checkpoint hrow p (hlsn ▸ List.mem_cons_of_mem _ hp)
    rw [Slot.confirm]
    split_ifs
    · exact hrest
    · have hle : ∀ checkpoint, s.server.row = some checkpoint → lsn ≤ checkpoint :=
        fun checkpoint hrow => hok.feedback_le w hw checkpoint hrow lsn (hlsn ▸ List.mem_cons_self)
      obtain ⟨checkpoint, hrow⟩ :=
        Option.isSome_iff_exists.mp (hok.row_isSome w.owner (hok.opener_eq w hw))
      exact ⟨(hle checkpoint hrow).trans (h.row checkpoint hrow).1, hrest.row_isSome, hle,
        hrest.opener_eq, hrest.feedback_le⟩

omit [DecidableEq ι] in
theorem release (h : Inv config fx base s) {slot : Slot ι} {w : Walsender ι}
    (hslot : s.server.slot = some slot) (hw : slot.walsender = some w) :
    Inv config fx base (s.setSlot { slot with walsender := none }) := by
  refine h.setSlot hslot rfl (by rw [hw]; rfl) fun hok => ?_
  exact ⟨hok.confirmed_le_wal, hok.row_isSome, hok.confirmed_le, nofun, nofun⟩

/-! ### Steps of a daemon on the server -/

theorem openStream (h : Inv config fx base s) {checkpoint confirmed pid : ℕ} {opener : Option ι}
    (hslot : s.server.slot = some ⟨confirmed, opener, none⟩)
    (hrow : s.server.row = some checkpoint) : Inv config fx base
      ((s.setSlot ⟨confirmed, some d, some ⟨pid, d, []⟩⟩).setDaemon d
        (.streaming (.start checkpoint confirmed))) where
  increasing := h.increasing
  le_wal := h.le_wal
  row := h.row
  slot := by
    rintro _ ⟨⟩
    have hok := h.slot _ hslot
    refine ⟨hok.confirmed_le_wal, ?_, hok.confirmed_le, ?_, ?_⟩
    · rintro _ ⟨⟩
      exact Option.isSome_iff_exists.mpr ⟨checkpoint, hrow⟩
    · rintro _ ⟨⟩
      rfl
    · rintro _ ⟨⟩ _ _ _ ⟨⟩
  sends := by
    intro d' r hr
    by_cases hd : d' = d
    · subst hd
      simp only [Sys.setDaemon, Function.update_self, Process.streaming.injEq] at hr
      subst hr
      exact nofun
    · exact h.sends d' r (by simpa [Sys.setDaemon, Sys.setSlot, hd] using hr)
  follows := by
    rintro _ d' r ⟨⟩ ⟨⟩ hr
    simp only [Sys.setDaemon, Function.update_self, Process.streaming.injEq] at hr
    subst hr
    have hok := h.slot _ hslot
    refine ⟨checkpoint, hrow, hok.confirmed_le_wal, ⟨rfl, ?_⟩, Nat.zero_le _, ⟨.nil, nofun⟩⟩
    exact (Log.between_eq_nil (hok.confirmed_le checkpoint hrow)).symm
  admin := by
    refine h.admin.mono (fun hnone => ?_) fun lsn _ hnone => ?_
    · cases hnone.symm.trans hslot
    · cases hnone.symm.trans hrow

omit [PyFloat F] [DecidableEq F] [DecidableEq ι] in
theorem flush_ok {server server' : Server ι T F} {pending : List (SealedTxn F)} {endLsn : ℕ}
    (h : server.flush fx pending = .ok (server', endLsn)) :
    ∃ targets t, fx.flush (pending.flatMap SealedTxn.ops) server.targets = .ok targets ∧
      pending.getLast? = some t ∧ t.endLsn = endLsn ∧
      server' = { server with targets := targets, checkpoint := some (some endLsn) } := by
  obtain ⟨targets, htargets, h⟩ := Except.bind_eq_ok.mp h
  cases hlast : pending.getLast? with
  | none =>
    rw [hlast] at h
    cases h
  | some t =>
    rw [hlast] at h
    obtain ⟨server'', hwrite, h⟩ := Except.bind_eq_ok.mp h
    cases Except.pure_eq_ok.mp h
    refine ⟨targets, t, htargets, rfl, rfl, ?_⟩
    exact Bootstrap.writeCheckpoint_ok hwrite

theorem flush (h : Inv config fx base s) {r : Run F} (hr : s.daemons d = .streaming r) {last : Bool}
    (hphase : r.phase = .flushing last) {slot : Slot ι} (hslot : s.server.slot = some slot)
    (ho : slot.opener = some d) {server : Server ι T F} {endLsn : ℕ}
    (hflush : s.server.flush fx r.loop.pending = .ok (server, endLsn)) :
    Inv config fx base { s.setDaemon d (.streaming { r with phase := .committed endLsn last }) with
      server := server } := by
  obtain ⟨targets, t, hrun, hlast, rfl, rfl⟩ := flush_ok hflush
  obtain ⟨checkpoint, hrow, hf⟩ := h.follows slot d r hslot ho hr
  have hmatch := hf.matching
  rw [Run.Matches, hphase] at hmatch
  obtain ⟨-, hpending⟩ := hmatch
  rw [hpending] at hlast
  obtain ⟨hlt, hcut, hnil⟩ := Log.between_of_getLast? h.increasing hlast
  have hmem : t ∈ s.server.history := (Log.mem_between.mp (List.mem_of_getLast? hlast)).1
  have hok := h.slot slot hslot
  exact {
    increasing := h.increasing
    le_wal := h.le_wal
    row := by
      rintro _ ⟨⟩
      refine ⟨h.le_wal t hmem, ?_⟩
      -- the pending transactions are all there is from the checkpoint to the last of them
      have hupTo : s.server.upTo t.endLsn = s.server.upTo checkpoint ++ r.loop.pending := by
        rw [hpending, Server.between, ← hcut]
        exact Log.upTo_eq_between_append h.increasing hlt.le
      change Built fx base (s.server.upTo t.endLsn) targets
      rw [hupTo]
      exact (h.row checkpoint hrow).2.flush hrun
    slot := by
      intro slot' hslot'
      cases hslot.symm.trans hslot'
      refine ⟨hok.confirmed_le_wal, fun _ _ => rfl, ?_, hok.opener_eq, ?_⟩
      · rintro _ ⟨⟩
        exact (hok.confirmed_le checkpoint hrow).trans hlt.le
      · rintro w hw _ ⟨⟩ p hp
        exact (hok.feedback_le w hw checkpoint hrow p hp).trans hlt.le
    sends := by
      intro d' r' hr'
      by_cases hd : d' = d
      · subst hd
        simp only [Sys.setDaemon, Function.update_self, Process.streaming.injEq] at hr'
        subst hr'
        exact h.sends d' r hr
      · exact h.sends d' r' (by simpa [Sys.setDaemon, hd] using hr')
    follows := by
      intro slot' d' r' hslot' ho' hr'
      cases hslot.symm.trans hslot'
      cases ho.symm.trans ho'
      simp only [Sys.setDaemon, Function.update_self, Process.streaming.injEq] at hr'
      subst hr'
      exact ⟨t.endLsn, rfl, hf.pos_le, ⟨rfl, hnil⟩, hf.flushLsn_le.trans hlt.le,
        ⟨hf.reports.sorted, hf.reports.le⟩⟩
    admin := by
      refine h.admin.mono (fun hnone => ?_) fun lsn _ hnone => ?_
      · cases hnone.symm.trans hslot
      · cases hnone.symm.trans hrow }

theorem startFlush (h : Inv config fx base s) {r : Run F} (hr : s.daemons d = .streaming r)
    (hphase : r.phase = .receiving) (last : Bool) :
    Inv config fx base (s.setDaemon d (.streaming { r with phase := .flushing last })) := by
  refine h.setRun hr (fun hsends => hsends) fun checkpoint _ hf => ?_
  have hmatch := hf.matching
  rw [Run.Matches, hphase] at hmatch
  exact ⟨hf.pos_le, hmatch, hf.flushLsn_le, hf.reports.sorted, hf.reports.le⟩

omit [PyFloat F] [DecidableEq F] in
theorem report_cases (slot : Option (Slot ι)) (d : ι) (lsn : ℕ) :
    slot.map (·.report d lsn) = slot ∨ ∃ slot' w, slot = some slot' ∧ slot'.walsender = some w ∧
      w.owner = d ∧ slot.map (·.report d lsn) =
        some { slot' with walsender := some { w with feedback := w.feedback ++ [lsn] } } := by
  cases slot with
  | none => exact .inl rfl
  | some slot =>
    cases hw : slot.walsender with
    | none => exact .inl (by simp [Slot.report, hw])
    | some w =>
      by_cases hd : w.owner = d
      · exact .inr ⟨slot, w, rfl, hw, hd, by simp [Slot.report, hw, hd]⟩
      · exact .inl (by simp [Slot.report, hw, hd])

theorem report (h : Inv config fx base s) {r : Run F} (hr : s.daemons d = .streaming r) {lsn : ℕ}
    {phase : Phase} (hle : ∀ checkpoint, Follows s.server r checkpoint → r.flushLsn ≤ lsn ∧
      lsn ≤ checkpoint ∧ ({ r with phase := phase } : Run F).Matches s.server checkpoint) :
    Inv config fx base { s.setDaemon d (.streaming { r.report lsn with phase := phase }) with
      server := { s.server with slot := s.server.slot.map (·.report d lsn) } } := by
  have h' : Inv config fx base (s.setDaemon d (.streaming
      { r.report lsn with phase := phase })) := by
    refine h.setRun hr (fun hsends => hsends) fun checkpoint _ hf => ?_
    obtain ⟨hge, hle, hmatch⟩ := hle checkpoint hf
    refine ⟨hf.pos_le, hmatch, hle, ⟨?_, ?_⟩⟩
    · refine List.pairwise_append.mpr ⟨hf.reports.sorted, List.pairwise_singleton _ _, ?_⟩
      intro p hp _ hlsn
      rw [List.mem_singleton.mp hlsn]
      exact (hf.reports.le p hp).trans hge
    · intro p hp
      rcases List.mem_append.mp hp with hp | hp
      · exact (hf.reports.le p hp).trans hge
      · exact (List.mem_singleton.mp hp).le
  -- the report reaches the server only through a walsender of this daemon
  rcases report_cases s.server.slot d lsn with heq | ⟨slot, w, hslot, hw, hd, heq⟩
  · rw [heq]
    exact h'
  · rw [heq]
    refine h'.setSlot hslot rfl (by rw [hw]; rfl) fun hok => ?_
    refine ⟨hok.confirmed_le_wal, hok.row_isSome, hok.confirmed_le, ?_, ?_⟩
    · rintro _ ⟨⟩
      exact hok.opener_eq w hw
    · rintro _ ⟨⟩ checkpoint hrow p hp
      rcases List.mem_append.mp hp with hp | hp
      · exact hok.feedback_le w hw checkpoint hrow p hp
      · obtain ⟨checkpoint', hrow', hf⟩ := h.follows slot d r hslot (hd ▸ hok.opener_eq w hw) hr
        cases hrow'.symm.trans hrow
        rw [List.mem_singleton.mp hp]
        exact (hle checkpoint hf).2.1

end Inv

end WalFlux
