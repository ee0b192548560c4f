import WalFlux.Daemon.FlushLoop
import WalFlux.System.ExactlyOnce

/-! Each daemon of the system runs `_loop`: whatever the others do, from the checkpoint it read its
variables are those of the iterations it has made on what the server sent it. -/

namespace WalFlux

open Aggregates Protocol

variable {ι T F : Type} [PyFloat F] {config : Config} {fx : Effects T F}

/-! ### A diary -/

/-- What a daemon has done since it read the checkpoint: the payloads sent to it, the items its loop
took, and the transactions that its loop flushed. -/
structure Diary (F : Type) where
  checkpoint : ℕ
  served : List (List UInt8)
  items : List Daemon.Item
  flushed : List (SealedTxn F)

def Diary.start (checkpoint : ℕ) : Diary F := ⟨checkpoint, [], [], []⟩

def Process.run? : Process F → Option (Run F)
  | .streaming r => some r
  | _ => none

def Run.unread (r : Run F) : List (List UInt8) := (r.sending.map Prod.snd).getD []

def Run.item (r : Run F) (now later : ℚ) : Option Daemon.Item :=
  match r.unread with
  | [] => none
  | payload :: _ => (decodeMessage payload).toOption.map (.message · now later)

def Run.inFlush (r : Run F) : List (SealedTxn F) :=
  match r.phase with
  | .flushing false => r.loop.pending
  | _ => []

/-- The variables with which the next iteration starts, once what is still to be done of a flush is
done; the last flush of a graceful stop comes after all iterations. -/
def Run.variables (r : Run F) : Daemon.Loop F :=
  match r.phase with
  | .flushing false => r.loop.flush.1
  | .committed endLsn false | .acked endLsn false => r.loop.flushed endLsn
  | _ => r.loop

def Action.daemon? : Action ι F → Option ι
  | .start d | .readCheckpoint d | .openStream d _ | .crash d => some d
  | a => a.runner?

def Diary.next (w : Diary F) (row : Option ℕ) (p : Process F) : Action ι F → Diary F
  | .readCheckpoint _ => (row.map .start).getD w
  | .serve _ payloads => { w with served := w.served ++ payloads }
  | .receive _ now later => { w with items := w.items ++ (p.run?.bind (·.item now later)).toList }
  | .wake _ => { w with items := w.items ++ [.wake] }
  | .flush _ => { w with flushed := w.flushed ++ (p.run?.map Run.inFlush).getD [] }
  | _ => w

/-! ### What the diary says of the variables -/

/-- The loop went through the items to the variables of the run, and handed its flushes the
transactions; its messages are those sent, up to what is unread. -/
structure Diary.Tells (config : Config) (w : Diary F) (r : Run F) : Prop where
  loop : Daemon.loop config w.checkpoint w.items = .ok (r.variables, w.flushed ++ r.inFlush)
  read : ∃ received, w.served = received ++ r.unread ∧
    received.mapM decodeMessage = .ok (Daemon.messages w.items)

def Diary.Fits (config : Config) (w : Diary F) : Process F → Prop
  | .ready checkpoint => w = .start checkpoint
  | .streaming r => w.Tells config r
  | _ => True

omit [PyFloat F] in
theorem flush_snd (l : Daemon.Loop F) : l.flush.2 = l.pending := by
  rw [Daemon.Loop.flush]
  cases hlast : l.pending.getLast? with
  | none => exact (List.getLast?_eq_none_iff.mp hlast).symm
  | some t => rfl

theorem loop_concat {checkpoint : ℕ} {items : List Daemon.Item} {item : Daemon.Item}
    {p p' : Daemon.Loop F × List (SealedTxn F)} (h : Daemon.loop config checkpoint items = .ok p)
    (hitem : Daemon.iterate config p item = .ok p') :
    Daemon.loop config checkpoint (items ++ [item]) = .ok p' := by
  rw [Daemon.loop, Except.foldlM_append_eq_ok]
  exact ⟨p, h, by rw [List.foldlM_cons, hitem]; rfl⟩

namespace Diary

variable {w : Diary F} {r r' : Run F}

theorem tells_start (config : Config) (checkpoint confirmed : ℕ) :
    (start checkpoint : Diary F).Tells config (.start checkpoint confirmed) := ⟨rfl, [], rfl, rfl⟩

theorem Tells.same (h : w.Tells config r) (hvariables : r'.variables = r.variables)
    (hflush : r'.inFlush = r.inFlush) (hunread : r'.unread = r.unread) : w.Tells config r' where
  loop := by rw [hvariables, hflush, h.loop]
  read := by
    rw [hunread]
    exact h.read

theorem Tells.receiving (h : w.Tells config r) (hphase : r.phase = .receiving) :
    Daemon.loop config w.checkpoint w.items = .ok (r.loop, w.flushed) := by
  have hloop := h.loop
  rw [Run.variables, Run.inFlush, hphase] at hloop
  rwa [List.append_nil] at hloop

theorem Tells.serve (h : w.Tells config r) (hsending : r.sending = none) (t : SealedTxn F)
    (payloads : List (List UInt8)) :
    ({ w with served := w.served ++ payloads } : Diary F).Tells config
      { r with sending := some (t, payloads) } where
  loop := h.loop
  read := by
    obtain ⟨received, hserved, hread⟩ := h.read
    refine ⟨received, ?_, hread⟩
    rw [hserved, Run.unread, hsending]
    simp [Run.unread]

theorem Tells.receive (h : w.Tells config r) (hphase : r.phase = .receiving) {t : SealedTxn F}
    {payload : List UInt8} {rest : List (List UInt8)} {now later : ℚ}
    (hsending : r.sending = some (t, payload :: rest))
    (hreceive : r.receive config t payload rest now later = some r') :
    ({ w with items := w.items ++ (r.item now later).toList } : Diary F).Tells config r' := by
  have hunread : r.unread = payload :: rest := by rw [Run.unread, hsending]; rfl
  rw [Run.receive] at hreceive
  cases hm : decodeMessage payload with
  | error e => simp [hm] at hreceive
  | ok m =>
    cases hl : r.loop.handle config m now with
    | error e => simp [hm, hl] at hreceive
    | ok l =>
      cases hdue : l.due config later with
      | error e => simp [hm, hl, hdue] at hreceive
      | ok due =>
        simp only [hm, hl, hdue, Option.some.injEq] at hreceive
        subst hreceive
        have hitem : r.item now later = some (.message m now later) := by
          rw [Run.item, hunread]
          dsimp only
          rw [hm]
          rfl
        have hiterate : Daemon.iterate config (r.loop, w.flushed) (.message m now later) =
            .ok (if due then l.flush.1 else l, w.flushed ++ if due then l.pending else []) := by
          rw [Daemon.iterate, hl]
          change (l.due config later >>= _) = _
          rw [hdue]
          cases due with
          | true => exact congrArg (fun ts => Except.ok (l.flush.1, w.flushed ++ ts)) (flush_snd l)
          | false => exact congrArg (fun ts => Except.ok (l, ts)) (List.append_nil _).symm
        have hloop := loop_concat (h.receiving hphase) hiterate
        rw [hitem]
        refine ⟨?_, ?_⟩
        · cases due with
          | true => exact hloop
          | false => exact hloop
        · obtain ⟨received, hserved, hread⟩ := h.read
          refine ⟨received ++ [payload], ?_, ?_⟩
          · rw [hserved, hunread, List.append_assoc]
            cases rest <;> rfl
          · rw [Except.mapM_eq_ok] at hread ⊢
            rw [Daemon.messages, List.filterMap_append]
            exact List.rel_append hread (.cons hm .nil)

theorem Tells.wake (h : w.Tells config r) (hphase : r.phase = .receiving)
    (hvariables : r'.variables = r.loop.flush.1) (hflush : r'.inFlush = r.loop.pending)
    (hunread : r'.unread = r.unread) :
    ({ w with items := w.items ++ [.wake] } : Diary F).Tells config r' where
  loop := by
    rw [hvariables, hflush, ← flush_snd]
    exact loop_concat (h.receiving hphase) rfl
  read := by
    rw [hunread, Daemon.messages, List.filterMap_append]
    change ∃ received, _ ∧ _ = Except.ok (Daemon.messages w.items ++ [])
    rw [List.append_nil]
    exact h.read

theorem Tells.flush (h : w.Tells config r) {last : Bool} (hphase : r.phase = .flushing last)
    {s server : Server ι T F} {endLsn : ℕ} (hflush : s.flush fx r.loop.pending =
      .ok (server, endLsn)) :
    ({ w with flushed := w.flushed ++ r.inFlush } : Diary F).Tells config
      { r with phase := .committed endLsn last } where
  loop := by
    have hloop := h.loop
    obtain ⟨-, t, -, ht, hend, -⟩ := Inv.flush_ok hflush
    cases last with
    | true =>
      rw [Run.variables, hphase] at hloop
      rw [hloop]
      exact congrArg (fun ts => Except.ok (r.loop, ts)) (List.append_nil _).symm
    | false =>
      rw [Run.variables, hphase] at hloop
      change _ = Except.ok (r.loop.flushed endLsn, (w.flushed ++ r.inFlush) ++ [])
      rw [List.append_nil, ← Daemon.Control.flush_eq ht hend, hloop]
  read := h.read

end Diary

namespace Sys

variable [DecidableEq F] [DecidableEq ι] {s s' : Sys ι T F} {d : ι} {w w' : Diary F}

def record (config : Config) (fx : Effects T F) (d : ι) :
    Sys ι T F × Diary F → List (Action ι F) → Option (Sys ι T F × Diary F)
  | p, [] => some p
  | (s, w), a :: as => (step config fx s a).bind fun s' =>
    record config fx d
      (s', if a.daemon? = some d then w.next s.server.row (s.daemons d) a else w) as

theorem record_fst (actions : List (Action ι F)) :
    (record config fx d (s, w) actions).map Prod.fst = runActions config fx s actions := by
  induction actions generalizing s w with
  | nil => rfl
  | cons a actions ih =>
    unfold record runActions
    cases step config fx s a with
    | none => rfl
    | some s' => exact ih

theorem step_daemons {a : Action ι F} (hd : a.daemon? ≠ some d)
    (hstep : step config fx s a = some s') : s'.daemons d = s.daemons d := by
  have hother : ∀ (d' : ι) (p : Process F), a.daemon? = some d' →
      (s.setDaemon d' p).daemons d = s.daemons d := fun d' p ha =>
    Function.update_of_ne (fun h => hd (ha.trans (congrArg some h.symm))) _ _
  have hrun : ∀ d', a.runner? = some d' → s'.daemons d = s.daemons d := by
    intro d' hrunner
    obtain ⟨r, server, p, -, rfl, -⟩ := step_run hrunner hstep
    refine hother d' p ?_
    cases a <;> first | exact hrunner | cases hrunner
  -- a daemon's own actions change that daemon, all others leave it alone
  cases a with
  | start d' =>
    rw [step] at hstep
    split at hstep <;> cases hstep
    exact hother d' _ rfl
  | readCheckpoint d' =>
    rw [step] at hstep
    split at hstep <;> cases hstep <;> exact hother d' _ rfl
  | openStream d' pid =>
    rw [step] at hstep
    split at hstep
    · split at hstep <;> cases hstep <;> exact hother d' _ rfl
    · cases hstep
  | crash d' =>
    cases hstep
    exact hother d' _ rfl
  | commitTxn t =>
    rw [step] at hstep
    split_ifs at hstep
    cases hstep
    rfl
  | feedback =>
    obtain ⟨slot, -, hstep⟩ := Option.bind_eq_some_iff.mp hstep
    obtain ⟨w, -, hstep⟩ := Option.bind_eq_some_iff.mp hstep
    split at hstep <;> cases hstep
    rfl
  | release =>
    obtain ⟨slot, -, hstep⟩ := Option.bind_eq_some_iff.mp hstep
    obtain ⟨w, -, hstep⟩ := Option.bind_eq_some_iff.mp hstep
    cases hstep
    rfl
  | startSetup force =>
    rw [step] at hstep
    split_ifs at hstep
    cases hstep
    rfl
  | setupStep reply =>
    rw [step] at hstep
    split at hstep
    · split_ifs at hstep
      cases hstep
      rfl
    · cases hstep
  | startTeardown =>
    rw [step] at hstep
    split_ifs at hstep
    cases hstep
    rfl
  | teardownStep fault =>
    rw [step] at hstep
    split at hstep
    · cases hstep
      rfl
    · cases hstep
  | crashAdmin =>
    cases hstep
    rfl
  | _ => exact hrun _ rfl

omit [DecidableEq F] in
theorem fits_withRun {f : Run F → Option (Server ι T F × Process F)}
    (h : w.Fits config (s.daemons d)) (hf : ∀ r server p, s.daemons d = .streaming r →
      w.Tells config r → f r = some (server, p) →
      w'.Fits config p)
    (hstep : s.withRun d f = some s') : w'.Fits config (s'.daemons d) := by
  obtain ⟨r, server, p, hr, hp, rfl⟩ := withRun_eq_some.mp hstep
  rw [hr] at h
  change w'.Fits config (Function.update s.daemons d p d)
  rw [Function.update_self]
  exact hf r server p hr h hp

theorem step_fits {a : Action ι F} (h : w.Fits config (s.daemons d)) (hd : a.daemon? = some d)
    (hstep : step config fx s a = some s') :
    (w.next s.server.row (s.daemons d) a).Fits config (s'.daemons d) := by
  have hself : ∀ (p : Process F), (s.setDaemon d p).daemons d = p := fun p =>
    Function.update_self ..
  cases a with
  | start d' =>
    cases hd
    rw [step] at hstep
    split at hstep <;> cases hstep
    rw [hself]
    trivial
  | readCheckpoint d' =>
    cases hd
    rw [step] at hstep
    split at hstep
    · rename_i checkpoint _ hrow
      cases hstep
      rw [hself, Diary.next, hrow]
      rfl
    · cases hstep
      rw [hself]
      trivial
    · cases hstep
  | openStream d' pid =>
    cases hd
    rw [step] at hstep
    split at hstep
    · rename_i checkpoint hready
      rw [hready] at h
      split at hstep <;> cases hstep
      · change Diary.Fits config w (Function.update s.daemons d _ d)
        rw [Function.update_self, h]
        exact Diary.tells_start config checkpoint _
      · rw [hself]
        trivial
    · cases hstep
  | crash d' =>
    cases hd
    cases hstep
    rw [hself]
    trivial
  | serve d' payloads =>
    cases hd
    refine fits_withRun h (fun r server p hr htells hf => ?_) hstep
    split at hf
    · rename_i hsending
      split at hf
      · split_ifs at hf
        cases hf
        exact htells.serve hsending _ payloads
      · cases hf
    · cases hf
  | receive d' now later =>
    cases hd
    refine fits_withRun h (fun r server p hr htells hf => ?_) hstep
    split at hf
    · rename_i t payload rest hsending
      split_ifs at hf with hphase
      cases hreceive : r.receive config t payload rest now later with
      | none =>
        rw [hreceive] at hf
        cases hf
        trivial
      | some r₁ =>
        rw [hreceive] at hf
        cases hf
        rw [hr]
        exact htells.receive hphase.1 hsending hreceive
    · cases hf
  | wake d' =>
    cases hd
    refine fits_withRun h (fun r server p hr htells hf => ?_) hstep
    split_ifs at hf with hphase hnil
    · cases hf
      refine htells.wake hphase.1 ?_ ?_ rfl
      · rw [Run.variables, hphase.1, Daemon.Loop.flush, hnil]
        rfl
      · rw [Run.inFlush, hphase.1, hnil]
    · cases hf
      exact htells.wake hphase.1 rfl rfl rfl
  | keepalive d' =>
    cases hd
    refine fits_withRun h (fun r server p hr htells hf => ?_) hstep
    split_ifs at hf
    cases hf
    exact htells.same rfl rfl rfl
  | requestStop d' =>
    cases hd
    refine fits_withRun h (fun r server p hr htells hf => ?_) hstep
    cases hf
    exact htells.same rfl rfl rfl
  | leaveLoop d' =>
    cases hd
    refine fits_withRun h (fun r server p hr htells hf => ?_) hstep
    split_ifs at hf with hphase hnil
    · cases hf
      trivial
    · cases hf
      refine htells.same ?_ ?_ rfl
      · rw [Run.variables, Run.variables, hphase.1]
      · rw [Run.inFlush, Run.inFlush, hphase.1]
  | flush d' =>
    cases hd
    refine fits_withRun h (fun r server p hr htells hf => ?_) hstep
    split at hf
    · rename_i last hphase
      cases hflush : s.server.flush fx r.loop.pending with
      | error e =>
        rw [hflush] at hf
        cases hf
        trivial
      | ok q =>
        rw [hflush] at hf
        cases hf
        rw [hr]
        exact htells.flush hphase hflush
    · cases hf
  | ack d' =>
    cases hd
    refine fits_withRun h (fun r server p hr htells hf => ?_) hstep
    split at hf
    · rename_i endLsn last hphase
      cases hf
      refine htells.same ?_ ?_ rfl
      · rw [Run.variables, Run.variables, hphase]
        cases last <;> rfl
      · rw [Run.inFlush, Run.inFlush, hphase]
    · cases hf
  | remember d' =>
    cases hd
    refine fits_withRun h (fun r server p hr htells hf => ?_) hstep
    split at hf
    · rename_i endLsn last hphase
      cases last with
      | true =>
        cases hf
        trivial
      | false =>
        cases hf
        refine htells.same ?_ ?_ rfl
        · rw [Run.variables, Run.variables, hphase]
        · rw [Run.inFlush, Run.inFlush, hphase]
    · cases hf
  | _ => cases hd

theorem record_fits {actions : List (Action ι F)} (h : w.Fits config (s.daemons d))
    (hrun : record config fx d (s, w) actions = some (s', w')) : w'.Fits config (s'.daemons d) := by
  induction actions generalizing s w with
  | nil =>
    cases hrun
    exact h
  | cons a actions ih =>
    obtain ⟨t, hstep, hrun⟩ := Option.bind_eq_some_iff.mp hrun
    refine ih ?_ hrun
    split_ifs with hd
    · exact step_fits h hd hstep
    · rw [step_daemons hd hstep]
      exact h

end Sys

/-- In every interleaving, of any number of daemons, crashes, setups and teardowns, a daemon that
reads its stream has the variables of `_loop` from the checkpoint it read, on the items it took.
What the loop handed to flushes is committed or about to be; its messages are those the server sent,
up to the unread ones. -/
theorem daemons_run_loop [DecidableEq F] [DecidableEq ι] {server : Server ι T F}
    {actions : List (Action ι F)} {s : Sys ι T F}
    (hrun : Sys.runActions config fx (.init server) actions = some s) {d : ι} {r : Run F}
    (hr : s.daemons d = .streaming r) :
    ∃ w, Sys.record config fx d (.init server, .start 0) actions = some (s, w) ∧
      Daemon.loop config w.checkpoint w.items = .ok (r.variables, w.flushed ++ r.inFlush) ∧
      ∃ received, w.served = received ++ r.unread ∧
        received.mapM decodeMessage = .ok (Daemon.messages w.items) := by
  rw [← Sys.record_fst (d := d) (w := .start 0)] at hrun
  obtain ⟨⟨s, w⟩, hrecord, rfl⟩ := Option.map_eq_some_iff.mp hrun
  have hdown : Diary.Fits config (.start 0) ((Sys.init server : Sys ι T F).daemons d) := trivial
  have hfits := Sys.record_fits hdown hrecord
  rw [hr] at hfits
  exact ⟨w, hrecord, hfits.loop, hfits.read⟩

omit [PyFloat F] in
theorem Process.run?_eq_some {p : Process F} {r : Run F} : p.run? = some r ↔ p = .streaming r := by
  cases p <;> simp [Process.run?]

def secondActions : List (Action Unit Empty) := sampleActions () ++
  [.ack (), .remember (), .commitTxn (sampleTxn 30), .serve () (samplePayloads 30)] ++
  sampleReceives ()

theorem daemons_run_loop_flush : ∃ (s : Sys Unit (List (Op Empty)) Empty) (r : Run Empty),
    s.daemons () = .streaming r ∧ r.phase = .flushing false ∧ ∃ items received,
      Daemon.loop Bootstrap.sampleConfig 10 items = .ok (r.variables,
        [sampleTxn 20, sampleTxn 30]) ∧
      samplePayloads 20 ++ samplePayloads 30 = received ++ r.unread ∧
      received.mapM decodeMessage = .ok (Daemon.messages items) := by
  let run := Sys.record Bootstrap.sampleConfig recordOps () (.init sampleServer, .start 0)
    secondActions
  have hrun : run.map (fun p => (p.1.daemons ()).run?.map fun r => (r.phase, r.inFlush)) =
      some (some (.flushing false, [sampleTxn 30])) := by decide +kernel
  have hdiary : run.map (fun p => (p.2.checkpoint, p.2.served, p.2.flushed)) =
      some (10, samplePayloads 20 ++ samplePayloads 30, [sampleTxn 20]) := by decide +kernel
  obtain ⟨⟨s, w⟩, hs, hdaemon⟩ := Option.map_eq_some_iff.mp hrun
  rw [hs, Option.map_some, Option.some.injEq] at hdiary
  obtain ⟨hcheckpoint, hdiary⟩ := Prod.mk.inj hdiary
  obtain ⟨hserved, hflushed⟩ := Prod.mk.inj hdiary
  obtain ⟨r, hr, hphase⟩ := Option.map_eq_some_iff.mp hdaemon
  obtain ⟨hphase, hinFlush⟩ := Prod.mk.inj hphase
  have hr := Process.run?_eq_some.mp hr
  have hactions : Sys.runActions Bootstrap.sampleConfig recordOps (.init sampleServer)
      secondActions = some s := by
    rw [← Sys.record_fst, show Sys.record _ _ _ _ _ = some (s, w) from hs]
    rfl
  obtain ⟨w', hw', hloop, received, hread, hdecode⟩ := daemons_run_loop hactions hr
  cases Option.some.inj (hs.symm.trans hw')
  rw [hcheckpoint, hflushed, hinFlush] at hloop
  rw [hserved] at hread
  exact ⟨s, r, hr, hphase, w.items, received, hloop, hread, hdecode⟩

end WalFlux
