import WalFlux.System.Preservation

/-! Runs with one process at a time: such a run opens every stream at the durable checkpoint, and
only the daemon that runs can flush. -/

namespace WalFlux

open Aggregates

variable {ι T F : Type} [PyFloat F] [DecidableEq F] {config : Config} {fx : Effects T F}
  {base : List (SealedTxn F) → T → Prop}

/-! ### Runs -/

def Action.isAdmin : Action ι F → Bool
  | .startSetup _ | .setupStep _ | .startTeardown | .teardownStep _ | .crashAdmin => true
  | _ => false

namespace Sys

/-- A process starts when no other one is up. A walsender may have outlived its daemon. -/
def Sequential (s : Sys ι T F) : Action ι F → Prop
  | .start _ | .startSetup _ | .startTeardown => (∀ d, s.daemons d = .down) ∧ s.admin = none
  | _ => True

instance (p : Process F) : Decidable (p = .down) :=
  match p with
  | .down => .isTrue rfl
  | .connected | .ready _ | .streaming _ => .isFalse nofun

instance [Fintype ι] (s : Sys ι T F) : (a : Action ι F) → Decidable (s.Sequential a)
  | .start _ | .startSetup _ | .startTeardown =>
    inferInstanceAs (Decidable ((∀ d, s.daemons d = .down) ∧ s.admin = none))
  | .commitTxn _ | .feedback | .release | .readCheckpoint _ | .openStream _ _ | .serve _ _
  | .receive _ _ _ | .wake _ | .keepalive _ | .requestStop _ | .leaveLoop _ | .flush _ | .ack _
  | .remember _ | .crash _ | .setupStep _ | .teardownStep _ | .crashAdmin => .isTrue trivial

variable [DecidableEq ι]

theorem Steps.invariant {P : Sys ι T F → Action ι F → Prop} {I : Sys ι T F → Prop}
    {s s' : Sys ι T F} (h : Steps config fx P s s') (hI : I s)
    (hstep : ∀ s a s', I s → P s a → step config fx s a = some s' → I s') : I s' := by
  induction h with
  | refl => exact hI
  | tail _ hp ha ih => exact hstep _ _ _ ih hp ha

theorem Steps.head {P : Sys ι T F → Action ι F → Prop} {s t u : Sys ι T F} {a : Action ι F}
    (hp : P s a) (ha : step config fx s a = some t) (h : Steps config fx P t u) :
    Steps config fx P s u := by
  induction h with
  | refl => exact .tail (.refl s) hp ha
  | tail _ hp' ha' ih => exact .tail ih hp' ha'

def runActions (config : Config) (fx : Effects T F) :
    Sys ι T F → List (Action ι F) → Option (Sys ι T F)
  | s, [] => some s
  | s, a :: as => (step config fx s a).bind fun s => runActions config fx s as

def runAllowed (P : Sys ι T F → Action ι F → Prop) [∀ s a, Decidable (P s a)] (config : Config)
    (fx : Effects T F) : Sys ι T F → List (Action ι F) → Option (Sys ι T F)
  | s, [] => some s
  | s, a :: as =>
    if P s a then (step config fx s a).bind fun s => runAllowed P config fx s as else none

theorem steps_of_runAllowed {P : Sys ι T F → Action ι F → Prop} [∀ s a, Decidable (P s a)]
    {s s' : Sys ι T F} {as : List (Action ι F)} (h : runAllowed P config fx s as = some s') :
    Steps config fx P s s' := by
  induction as generalizing s with
  | nil =>
    cases h
    exact .refl _
  | cons a as ih =>
    rw [runAllowed] at h
    split_ifs at h with hp
    obtain ⟨t, ha, h⟩ := Option.bind_eq_some_iff.mp h
    exact .head hp ha (ih h)

end Sys

theorem Slot.confirm_opener (slot : Slot ι) (lsn : ℕ) :
    (slot.confirm lsn).opener = slot.opener := by
  rw [Slot.confirm]
  split_ifs <;> rfl

theorem Slot.report_opener [DecidableEq ι] (slot : Slot ι) (d : ι) (lsn : ℕ) :
    (slot.report d lsn).opener = slot.opener := by
  rw [Slot.report]
  split
  · split_ifs <;> rfl
  · rfl

def Action.runner? : Action ι F → Option ι
  | .serve d _ | .receive d _ _ | .wake d | .keepalive d | .requestStop d | .leaveLoop d | .flush d
  | .ack d | .remember d => some d
  | _ => none

theorem Sys.step_run [DecidableEq ι] {s s' : Sys ι T F} {a : Action ι F} {d : ι}
    (hd : a.runner? = some d) (h : Sys.step config fx s a = some s') :
    ∃ r server p, s.daemons d = .streaming r ∧ s' = { s.setDaemon d p with server := server } ∧
      (∀ checkpoint, p ≠ .ready checkpoint) ∧
      ((∃ last endLsn, a = .flush d ∧ r.phase = .flushing last ∧
          s.server.flush fx r.loop.pending = .ok (server, endLsn)) ∨
        ∃ slot, server = { s.server with slot := slot } ∧
          slot.map Slot.opener = s.server.slot.map Slot.opener) := by
  have hreport : ∀ lsn, (s.server.slot.map (·.report d lsn)).map Slot.opener =
      s.server.slot.map Slot.opener := by
    intro lsn
    rw [Option.map_map]
    congr 1
    funext slot
    exact Slot.report_opener slot d lsn
  -- only the flush changes more of the server than its slot
  cases a with
  | serve d' payloads =>
    cases hd
    obtain ⟨r, server, p, hr, hf, rfl⟩ := Sys.withRun_eq_some.mp h
    split at hf
    · split at hf
      · split_ifs at hf
        cases hf
        exact ⟨r, _, _, hr, rfl, by simp, .inr ⟨_, rfl, rfl⟩⟩
      · cases hf
    · cases hf
  | receive d' now later =>
    cases hd
    obtain ⟨r, server, p, hr, hf, rfl⟩ := Sys.withRun_eq_some.mp h
    split at hf
    · split_ifs at hf
      cases hf
      refine ⟨r, _, _, hr, rfl, fun checkpoint => ?_, .inr ⟨_, rfl, rfl⟩⟩
      generalize r.receive config _ _ _ now later = r'
      cases r' <;> simp
    · cases hf
  | wake d' =>
    cases hd
    obtain ⟨r, server, p, hr, hf, rfl⟩ := Sys.withRun_eq_some.mp h
    split_ifs at hf <;> cases hf <;> exact ⟨r, _, _, hr, rfl, by simp, .inr ⟨_, rfl, rfl⟩⟩
  | keepalive d' =>
    cases hd
    obtain ⟨r, server, p, hr, hf, rfl⟩ := Sys.withRun_eq_some.mp h
    split_ifs at hf
    cases hf
    exact ⟨r, _, _, hr, rfl, by simp, .inr ⟨_, rfl, hreport _⟩⟩
  | requestStop d' =>
    cases hd
    obtain ⟨r, server, p, hr, hf, rfl⟩ := Sys.withRun_eq_some.mp h
    cases hf
    exact ⟨r, _, _, hr, rfl, by simp, .inr ⟨_, rfl, rfl⟩⟩
  | leaveLoop d' =>
    cases hd
    obtain ⟨r, server, p, hr, hf, rfl⟩ := Sys.withRun_eq_some.mp h
    split_ifs at hf <;> cases hf <;> exact ⟨r, _, _, hr, rfl, by simp, .inr ⟨_, rfl, rfl⟩⟩
  | flush d' =>
    cases hd
    obtain ⟨r, server, p, hr, hf, rfl⟩ := Sys.withRun_eq_some.mp h
    split at hf
    · rename_i last hphase
      split at hf <;> cases hf
      · exact ⟨r, _, _, hr, rfl, by simp, .inr ⟨_, rfl, rfl⟩⟩
      · rename_i endLsn hflush
        exact ⟨r, _, _, hr, rfl, by simp, .inl ⟨last, endLsn, rfl, hphase, hflush⟩⟩
    · cases hf
  | ack d' =>
    cases hd
    obtain ⟨r, server, p, hr, hf, rfl⟩ := Sys.withRun_eq_some.mp h
    split at hf <;> cases hf
    exact ⟨r, _, _, hr, rfl, by simp, .inr ⟨_, rfl, hreport _⟩⟩
  | remember d' =>
    cases hd
    obtain ⟨r, server, p, hr, hf, rfl⟩ := Sys.withRun_eq_some.mp h
    split at hf
    · split_ifs at hf <;> cases hf <;> exact ⟨r, _, _, hr, rfl, by simp, .inr ⟨_, rfl, rfl⟩⟩
    · cases hf
  | _ => cases hd

/-! ### One process at a time -/

structure OneAtATime (s : Sys ι T F) : Prop where
  unique : ∀ d d', s.daemons d ≠ .down → s.daemons d' ≠ .down → d = d'
  admin : s.admin.isSome → ∀ d, s.daemons d = .down
  ready : ∀ d checkpoint, s.daemons d = .ready checkpoint → s.server.row = some checkpoint
  streaming : ∀ d r, s.daemons d = .streaming r →
    ∃ slot, s.server.slot = some slot ∧ slot.opener = some d

namespace OneAtATime

variable {s s' : Sys ι T F} {d : ι}

omit [PyFloat F] [DecidableEq F] in
theorem of_down (h : ∀ d, s.daemons d = .down) : OneAtATime s where
  unique := fun d _ hd => absurd (h d) hd
  admin := fun _ => h
  ready := fun d c hd => by cases (h d).symm.trans hd
  streaming := fun d r hd => by cases (h d).symm.trans hd

variable [DecidableEq ι]

omit [PyFloat F] [DecidableEq F] in
theorem setDaemon (h : OneAtATime s) {p : Process F} {server : Server ι T F}
    (hup : s.daemons d ≠ .down) (hready : ∀ checkpoint, p = .ready checkpoint →
      server.row = some checkpoint)
    (hstreaming : ∀ r, p = .streaming r → ∃ slot, server.slot = some slot ∧ slot.opener = some d) :
    OneAtATime { s.setDaemon d p with server := server } := by
  have hother : ∀ d', d' ≠ d → s.daemons d' = .down := fun d' hd' =>
    by_contra fun hdown => hd' (h.unique d' d hdown hup)
  have hself : ∀ d', Function.update s.daemons d p d' ≠ .down → d' = d := fun d' hd' =>
    by_contra fun hne => hd' ((Function.update_of_ne hne _ _).trans (hother d' hne))
  refine ⟨fun d₁ d₂ h₁ h₂ => (hself d₁ h₁).trans (hself d₂ h₂).symm, fun hadmin => ?_, ?_, ?_⟩
  · exact absurd (h.admin hadmin d) hup
  · intro d' checkpoint hd'
    have hd' : Function.update s.daemons d p d' = .ready checkpoint := hd'
    obtain rfl := hself d' (by rw [hd']; nofun)
    rw [Function.update_self] at hd'
    exact hready checkpoint hd'
  · intro d' r hd'
    have hd' : Function.update s.daemons d p d' = .streaming r := hd'
    obtain rfl := hself d' (by rw [hd']; nofun)
    rw [Function.update_self] at hd'
    exact hstreaming r hd'

omit [PyFloat F] [DecidableEq F] [DecidableEq ι] in
theorem setServer (h : OneAtATime s) {server : Server ι T F} (hrow : server.row = s.server.row)
    (hslot : ∀ slot, s.server.slot = some slot →
      ∃ slot', server.slot = some slot' ∧ slot'.opener = slot.opener) :
    OneAtATime { s with server := server } where
  unique := h.unique
  admin := h.admin
  ready := fun d checkpoint hd => hrow.trans (h.ready d checkpoint hd)
  streaming := by
    intro d r hd
    obtain ⟨slot, hs, ho⟩ := h.streaming d r hd
    obtain ⟨slot', hs', ho'⟩ := hslot slot hs
    exact ⟨slot', hs', ho'.trans ho⟩

theorem guarded (h : OneAtATime s) {a : Action ι F} (hstep : Sys.step config fx s a = some s') :
    s.Guarded a := by
  cases a with
  | openStream d pid =>
    intro checkpoint slot hready _ _
    exact h.ready d checkpoint hready
  | flush d =>
    obtain ⟨r, server, p, hr, -, -⟩ := Sys.withRun_eq_some.mp hstep
    exact h.streaming d r hr
  | _ => trivial

theorem step (h : OneAtATime s) {a : Action ι F} (hseq : s.Sequential a)
    (hstep : Sys.step config fx s a = some s') : OneAtATime s' := by
  -- a run never moves the slot to another opener
  by_cases hrunner : ∃ d, a.runner? = some d
  · obtain ⟨d, hd⟩ := hrunner
    obtain ⟨r, server, p, hr, rfl, hready, hserver⟩ := Sys.step_run hd hstep
    refine h.setDaemon (by simp [hr]) (fun c hc => absurd hc (hready c)) fun r' _ => ?_
    have hopener : server.slot.map Slot.opener = s.server.slot.map Slot.opener := by
      rcases hserver with ⟨last, endLsn, -, -, hflush⟩ | ⟨slot, rfl, hslot⟩
      · obtain ⟨_, _, -, -, -, rfl⟩ := Inv.flush_ok hflush
        rfl
      · exact hslot
    obtain ⟨slot, hs, ho⟩ := h.streaming d r hr
    rw [hs] at hopener
    obtain ⟨slot', hs', ho'⟩ := Option.map_eq_some_iff.mp hopener
    exact ⟨slot', hs', ho'.trans ho⟩
  cases a with
  | commitTxn t =>
    rw [Sys.step] at hstep
    split_ifs at hstep
    cases hstep
    exact h.setServer rfl fun slot hs => ⟨slot, hs, rfl⟩
  | feedback =>
    obtain ⟨slot, hslot, hstep⟩ := Option.bind_eq_some_iff.mp hstep
    obtain ⟨w, hw, hstep⟩ := Option.bind_eq_some_iff.mp hstep
    split at hstep <;> cases hstep
    refine h.setServer rfl fun slot' hs => ⟨_, rfl, ?_⟩
    cases hslot.symm.trans hs
    exact Slot.confirm_opener _ _
  | release =>
    obtain ⟨slot, hslot, hstep⟩ := Option.bind_eq_some_iff.mp hstep
    obtain ⟨w, hw, hstep⟩ := Option.bind_eq_some_iff.mp hstep
    cases hstep
    refine h.setServer rfl fun slot' hs => ⟨_, rfl, ?_⟩
    cases hslot.symm.trans hs
    rfl
  | start d =>
    rw [Sys.step] at hstep
    split at hstep <;> cases hstep
    obtain ⟨hdown, hadmin⟩ := hseq
    refine ⟨?_, fun hsome => (by cases hadmin ▸ hsome), ?_, ?_⟩
    · intro d₁ d₂ h₁ h₂
      have hself : ∀ d', (s.setDaemon d .connected).daemons d' ≠ .down → d' = d := fun d' hd' =>
        by_contra fun hne => hd' ((Function.update_of_ne hne _ _).trans (hdown d'))
      exact (hself d₁ h₁).trans (hself d₂ h₂).symm
    · intro d' checkpoint hd'
      by_cases hd : d' = d
      · subst hd
        simp [Sys.setDaemon] at hd'
      · simp [Sys.setDaemon, hd, hdown] at hd'
    · intro d' r hd'
      by_cases hd : d' = d
      · subst hd
        simp [Sys.setDaemon] at hd'
      · simp [Sys.setDaemon, hd, hdown] at hd'
  | readCheckpoint d =>
    rw [Sys.step] at hstep
    split at hstep
    · rename_i checkpoint hconnected hrow
      cases hstep
      refine h.setDaemon (by simp [hconnected]) ?_ (by simp)
      rintro _ ⟨⟩
      exact hrow
    · rename_i hconnected _
      cases hstep
      exact h.setDaemon (by simp [hconnected]) (by simp) (by simp)
    · cases hstep
  | openStream d pid =>
    rw [Sys.step] at hstep
    split at hstep
    · rename_i checkpoint hready
      have hup : s.daemons d ≠ .down := by simp [hready]
      split at hstep
      · cases hstep
        exact h.setDaemon hup (by simp) fun r _ => ⟨_, rfl, rfl⟩
      · cases hstep
        exact h.setDaemon hup (by simp) (by simp)
    · cases hstep
  | crash d =>
    cases hstep
    -- the crash of a process that is not there changes nothing
    by_cases hdown : s.daemons d = .down
    · rwa [Sys.setDaemon, ← hdown, Function.update_eq_self]
    · exact h.setDaemon hdown (by simp) (by simp)
  | startSetup force =>
    rw [Sys.step] at hstep
    split_ifs at hstep
    cases hstep
    exact of_down hseq.1
  | setupStep reply =>
    rw [Sys.step] at hstep
    split at hstep
    · rename_i hadmin
      split_ifs at hstep
      cases hstep
      exact of_down (h.admin (hadmin ▸ rfl))
    · cases hstep
  | startTeardown =>
    rw [Sys.step] at hstep
    split_ifs at hstep
    cases hstep
    exact of_down hseq.1
  | teardownStep fault =>
    rw [Sys.step] at hstep
    split at hstep
    · rename_i hadmin
      cases hstep
      exact of_down (h.admin (hadmin ▸ rfl))
    · cases hstep
  | crashAdmin =>
    cases hstep
    exact ⟨h.unique, by simp, h.ready, h.streaming⟩
  | _ => exact absurd ⟨_, rfl⟩ hrunner

end OneAtATime

end WalFlux
