import WalFlux.Daemon.Restart

/-! What the loop makes of a stream of messages: which transactions it seals, with which ops, and
which malformed streams it does not notice. -/

namespace WalFlux.Daemon

open Aggregates Protocol Python

variable {F : Type}

/-! ### The loop -/

/-- What the stream yields: nothing within the wake window, or a message, with the times at which it
is handled and at which the flush deadline is checked. -/
inductive Item
  | wake
  | message (m : Message) (now later : ℚ)

def Item.message? : Item → Option Message
  | .wake => none
  | .message m _ _ => some m

def messages (items : List Item) : List Message := items.filterMap Item.message?

def Loop.flush (l : Loop F) : Loop F × List (SealedTxn F) :=
  match l.pending.getLast? with
  | none => (l, [])
  | some t => (l.flushed t.endLsn, l.pending)

variable [PyFloat F]

/-- An iteration of `_loop`, with all that was handed to flushes so far. -/
def iterate (config : Config) (s : Loop F × List (SealedTxn F)) :
    Item → Except Error (Loop F × List (SealedTxn F))
  | .wake => .ok (s.1.flush.1, s.2 ++ s.1.flush.2)
  | .message m now later => do
    let l ← s.1.handle config m now
    if ← l.due config later then return (l.flush.1, s.2 ++ l.flush.2) else return (l, s.2)

def loop (config : Config) (checkpoint : ℕ) (items : List Item) :
    Except Error (Loop F × List (SealedTxn F)) :=
  items.foldlM (iterate config) (.init checkpoint, [])

/-! ### What should become of the messages -/

def opsAt (config : Config) (past : List Message) (m : Message) : List (Op F) :=
  match assembleAll config .fresh past with
  | .error _ => []
  | .ok a => (rowOps config a m).toOption.getD []

/-- The transactions closed by the Commits of `past`, and the ops since the last of them. -/
structure Account (F : Type) where
  past : List Message
  closed : List (SealedTxn F)
  buffer : List (Op F)

def Account.add (config : Config) (x : Account F) (m : Message) : Account F :=
  match m with
  | .commit c => ⟨x.past ++ [m], x.closed ++ [⟨c.endLsn, x.buffer⟩], []⟩
  | m => ⟨x.past ++ [m], x.closed, x.buffer ++ opsAt config x.past m⟩

def account (config : Config) (ms : List Message) : Account F :=
  ms.foldl (Account.add config) ⟨[], [], []⟩

def Settled (closed sealed : List (SealedTxn F)) (checkpoint : ℕ) : Prop :=
  ∃ fates : List (SealedTxn F × Bool), fates.map Prod.fst = closed ∧
    (fates.filter Prod.snd).map Prod.fst = sealed ∧
    ∀ t, (t, false) ∈ fates → t.endLsn ≤ checkpoint

/-! ### Malformed streams -/

def openAfter (was : Bool) : Message → Bool
  | .begin _ => true
  | .commit _ => false
  | _ => was

def isOpen (ms : List Message) : Bool := ms.foldl openAfter false

inductive Malformed (past : List Message) : Message → Prop
  | nestedBegin (b : Begin) : isOpen past = true → Malformed past (.begin b)
  | strayCommit (c : Commit) : isOpen past = false → Malformed past (.commit c)
  | outside (m : Message) : isChange m = true → isOpen past = false → Malformed past m
  | unannounced (m : Message) (id : ℕ) : id ∈ changed m → (∀ rel ∈ announced past, rel.relId ≠ id) →
      Malformed past m

/-- A malformed message that no branch of the code looks for. -/
inductive Unnoticed (past : List Message) : Message → Prop
  | nestedBegin (b : Begin) : isOpen past = true → Unnoticed past (.begin b)
  | strayCommit (c : Commit) : isOpen past = false → Unnoticed past (.commit c)
  | truncate (t : Truncate) (id : ℕ) : isOpen past = true → id ∈ t.relIds →
      (∀ rel ∈ announced past, rel.relId ≠ id) → Unnoticed past (.truncate t)

/-- The loop keeps every op and raises on every malformed message. -/
structure Lossless (F : Type) [PyFloat F] (config : Config) (ms : List Message) : Prop where
  keeps : ∀ checkpoint items, messages items = ms → ∀ (l : Loop F) handed,
    loop config checkpoint items = .ok (l, handed) →
      Settled (account config ms).closed (handed ++ l.pending) l.checkpointLsn ∧
        l.assembly.openOps.getD [] = (account config ms).buffer
  raises : ∀ pre m post, ms = pre ++ m :: post → Malformed pre m →
    ∀ checkpoint items, messages items = pre → ∀ (l : Loop F) handed,
      loop config checkpoint items = .ok (l, handed) → ∀ now later,
        ∃ msg, iterate config (l, handed) (.message m now later) = .error (.protocol msg)

/-! ### One iteration -/

theorem Account.add_of_ne_commit {config : Config} (x : Account F) {m : Message}
    (h : ∀ c, m ≠ .commit c) :
    x.add config m = ⟨x.past ++ [m], x.closed, x.buffer ++ opsAt config x.past m⟩ := by
  cases m with
  | commit c => exact absurd rfl (h c)
  | _ => rfl

theorem account_concat (config : Config) (ms : List Message) (m : Message) :
    account (F := F) config (ms ++ [m]) = (account config ms).add config m := by
  rw [account, List.foldl_append]
  rfl

theorem account_past (config : Config) (ms : List Message) :
    (account (F := F) config ms).past = ms := by
  induction ms using List.reverseRecOn with
  | nil => rfl
  | append_singleton ms m ih =>
    rw [account_concat]
    cases m <;> exact congrArg (· ++ [_]) ih

theorem opsAt_eq {config : Config} {ms : List Message} {a : Assembly F} {m : Message}
    {ops : List (Op F)} (ha : assembleAll config .fresh ms = .ok a)
    (hops : rowOps config a m = .ok ops) : opsAt config ms m = ops := by
  rw [opsAt, ha]
  dsimp only
  rw [hops]
  rfl

omit [PyFloat F] in
theorem settled_nil (checkpoint : ℕ) : Settled ([] : List (SealedTxn F)) [] checkpoint :=
  ⟨[], rfl, rfl, fun _ h => (by cases h)⟩

omit [PyFloat F] in
theorem Settled.seal {closed handed : List (SealedTxn F)} {checkpoint : ℕ}
    (h : Settled closed handed checkpoint) (t : SealedTxn F) :
    Settled (closed ++ [t]) (handed ++ [t]) checkpoint := by
  obtain ⟨fates, rfl, rfl, hskipped⟩ := h
  refine ⟨fates ++ [(t, true)], by simp, by simp, fun t' ht' => hskipped t' ?_⟩
  simpa using ht'

omit [PyFloat F] in
theorem Settled.skip {closed handed : List (SealedTxn F)} {checkpoint : ℕ}
    (h : Settled closed handed checkpoint) {t : SealedTxn F} (ht : t.endLsn ≤ checkpoint) :
    Settled (closed ++ [t]) handed checkpoint := by
  obtain ⟨fates, rfl, rfl, hskipped⟩ := h
  refine ⟨fates ++ [(t, false)], by simp, by simp, fun t' ht' => ?_⟩
  rcases List.mem_append.mp ht' with ht' | ht'
  · exact hskipped t' ht'
  · cases List.mem_singleton.mp ht'
    exact ht

omit [PyFloat F] in
theorem Settled.mono {closed handed : List (SealedTxn F)} {checkpoint checkpoint' : ℕ}
    (h : Settled closed handed checkpoint) (hle : checkpoint ≤ checkpoint') :
    Settled closed handed checkpoint' := by
  obtain ⟨fates, hclosed, hsealed, hskipped⟩ := h
  exact ⟨fates, hclosed, hsealed, fun t ht => (hskipped t ht).trans hle⟩

omit [PyFloat F] in
theorem flush_frame {l : Loop F} (h : ∀ t ∈ l.pending, l.checkpointLsn < t.endLsn) :
    l.flush.1.assembly = l.assembly ∧ l.flush.2 ++ l.flush.1.pending = l.pending ∧
      l.checkpointLsn ≤ l.flush.1.checkpointLsn ∧
      ∀ t ∈ l.flush.1.pending, l.flush.1.checkpointLsn < t.endLsn := by
  unfold Loop.flush
  cases hlast : l.pending.getLast? with
  | none => exact ⟨rfl, rfl, le_rfl, h⟩
  | some t =>
    refine ⟨rfl, List.append_nil _, (h t (List.mem_of_getLast? hlast)).le, fun t' ht' => ?_⟩
    cases ht'

theorem iterate_ok {config : Config} {s s' : Loop F × List (SealedTxn F)} {m : Message}
    {now later : ℚ} (h : iterate config s (.message m now later) = .ok s') :
    ∃ l, s.1.handle config m now = .ok l ∧
      (s' = (l, s.2) ∨ s' = (l.flush.1, s.2 ++ l.flush.2)) := by
  unfold iterate at h
  obtain ⟨l, hl, h⟩ := Except.bind_eq_ok.mp h
  obtain ⟨due, -, h⟩ := Except.bind_eq_ok.mp h
  refine ⟨l, hl, ?_⟩
  split_ifs at h
  · exact .inr (Except.pure_eq_ok.mp h).symm
  · exact .inl (Except.pure_eq_ok.mp h).symm

structure Follows (config : Config) (ms : List Message) (l : Loop F) : Prop where
  assembled : assembleAll config .fresh ms = .ok l.assembly
  isOpen_eq : l.assembly.openOps.isSome = isOpen ms
  above : ∀ t ∈ l.pending, l.checkpointLsn < t.endLsn

structure Accounted (config : Config) (ms : List Message) (l : Loop F)
    (handed : List (SealedTxn F)) :
    Prop where
  settled : Settled (account config ms).closed (handed ++ l.pending) l.checkpointLsn
  buffer : l.assembly.openOps.getD [] = (account config ms).buffer

theorem Handled.getD_bufferAfter {config : Config} {a a' : Assembly F} {m : Message}
    {ops : List (Op F)} (h : Handled config a a' m ops) (hne : ∀ c, m ≠ .commit c)
    (hbegin : ∀ b, m = .begin b → a.openOps = none) :
    (bufferAfter a.openOps ops m).getD [] = a.openOps.getD [] ++ ops := by
  by_cases hchange : isChange m = true
  · obtain ⟨buffered, hopen⟩ := Option.isSome_iff_exists.mp (h.isOpen hchange)
    rw [hopen]
    cases m with
    | begin b => cases hchange
    | commit c => cases hchange
    | _ => rfl
  · rw [h.ops_eq_nil (Bool.eq_false_iff.mpr hchange), List.append_nil]
    by_cases hb : ∃ b, m = .begin b
    · obtain ⟨b, rfl⟩ := hb
      rw [hbegin b rfl]
      rfl
    · rw [bufferAfter_nil _ (fun b hm => hb ⟨b, hm⟩) hne]

theorem isOpen_concat (ms : List Message) (m : Message) :
    isOpen (ms ++ [m]) = openAfter (isOpen ms) m := by
  rw [isOpen, List.foldl_append]
  rfl

omit [PyFloat F] in
theorem isSome_bufferAfter (buffer : Option (List (Op F))) (ops : List (Op F)) (m : Message) :
    (bufferAfter buffer ops m).isSome = openAfter buffer.isSome m := by
  cases m <;> simp [bufferAfter, openAfter]

theorem Follows.handle {config : Config} {ms : List Message} {l l' : Loop F} {m : Message} {now : ℚ}
    (h : Follows config ms l) (hm : l.handle config m now = .ok l') :
    Follows config (ms ++ [m]) l' := by
  obtain ⟨ha, hcheckpoint, hpending⟩ := Loop.handle_ok hm
  obtain ⟨ops, hops⟩ := assemble_ok ha
  refine ⟨assembleAll_append.mpr ⟨_, h.assembled, assembleAll_cons.mpr ⟨_, ha, rfl⟩⟩, ?_, ?_⟩
  · rw [hops.openOps_eq, isSome_bufferAfter, h.isOpen_eq, isOpen_concat]
  · rw [hcheckpoint]
    obtain ⟨c, -, hlt, hpending⟩ | ⟨-, hpending⟩ := hpending
    · rw [hpending]
      intro t ht
      rcases List.mem_append.mp ht with ht | ht
      · exact h.above t ht
      · cases List.mem_singleton.mp ht
        exact hlt
    · rw [hpending]
      exact h.above

theorem Accounted.handle {config : Config} {ms : List Message} {l l' : Loop F}
    {m : Message} {now : ℚ} {handed : List (SealedTxn F)} (hl : Follows config ms l)
    (h : Accounted config ms l handed) (hnoticed : ¬ Unnoticed ms m)
    (hm : l.handle config m now = .ok l') :
    Accounted config (ms ++ [m]) l' handed := by
  obtain ⟨ha, hcheckpoint, hpending⟩ := Loop.handle_ok hm
  obtain ⟨ops, hops⟩ := assemble_ok ha
  have hopsAt := opsAt_eq hl.assembled hops.rowOps_eq
  by_cases hcommit : ∃ c, m = .commit c
  · obtain ⟨c, rfl⟩ := hcommit
    have hclosed : account config (ms ++ [.commit c]) = ⟨ms ++ [.commit c],
        (account config ms).closed ++ [⟨c.endLsn, l.assembly.openOps.getD []⟩], []⟩ := by
      rw [account_concat, Account.add, account_past, h.buffer]
    refine ⟨?_, by rw [hclosed, hops.openOps_eq]; rfl⟩
    rw [hclosed, hcheckpoint]
    obtain ⟨c', hc, -, hpending⟩ | ⟨hle, hpending⟩ := hpending
    · cases hc
      rw [hpending, ← List.append_assoc]
      exact h.settled.seal _
    · rw [hpending]
      exact h.settled.skip (hle c rfl)
  · have hne : ∀ c, m ≠ .commit c := fun c hc => hcommit ⟨c, hc⟩
    have hadd : account config (ms ++ [m]) =
        ⟨ms ++ [m], (account config ms).closed, (account config ms).buffer ++ ops⟩ := by
      rw [account_concat, Account.add_of_ne_commit _ hne, account_past,
        opsAt_eq hl.assembled hops.rowOps_eq]
    have hsame : l'.pending = l.pending := by
      obtain ⟨c, hc, -⟩ | ⟨-, hpending⟩ := hpending
      · exact absurd hc (hne c)
      · exact hpending
    refine ⟨?_, ?_⟩
    · rw [hadd, hcheckpoint, hsame]
      exact h.settled
    · rw [hadd, hops.openOps_eq, ← h.buffer]
      refine hops.getD_bufferAfter hne fun b hb => ?_
      subst hb
      -- a Begin that is noticed finds no transaction open
      have hopen : isOpen ms ≠ true := fun hopen => hnoticed (.nestedBegin b hopen)
      rwa [← hl.isOpen_eq, ne_eq, Option.not_isSome_iff_eq_none] at hopen

theorem iterate_message {config : Config} {ms : List Message} {l : Loop F}
    {s' : Loop F × List (SealedTxn F)} {handed : List (SealedTxn F)} {m : Message} {now later : ℚ}
    (hl : Follows config ms l) (h : iterate config (l, handed) (.message m now later) = .ok s') :
    Follows config (ms ++ [m]) s'.1 ∧
      (Accounted config ms l handed → ¬ Unnoticed ms m →
        Accounted config (ms ++ [m]) s'.1 s'.2) := by
  obtain ⟨l₁, hl₁, hs'⟩ := iterate_ok h
  have h₁ := hl.handle hl₁
  obtain ⟨hassembly, hsealed, hle, habove⟩ := flush_frame h₁.above
  rcases hs' with rfl | rfl
  · exact ⟨h₁, fun hacc hnoticed => hacc.handle hl hnoticed hl₁⟩
  · refine ⟨⟨hassembly ▸ h₁.assembled, hassembly ▸ h₁.isOpen_eq, habove⟩, fun hacc hnoticed => ?_⟩
    have hacc₁ := hacc.handle hl hnoticed hl₁
    refine ⟨?_, hassembly ▸ hacc₁.buffer⟩
    rw [List.append_assoc, hsealed]
    exact hacc₁.settled.mono hle

theorem flush_follows {config : Config} {ms : List Message} {l : Loop F}
    (hl : Follows config ms l) :
    Follows config ms l.flush.1 := by
  obtain ⟨hassembly, -, -, habove⟩ := flush_frame hl.above
  exact ⟨hassembly ▸ hl.assembled, hassembly ▸ hl.isOpen_eq, habove⟩

theorem flush_accounted {config : Config} {ms : List Message} {l : Loop F}
    {handed : List (SealedTxn F)} (hl : Follows config ms l) (hacc : Accounted config ms l handed) :
    Accounted config ms l.flush.1 (handed ++ l.flush.2) := by
  obtain ⟨hassembly, hsealed, hle, -⟩ := flush_frame hl.above
  refine ⟨?_, hassembly ▸ hacc.buffer⟩
  rw [List.append_assoc, hsealed]
  exact hacc.settled.mono hle

/-! ### The whole stream -/

theorem messages_concat_wake (items : List Item) : messages (items ++ [.wake]) =
    messages items := by
  simp [messages, Item.message?]

theorem messages_concat_message (items : List Item) (m : Message) (now later : ℚ) :
    messages (items ++ [.message m now later]) = messages items ++ [m] := by
  simp [messages, Item.message?]

def Reached (F : Type) [PyFloat F] (config : Config) (ms : List Message) : Prop :=
  ∃ checkpoint items, messages items = ms ∧
    ∃ (l : Loop F) (handed : List (SealedTxn F)), loop config checkpoint items = .ok (l, handed)

def AllNoticed (F : Type) [PyFloat F] (config : Config) (ms : List Message) : Prop :=
  ∀ pre m post, ms = pre ++ m :: post → Reached F config pre → ¬ Unnoticed pre m

theorem AllNoticed.concat {config : Config} {ms : List Message} {m : Message}
    (h : AllNoticed F config (ms ++ [m])) :
    AllNoticed F config ms ∧ (Reached F config ms → ¬ Unnoticed ms m) :=
  ⟨fun pre m' post hms => h pre m' (post ++ [m]) (by simp [hms]), h ms m [] rfl⟩

theorem loop_follows {config : Config} {checkpoint : ℕ} {items : List Item}
    {s : Loop F × List (SealedTxn F)} (h : loop config checkpoint items = .ok s) :
    Follows config (messages items) s.1 ∧
      (AllNoticed F config (messages items) → Accounted config (messages items) s.1 s.2) := by
  have hinit : Accounted config [] (Loop.init checkpoint : Loop F) [] :=
    ⟨settled_nil checkpoint, rfl⟩
  refine (Except.foldlM_induction (P := fun items s => loop config checkpoint items = .ok s ∧
    Follows config (messages items) s.1 ∧ (AllNoticed F config (messages items) →
      Accounted config (messages items) s.1 s.2)) h
    ⟨rfl, ⟨rfl, rfl, fun t ht => (by cases ht)⟩, fun _ => hinit⟩ ?_).2
  rintro pre item s s' ⟨hpre, hs, hacc⟩ hitem
  have hrun : loop config checkpoint (pre ++ [item]) = .ok s' := by
    rw [loop, Except.foldlM_append_eq_ok]
    exact ⟨s, hpre, by rw [List.foldlM_cons, hitem]; rfl⟩
  cases item with
  | wake =>
    cases hitem
    rw [messages_concat_wake]
    exact ⟨hrun, flush_follows hs, fun hnoticed => flush_accounted hs (hacc hnoticed)⟩
  | message m now later =>
    rw [messages_concat_message]
    obtain ⟨hs', hacc'⟩ := iterate_message hs hitem
    refine ⟨hrun, hs', fun hnoticed => ?_⟩
    obtain ⟨hbefore, hm⟩ := hnoticed.concat
    exact hacc' (hacc hbefore) (hm ⟨checkpoint, pre, rfl, s.1, s.2, hpre⟩)

/-! ### Malformed messages -/

omit [PyFloat F] in
theorem extendOpen_none {a : Assembly F} (h : a.openOps = none) (kind : String)
    (ops : Except Error (List (Op F))) : ∃ msg, extendOpen a kind ops = .error (.protocol msg) := by
  unfold extendOpen
  rw [h]
  exact ⟨_, rfl⟩

theorem assemble_outside {config : Config} {a : Assembly F} (h : a.openOps = none) {m : Message}
    (hm : isChange m = true) : ∃ msg, assemble config a m = .error (.protocol msg) := by
  cases m with
  | insert m => exact extendOpen_none h _ _
  | update m => exact extendOpen_none h _ _
  | delete m => exact extendOpen_none h _ _
  | truncate m => exact extendOpen_none h _ _
  | _ => cases hm

omit [PyFloat F] in
theorem extendOpen_error {a : Assembly F} {buffered : List (Op F)} (h : a.openOps = some buffered)
    (kind : String) {ops : Except Error (List (Op F))} {e : Error} (hops : ops = .error e) :
    extendOpen a kind ops = .error e := by
  unfold extendOpen
  rw [h, hops]
  rfl

theorem assemble_unannounced {config : Config} {a : Assembly F} {buffered : List (Op F)}
    (hopen : a.openOps = some buffered) {m : Message} {id : ℕ} (hid : id ∈ changed m)
    (hnone : Dict.get? a.relations id = none) (htruncate : ∀ t, m ≠ .truncate t) :
    ∃ msg, assemble config a m = .error (.protocol msg) := by
  have hrel :
      relationOf a id = .error (.protocol s!"row message for unknown relation id {id}") := by
    rw [relationOf, hnone]
  cases m with
  | insert m =>
    cases List.mem_singleton.mp hid
    exact ⟨_, extendOpen_error hopen _ (by rw [insertOps, hrel]; rfl)⟩
  | update m =>
    cases List.mem_singleton.mp hid
    exact ⟨_, extendOpen_error hopen _ (by rw [updateOps, hrel]; rfl)⟩
  | delete m =>
    cases List.mem_singleton.mp hid
    exact ⟨_, extendOpen_error hopen _ (by rw [deleteOps, hrel]; rfl)⟩
  | truncate t => exact absurd rfl (htruncate t)
  | _ => cases hid

theorem latest_eq_none {ms : List Message} {id : ℕ} (h : ∀ rel ∈ announced ms, rel.relId ≠ id) :
    latest ms id = none := by
  rw [latest, List.getLast?_eq_none_iff, List.filter_eq_nil_iff]
  intro rel hrel
  simpa using h rel hrel

theorem malformed_raises {config : Config} {ms : List Message} {l : Loop F}
    (hl : Follows config ms l) {m : Message} (hm : Malformed ms m) (hnoticed : ¬ Unnoticed ms m) :
    ∃ msg, assemble config l.assembly m = .error (.protocol msg) := by
  cases hopen : l.assembly.openOps with
  | none =>
    have hclosed : isOpen ms = false := by rw [← hl.isOpen_eq, hopen]; rfl
    refine assemble_outside hopen ?_
    cases hm with
    | nestedBegin b h => exact absurd (.nestedBegin b h) hnoticed
    | strayCommit c h => exact absurd (.strayCommit c h) hnoticed
    | outside _ h => exact h
    | unannounced _ id hid => cases m <;> first | rfl | cases hid
  | some buffered =>
    have hisOpen : isOpen ms = true := by rw [← hl.isOpen_eq, hopen]; rfl
    cases hm with
    | nestedBegin b h => exact absurd (.nestedBegin b h) hnoticed
    | strayCommit c h => exact absurd (.strayCommit c h) hnoticed
    | outside _ _ h =>
      rw [hisOpen] at h
      cases h
    | unannounced _ id hid hnot =>
      refine assemble_unannounced hopen hid ?_ ?_
      · rw [(assembleAll_recorded hl.assembled).relations, latest_eq_none hnot]
      · rintro t rfl
        exact hnoticed (.truncate t id hisOpen hid hnot)

theorem unnoticed_accepted {config : Config} {ms : List Message} {l : Loop F}
    (hl : Follows config ms l) {m : Message} (hm : Unnoticed ms m) :
    ∃ a, assemble config l.assembly m = .ok a := by
  cases hm with
  | nestedBegin b => exact ⟨_, rfl⟩
  | strayCommit c => exact ⟨_, rfl⟩
  | truncate t id hopen =>
    rw [← hl.isOpen_eq] at hopen
    obtain ⟨buffered, hopen⟩ := Option.isSome_iff_exists.mp hopen
    refine ⟨{ l.assembly with
      openOps := some (buffered ++ truncateOps config l.assembly t.relIds) }, ?_⟩
    change extendOpen _ _ _ = _
    unfold extendOpen
    rw [hopen]
    rfl

theorem iterate_error {config : Config} {l : Loop F} {m : Message} {e : Error}
    (h : assemble config l.assembly m = .error e) (handed : List (SealedTxn F)) (now later : ℚ) :
    iterate config (l, handed) (.message m now later) = .error e := by
  have hhandle : l.handle config m now = .error e := by
    unfold Loop.handle
    rw [h]
    rfl
  dsimp only [iterate]
  rw [hhandle]
  rfl

theorem iterate_ne_protocol {config : Config} {l : Loop F} {m : Message} {a : Assembly F}
    (h : assemble config l.assembly m = .ok a) (handed : List (SealedTxn F)) (now later : ℚ)
    (msg : String) :
    iterate config (l, handed) (.message m now later) ≠ .error (.protocol msg) := by
  intro hraise
  have hhandle : ∃ l', l.handle config m now = .ok l' := by
    unfold Loop.handle
    rw [h]
    cases m with
    | commit c =>
      by_cases hlsn : c.endLsn > l.checkpointLsn
      · exact ⟨_, if_pos hlsn⟩
      · exact ⟨_, if_neg hlsn⟩
    | _ => exact ⟨_, rfl⟩
  obtain ⟨l', hl'⟩ := hhandle
  dsimp only [iterate] at hraise
  rw [hl'] at hraise
  change (l'.due config later >>= _) = _ at hraise
  unfold Loop.due at hraise
  split_ifs at hraise
  · cases hraise
  · cases hraise
  · cases hold : l'.oldest with
    | none =>
      rw [hold] at hraise
      cases hraise
    | some oldest =>
      rw [hold] at hraise
      dsimp only [bind, Except.bind] at hraise
      split_ifs at hraise <;> cases hraise

/-- The loop is lossless on a stream exactly if it comes to no Begin inside a transaction, no Commit
outside one and no Truncate of a relation never announced. -/
theorem lossless_iff (config : Config) (ms : List Message) :
    Lossless F config ms ↔ AllNoticed F config ms := by
  constructor
  · rintro h pre m post hms ⟨checkpoint, items, hitems, l, handed, hrun⟩ hun
    have hmalformed : Malformed pre m := by
      cases hun with
      | nestedBegin b hopen => exact .nestedBegin b hopen
      | strayCommit c hclosed => exact .strayCommit c hclosed
      | truncate t id _ hid hnot => exact .unannounced _ id hid hnot
    obtain ⟨msg, hraise⟩ := h.raises pre m post hms hmalformed checkpoint items hitems l
      handed hrun 0 0
    obtain ⟨a, ha⟩ := unnoticed_accepted (hitems ▸ (loop_follows hrun).1) hun
    exact iterate_ne_protocol ha handed 0 0 msg hraise
  · intro h
    constructor
    · rintro checkpoint items rfl l handed hrun
      obtain ⟨hsettled, hbuffer⟩ := (loop_follows hrun).2 h
      exact ⟨hsettled, hbuffer⟩
    · rintro pre m post hms hm checkpoint items rfl l handed hrun now later
      have hnoticed := h _ m post hms ⟨checkpoint, items, rfl, l, handed, hrun⟩
      obtain ⟨msg, hraise⟩ := malformed_raises (loop_follows hrun).1 hm hnoticed
      exact ⟨msg, iterate_error hraise handed now later⟩

/-- A second Begin empties the buffer, and the insert before it is in no transaction. -/
theorem nested_begin_loses_insert : ¬ Lossless Empty countsConfig
    [sampleBegin, .relation ⟨1, "public", "a", 'f', []⟩, .insert ⟨1, []⟩, sampleBegin,
      sampleCommit] := by
  intro h
  have hrun : ((loop (F := Empty) countsConfig 0
      [.message sampleBegin 0 0, .message (.relation ⟨1, "public", "a", 'f', []⟩) 0 0,
        .message (.insert ⟨1, []⟩) 0 0, .message sampleBegin 0 0,
        .message sampleCommit 0 0]).map fun s => s.2 ++ s.1.pending).toOption =
            some [⟨20, []⟩] := by
    decide +kernel
  obtain ⟨s, hs, hsealed⟩ := Except.map_eq_ok.mp (Except.toOption_eq_some.mp hrun)
  obtain ⟨⟨fates, hclosed, hsettled, -⟩, -⟩ := h.keeps 0 _ rfl s.1 s.2 hs
  have haccount : (account (F := Empty) countsConfig
      [sampleBegin, .relation ⟨1, "public", "a", 'f', []⟩, .insert ⟨1, []⟩, sampleBegin,
        sampleCommit]).closed = [⟨20, [.insert "a_rows" []]⟩] := rfl
  have hmem : (⟨20, []⟩ : SealedTxn Empty) ∈ fates.map Prod.fst := by
    have hmem : (⟨20, []⟩ : SealedTxn Empty) ∈ (fates.filter Prod.snd).map Prod.fst := by
      rw [hsettled, hsealed]
      exact List.mem_singleton_self _
    obtain ⟨p, hp, heq⟩ := List.mem_map.mp hmem
    exact List.mem_map.mpr ⟨p, List.mem_of_mem_filter hp, heq⟩
  rw [hclosed, haccount] at hmem
  cases List.mem_singleton.mp hmem

end WalFlux.Daemon
