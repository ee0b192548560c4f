import WalFlux.Daemon.Published
import WalFlux.System.Progress

/-! What a publisher writes is what the system lets a walsender send: the messages of a source
transaction are payloads of its ops, and every log of compatible transactions can be sent. -/

namespace WalFlux

open Aggregates Daemon Protocol

variable {F : Type} [PyFloat F] [DecidableEq F] {config : Config} {tables : Set PublishedTable}

/-! ### One transaction on the wire -/

omit [DecidableEq F] in
theorem Publisher.SendsAll.sent_lt {w w' : Publisher F} {ms : List Wire}
    (h : SendsAll tables w ms w') (hsome : w.current.isSome) (hnone : w'.current = none) :
    w.sent.length < w'.sent.length := by
  induction h with
  | nil =>
    rw [hnone] at hsome
    cases hsome
  | cons hsends hrest ih =>
    cases hsends with
    | begin hcurrent =>
      rw [hcurrent] at hsome
      cases hsome
    | commit =>
      have hle := (sent_le_sent hrest).length_le
      rw [List.length_append, List.length_singleton] at hle
      exact hle
    | announce => exact ih hsome hnone
    | origin => exact ih hsome hnone
    | type => exact ih hsome hnone
    | change => exact ih rfl hnone

theorem completes_skip {t : SealedTxn F} {a : Assembly F} {payload : List UInt8}
    {rest : List (List UInt8)} {m : Message} (hm : decodeMessage payload = .ok m)
    (hbegin : ∀ b, m ≠ .begin b) (hcommit : ∀ c, m ≠ .commit c)
    (hrest : ∀ a', assemble config a m = .ok a' → completes config t a' rest = true) :
    completes config t a (payload :: rest) = true := by
  rw [completes, hm]
  cases m with
  | begin b => exact absurd rfl (hbegin b)
  | commit c => exact absurd rfl (hcommit c)
  | _ =>
    dsimp only
    split
    · rfl
    · exact hrest _ ‹_›

theorem completes_published {w w' : Publisher F} {ms : List Wire} {a : Assembly F} {t : SourceTxn F}
    (h : Assembled config w a) (hsends : Publisher.SendsAll tables w ms w')
    (hsome : w.current.isSome) (hsent : w'.sent = w.sent ++ [t]) (hnone : w'.current = none) :
    completes config (t.sealed config) a (ms.map encodeMessage) = true := by
  induction hsends generalizing a with
  | nil =>
    rw [hnone] at hsome
    cases hsome
  | @cons w w₁ w' m ms hfirst hrest ih =>
    have hdecode := (Publisher.SendsAll.cons hfirst (.nil w₁)).decodes m (List.mem_singleton_self m)
    have hother (hbegin : ∀ b, m.message ≠ .begin b) (hcommit : ∀ c, m.message ≠ .commit c)
        (hsame : w₁.sent = w.sent) (hsome : w₁.current.isSome) :
        completes config (t.sealed config) a ((m :: ms).map encodeMessage) = true := by
      rw [List.map_cons]
      refine completes_skip hdecode hbegin hcommit fun a' ha => ?_
      obtain ⟨a'', ha'', hassembled⟩ | ⟨u, -, rfl, e, he⟩ := h.step hfirst
      · cases ha.symm.trans ha''
        exact ih hassembled hsome (hsame ▸ hsent) hnone
      · cases ha.symm.trans he
    cases hfirst with
    | begin hcurrent =>
      rw [hcurrent] at hsome
      cases hsome
    | announce => exact hother (fun _ hm => by cases hm) (fun _ hm => by cases hm) rfl hsome
    | origin => exact hother (fun _ hm => by cases hm) (fun _ hm => by cases hm) rfl hsome
    | type => exact hother (fun _ hm => by cases hm) (fun _ hm => by cases hm) rfl hsome
    | @change c =>
      exact hother (fun _ hm => by cases c <;> cases hm)
        (fun _ hm => by cases c <;> cases hm) rfl rfl
    | @commit flags commitLsn commitTs u hcurrent =>
      -- the transaction this commit ends is the one sent at the end: nothing follows it
      have hprefix := sent_le_sent hrest
      rw [hsent] at hprefix
      have hsame : u = t := by
        obtain ⟨rest, hrest⟩ := hprefix
        rw [List.append_assoc, List.append_cancel_left_eq] at hrest
        exact (List.cons.inj hrest).1
      subst hsame
      have hnil : ms = [] := by
        cases hrest with
        | nil => rfl
        | cons hsecond hrest =>
          cases hsecond with
          | begin =>
            have hlt := hrest.sent_lt rfl hnone
            rw [hsent] at hlt
            exact absurd hlt (lt_irrefl _)
          | announce hsome => cases hsome
          | origin hsome => cases hsome
          | type hsome => cases hsome
          | change hcurrent => cases hcurrent
          | commit hcurrent => cases hcurrent
      subst hnil
      rw [List.map_cons, completes, hdecode]
      refine decide_eq_true ⟨rfl, rfl, ?_⟩
      rw [h.openOps, hcurrent]
      rfl

/-- However a transaction is cut into messages, its payloads are a rendering of its ops; also where
the tables are not compatible and the daemon raises. -/
theorem rendersTxn_published {w w' : Publisher F} {ms : List Wire} {a : Assembly F}
    {t : SourceTxn F} (h : Assembled config w a) (hsends : Publisher.SendsAll tables w ms w')
    (hnone : w.current = none) (hsent : w'.sent = w.sent ++ [t]) (hnone' : w'.current = none) :
    rendersTxn config (t.sealed config) a (ms.map encodeMessage) = true := by
  cases hsends with
  | nil =>
    have hlen := congrArg List.length hsent
    rw [List.length_append, List.length_singleton] at hlen
    omega
  | cons hfirst hrest =>
    have hdecode := (Publisher.SendsAll.cons hfirst (.nil _)).decodes _ (List.mem_singleton_self _)
    cases hfirst with
    | begin =>
      have hopen : Assembled config { w with current := some [] } { a with openOps := some [] } :=
        ⟨h.relations, rfl⟩
      rw [List.map_cons, rendersTxn, hdecode]
      exact completes_published hopen hrest rfl hsent hnone'
    | announce hsome =>
      rw [hnone] at hsome
      cases hsome
    | origin hsome =>
      rw [hnone] at hsome
      cases hsome
    | type hsome =>
      rw [hnone] at hsome
      cases hsome
    | change hcurrent => cases hnone.symm.trans hcurrent
    | commit hcurrent => cases hnone.symm.trans hcurrent

omit [DecidableEq F] in
theorem assemblePayloads_published (hcompatible : Compatible config tables) {w w' : Publisher F}
    {ms : List Wire} {a : Assembly F} (h : Assembled config w a) (hnoted : Noted config tables w a)
    (hsends : Publisher.SendsAll tables w ms w') :
    ∃ a', assemblePayloads config a (ms.map encodeMessage) = some a' ∧ Assembled config w' a' ∧
      Noted config tables w' a' := by
  induction hsends generalizing a with
  | nil => exact ⟨a, rfl, h, hnoted⟩
  | cons hfirst hrest ih =>
    have hdecode := (Publisher.SendsAll.cons hfirst (.nil _)).decodes _ (List.mem_singleton_self _)
    obtain ⟨a₁, ha₁, hassembled, hnoted₁⟩ := hnoted.step hcompatible h hfirst
    obtain ⟨a', ha', hresult⟩ := ih hassembled hnoted₁
    refine ⟨a', ?_, hresult⟩
    rw [List.map_cons, assemblePayloads, hdecode]
    dsimp only
    rw [ha₁]
    exact ha'

/-! ### A log on the wire -/

namespace Publisher

inductive SendsTxns (tables : Set PublishedTable) :
    Publisher F → List (SourceTxn F) → List (List Wire) → Prop
  | nil (w : Publisher F) : SendsTxns tables w [] []
  | cons {w w' : Publisher F} {t : SourceTxn F} {txns : List (SourceTxn F)} {ms : List Wire}
      {groups : List (List Wire)} : SendsAll tables w ms w' → w'.sent = w.sent ++ [t] →
      w'.current = none → SendsTxns tables w' txns groups →
      SendsTxns tables w (t :: txns) (ms :: groups)

omit [DecidableEq F] in
theorem sendsAll_announce {w : Publisher F} (hsome : w.current.isSome) {ts : List PublishedTable}
    (hts : ∀ t ∈ ts, t ∈ tables) (hdistinct : (ts.map PublishedTable.relId).Nodup) :
    ∃ w', SendsAll tables w (ts.map PublishedTable.wire) w' ∧ w'.sent = w.sent ∧
      w'.current = w.current ∧
      (∀ t ∈ ts, w'.known t.relId = some t) ∧
      ∀ id, id ∉ ts.map PublishedTable.relId → w'.known id = w.known id := by
  induction ts generalizing w with
  | nil => exact ⟨w, .nil w, rfl, rfl, fun t ht => (by cases ht), fun _ _ => rfl⟩
  | cons t ts ih =>
    obtain ⟨ht, hts⟩ := List.forall_mem_cons.mp hts
    obtain ⟨hnew, hdistinct⟩ := List.nodup_cons.mp hdistinct
    obtain ⟨w', hsends, hsent, hcurrent, hknown, hother⟩ :=
      ih (w := w.announce t) hsome hts hdistinct
    refine ⟨w', .cons (.announce hsome ht) hsends, hsent, hcurrent, ?_, fun id hid => ?_⟩
    · refine List.forall_mem_cons.mpr ⟨?_, hknown⟩
      rw [hother _ hnew, w.announce_known_self]
    · rw [List.map_cons, List.mem_cons, not_or] at hid
      rw [hother id hid.2, w.announce_known_of_ne hid.1]

omit [DecidableEq F] in
theorem sendsAll_change {w : Publisher F} {changes : List (Change F)}
    (hcurrent : w.current = some changes) {c : Change F} (hts : ∀ t ∈ c.tables, t ∈ tables) :
    ∃ ms w', SendsAll tables w ms w' ∧ w'.sent = w.sent ∧ w'.current = some (changes ++ [c]) := by
  have hdistinct : (c.tables.map PublishedTable.relId).Nodup := by
    cases c with
    | truncate ts => exact ts.distinct
    | _ => exact List.nodup_singleton _
  have hsome : w.current.isSome := by
    rw [hcurrent]
    rfl
  obtain ⟨w', hsends, hsent, hcurrent', hknown, -⟩ := sendsAll_announce hsome hts hdistinct
  exact ⟨_, _, hsends.append (.cons (.change (hcurrent'.trans hcurrent) hknown) (.nil _)), hsent,
    rfl⟩

omit [DecidableEq F] in
theorem sendsAll_changes {w : Publisher F} {done changes : List (Change F)}
    (hcurrent : w.current = some done) (hts : ∀ c ∈ changes, ∀ t ∈ c.tables, t ∈ tables) :
    ∃ ms w', SendsAll tables w ms w' ∧ w'.sent = w.sent ∧ w'.current = some (done ++ changes) := by
  induction changes generalizing w done with
  | nil => exact ⟨[], w, .nil w, rfl, by rw [hcurrent, List.append_nil]⟩
  | cons c changes ih =>
    obtain ⟨hc, hts⟩ := List.forall_mem_cons.mp hts
    obtain ⟨ms, w₁, hsends, hsent, hcurrent₁⟩ := sendsAll_change hcurrent hc
    obtain ⟨ms', w', hsends', hsent', hcurrent'⟩ := ih hcurrent₁ hts
    refine ⟨_, w', hsends.append hsends', hsent'.trans hsent, ?_⟩
    rw [hcurrent', List.append_assoc]
    rfl

omit [DecidableEq F] in
theorem sendsAll_txn {w : Publisher F} (hnone : w.current = none) {t : SourceTxn F}
    (hts : ∀ u ∈ t.tables, u ∈ tables) :
    ∃ ms w', SendsAll tables w ms w' ∧ w'.sent = w.sent ++ [t] ∧ w'.current = none := by
  have hbegin : w.Sends tables (.begin 0 .epoch 0) { w with current := some [] } :=
    .begin hnone ⟨by decide, by decide⟩
  obtain ⟨ms, w', hsends, hsent, hcurrent⟩ := sendsAll_changes
    (w := { w with current := some [] }) rfl
    fun c hc u hu => hts u (List.mem_flatMap.mpr ⟨c, hc, hu⟩)
  have hcommit : w'.Sends tables (.commit 0 0 t.endLsn .epoch)
      { w' with sent := w'.sent ++ [t], current := none } :=
    .commit hcurrent ⟨by decide, by decide, t.fits⟩
  refine ⟨_, _, .cons hbegin (hsends.append (.cons hcommit (.nil _))), ?_, rfl⟩
  exact congrArg (· ++ [t]) hsent

omit [DecidableEq F] in
theorem exists_sendsTxns {w : Publisher F} (hnone : w.current = none) {txns : List (SourceTxn F)}
    (hts : ∀ t ∈ txns, ∀ u ∈ t.tables, u ∈ tables) : ∃ groups, SendsTxns tables w txns groups := by
  induction txns generalizing w with
  | nil => exact ⟨[], .nil w⟩
  | cons t txns ih =>
    obtain ⟨ht, hts⟩ := List.forall_mem_cons.mp hts
    obtain ⟨ms, w', hsends, hsent, hnone'⟩ := sendsAll_txn hnone ht
    obtain ⟨groups, hgroups⟩ := ih hnone' hts
    exact ⟨ms :: groups, .cons hsends hsent hnone' hgroups⟩

end Publisher

theorem delivers_published (hcompatible : Compatible config tables) {w : Publisher F}
    {a : Assembly F} (h : Assembled config w a) (hnoted : Noted config tables w a)
    (hnone : w.current = none) {txns : List (SourceTxn F)} {groups : List (List Wire)}
    (hsends : Publisher.SendsTxns tables w txns groups) :
    delivers config a (txns.map (SourceTxn.sealed config))
      (groups.map fun ms => ms.map encodeMessage) = true := by
  induction hsends generalizing a with
  | nil => rfl
  | cons hfirst hsent hnone' _ ih =>
    obtain ⟨a', ha', hassembled, hnoted'⟩ := assemblePayloads_published hcompatible h hnoted hfirst
    rw [List.map_cons, List.map_cons, delivers, rendersTxn_published h hfirst hnone hsent hnone',
      ha']
    exact ih hassembled hnoted' hnone'

/-- A log of transactions on compatible tables can be sent to a new connection, and in every way it
is sent, with announcements, origins and types wherever they may stand, each group of messages is
one of the transaction's ops that the daemon takes in. -/
theorem published_delivers (hcompatible : Compatible config tables) {txns : List (SourceTxn F)}
    (htables : ∀ t ∈ txns, ∀ u ∈ t.tables, u ∈ tables) :
    (∃ groups, Publisher.SendsTxns tables .fresh txns groups) ∧
      ∀ groups, Publisher.SendsTxns tables .fresh txns groups →
        delivers config ⟨[], [], none⟩ (txns.map (SourceTxn.sealed config))
          (groups.map fun ms => ms.map encodeMessage) = true :=
  ⟨Publisher.exists_sendsTxns rfl htables, fun _ hsends =>
    delivers_published hcompatible (assembled_fresh config) (noted_fresh config tables) rfl hsends⟩

theorem published_delivers_orders :
    (∃ groups, Publisher.SendsTxns {ordersTable} .fresh [ordersTxn] groups) ∧
      ∀ groups, Publisher.SendsTxns {ordersTable} .fresh [ordersTxn] groups →
        delivers ordersConfig ⟨[], [], none⟩ ([ordersTxn].map (SourceTxn.sealed ordersConfig))
          (groups.map fun ms => ms.map encodeMessage) = true := by
  refine published_delivers ordersTable_compatible ?_
  rw [List.forall_mem_singleton]
  exact List.forall_mem_singleton.mpr rfl

end WalFlux
