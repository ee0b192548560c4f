import WalFlux.ConfigFile.Names

/-! The configurations that can be loaded, and a document that loads as each of them. -/

namespace WalFlux.ConfigFile

open Aggregates Python

/-! ### The document of a configuration -/

def writeColumn (column : Option String) : Doc := (column.map Doc.str).getD .none

def writeAggregate (agg : AggSpec) : Doc :=
  .dict [(.str "fn", .str agg.fn.str), (.str "as", .str agg.as),
    (.str "column", writeColumn agg.column)]

def writeView (view : ViewSpec) : Doc :=
  .dict [(.str "name", .str view.name),
    (.str "source", .str (view.sourceSchema ++ "." ++ view.sourceTable)),
    (.str "group_by", .list (view.groupBy.map .str)),
    (.str "aggregates", .list (view.aggregates.map writeAggregate))]

def writeConfig (config : LoadedConfig) : Doc :=
  .dict [(.str "database", .dict [(.str "dsn", .str config.dsn)]),
    (.str "slot", .str config.slot), (.str "publication", .str config.publication),
    (.str "batch", .dict [(.str "max_ms", .int config.batchMaxMs),
      (.str "max_txns", .int config.batchMaxTxns)]),
    (.str "views", .list (config.views.map writeView))]

structure Complete (config : LoadedConfig) : Prop where
  accepted : AcceptedConfig config.toConfig
  batchMaxMs : 0 < config.batchMaxMs
  batchMaxTxns : 0 < config.batchMaxTxns
  views : config.views ≠ []
  aggregates : ∀ view ∈ config.views, view.aggregates ≠ []

/-- The DSN that counts: an empty variable is no variable. -/
def overriddenDsn (env : Option String) (dsn : String) : String :=
  match env with
  | some text => if text = "" then dsn else text
  | none => dsn

/-! ### Reading it back -/

theorem checkIdent_str {name what : String} (h : Quotable name) :
    checkIdent (.str name) what = .ok name :=
  checkIdent_ok_iff.mpr h

theorem notMem_dot {name : String} (h : Quotable name) : '.' ∉ name.toList := by
  intro hdot
  obtain ⟨c, cs, hname, hc, hcs⟩ := identRe_toList (quotable_iff.mp h).1
  rw [hname] at hdot
  rcases List.mem_cons.mp hdot with rfl | hdot
  · revert hc
    decide
  · rcases identTail_iff.mp hcs with hcs | ⟨ds, rfl, hds⟩
    · have hc := hcs '.' hdot
      revert hc
      decide
    · rcases List.mem_append.mp hdot with hdot | hdot
      · have hc := hds '.' hdot
        revert hc
        decide
      · revert hdot
        decide

theorem parseSource_written {schema table viewName : String} (hschema : Quotable schema)
    (htable : Quotable table) :
    parseSource (.str (schema ++ "." ++ table)) viewName = .ok (schema, table) := by
  have hsplit : (schema ++ "." ++ table).toList.splitOn '.' = [schema.toList, table.toList] := by
    rw [String.toList_append, String.toList_append, List.append_assoc]
    change (schema.toList ++ '.' :: table.toList).splitOn '.' = _
    rw [List.splitOn_append_cons_self_of_not_mem (notMem_dot hschema),
      List.splitOn_eq_singleton (notMem_dot htable)]
  rw [parseSource, splitSource, hsplit]
  simp only [String.ofList_toList]
  change (checkIdent (.str schema) _ >>= fun schema => checkIdent (.str table) _ >>= fun table =>
    pure (schema, table)) = _
  rw [checkIdent_str hschema, checkIdent_str htable]
  rfl

theorem parseFn_written (fn : AggFn) (viewName : String) :
    parseFn (.str fn.str) viewName = .ok fn := by
  cases fn <;> rfl

theorem parseColumn_written {column : Option String} {viewName as : String} {fn : AggFn}
    (hquotable : ∀ c, column = some c → Quotable c) (hsome : fn ≠ .count → column.isSome) :
    parseColumn (writeColumn column) viewName fn as = .ok column := by
  cases column with
  | none =>
    have hcount : ¬ fn ≠ .count := fun hne => by cases hsome hne
    exact if_neg hcount
  | some c =>
    change (checkIdent (.str c) _ >>= fun c => pure (some c)) = _
    rw [checkIdent_str (hquotable c rfl)]
    rfl

theorem checkAlias_written {agg : AggSpec} {viewName : String} {groupBy seenAliases : List String}
    (h : AcceptedAgg groupBy agg) (hseen : agg.as ∉ seenAliases) :
    checkAlias agg.fn agg.as viewName groupBy seenAliases = .ok () := by
  have hreserved : ¬ (agg.as = rowsColumn ∨ ∃ suffix ∈ reservedSuffixes,
      suffix.toList <:+ agg.as.toList) := by
    rintro (hrows | ⟨suffix, hsuffix, hend⟩)
    · exact h.as_ne_rows hrows
    · exact h.as_suffix suffix hsuffix hend
  have hroom : ¬ (agg.fn ≠ .count ∧ agg.as.utf8ByteSize + storageSuffixBytes > maxIdentBytes) :=
    fun hlong => not_lt.mpr (h.as_room hlong.1) hlong.2
  rw [checkAlias, if_neg hseen, if_neg h.as_notMem, if_neg hreserved, if_neg hroom]

theorem parseAggregate_written {agg : AggSpec} {viewName : String}
    {groupBy seenAliases : List String} (h : AcceptedAgg groupBy agg)
    (hseen : agg.as ∉ seenAliases) :
    parseAggregate (writeAggregate agg) viewName groupBy seenAliases = .ok agg := by
  refine Except.bind_eq_ok.mpr ⟨_, rfl, Except.bind_eq_ok.mpr ⟨_, rfl, ?_⟩⟩
  refine Except.bind_eq_ok.mpr ⟨_, parseFn_written agg.fn viewName,
    Except.bind_eq_ok.mpr ⟨_, rfl, ?_⟩⟩
  refine Except.bind_eq_ok.mpr ⟨_, checkIdent_str h.as_quotable, ?_⟩
  refine Except.bind_eq_ok.mpr ⟨_, parseColumn_written h.column_quotable h.column_isSome, ?_⟩
  exact Except.bind_eq_ok.mpr ⟨_, checkAlias_written h hseen, rfl⟩

theorem parseAggregates_written {aggs : List AggSpec} {viewName : String}
    {groupBy seenAliases : List String} (haggs : ∀ agg ∈ aggs, AcceptedAgg groupBy agg)
    (hseen : ∀ agg ∈ aggs, agg.as ∉ seenAliases) (hnodup : (aggs.map AggSpec.as).Nodup) :
    parseAggregates viewName groupBy (aggs.map writeAggregate) seenAliases = .ok aggs := by
  induction aggs generalizing seenAliases with
  | nil => rfl
  | cons agg aggs ih =>
    obtain ⟨hagg, haggs⟩ := List.forall_mem_cons.mp haggs
    obtain ⟨hfresh, hseen⟩ := List.forall_mem_cons.mp hseen
    obtain ⟨hne, hnodup⟩ := List.nodup_cons.mp hnodup
    refine Except.bind_eq_ok.mpr ⟨agg, parseAggregate_written hagg hfresh, ?_⟩
    refine Except.bind_eq_ok.mpr ⟨aggs, ih haggs (fun other hother => ?_) hnodup, rfl⟩
    exact List.not_mem_cons_of_ne_of_not_mem
      (fun heq => hne (heq ▸ List.mem_map_of_mem hother)) (hseen other hother)

theorem parseGroupBy_written {cols groupBy : List String} {viewName : String}
    (hcols : ∀ c ∈ cols, Quotable c ∧ c ≠ rowsColumn) (hnodup : (groupBy ++ cols).Nodup) :
    parseGroupBy viewName (cols.map .str) groupBy = .ok (groupBy ++ cols) := by
  induction cols generalizing groupBy with
  | nil => rw [List.append_nil, List.map_nil, parseGroupBy]
  | cons col cols ih =>
    obtain ⟨⟨hquotable, hrows⟩, hcols⟩ := List.forall_mem_cons.mp hcols
    have hfresh : col ∉ groupBy := fun hmem =>
      (List.disjoint_of_nodup_append hnodup) hmem List.mem_cons_self
    refine Except.bind_eq_ok.mpr ⟨col, checkIdent_str hquotable, ?_⟩
    rw [if_neg hrows, if_neg hfresh, ih hcols]
    · rw [List.append_assoc, List.singleton_append]
    · rwa [List.append_assoc, List.singleton_append]

theorem requireItems_written {α : Type} {items : List α} {write : α → Doc} {missing what : String}
    (hne : items ≠ []) : requireItems (.list (items.map write)) missing what =
      .ok (items.map write) := by
  cases items with
  | nil => exact absurd rfl hne
  | cons item items => rfl

theorem parseView_written {view : ViewSpec} {seenNames : List String} (h : AcceptedView view)
    (haggs : view.aggregates ≠ []) (hseen : view.name ∉ seenNames) :
    parseView (writeView view) seenNames = .ok view := by
  obtain ⟨hname, hsource⟩ := List.forall_mem_cons.mp h.names
  obtain ⟨hschema, htable⟩ := List.forall_mem_cons.mp hsource
  refine Except.bind_eq_ok.mpr ⟨_, rfl, Except.bind_eq_ok.mpr ⟨_, rfl, ?_⟩⟩
  refine Except.bind_eq_ok.mpr ⟨_, checkIdent_str hname, ?_⟩
  rw [if_neg hseen]
  refine Except.bind_eq_ok.mpr ⟨_, rfl, ?_⟩
  refine Except.bind_eq_ok.mpr ⟨_, parseSource_written hschema (htable _ List.mem_cons_self), ?_⟩
  refine Except.bind_eq_ok.mpr ⟨_, rfl, ?_⟩
  refine Except.bind_eq_ok.mpr ⟨_, parseGroupBy_written h.groupBy h.nodup_groupBy, ?_⟩
  refine Except.bind_eq_ok.mpr ⟨_, requireItems_written haggs, ?_⟩
  refine Except.bind_eq_ok.mpr ⟨_, parseAggregates_written h.aggregates (fun agg _ hmem => ?_)
    h.nodup_aliases, rfl⟩
  cases hmem

theorem parseViews_written {views : List ViewSpec} {seenNames : List String}
    (hviews : ∀ view ∈ views, AcceptedView view ∧ view.aggregates ≠ [])
    (hseen : ∀ view ∈ views, view.name ∉ seenNames) (hnodup : (views.map ViewSpec.name).Nodup) :
    parseViews (views.map writeView) seenNames = .ok views := by
  induction views generalizing seenNames with
  | nil => rfl
  | cons view views ih =>
    obtain ⟨⟨hview, haggs⟩, hviews⟩ := List.forall_mem_cons.mp hviews
    obtain ⟨hfresh, hseen⟩ := List.forall_mem_cons.mp hseen
    obtain ⟨hne, hnodup⟩ := List.nodup_cons.mp hnodup
    refine Except.bind_eq_ok.mpr ⟨view, parseView_written hview haggs hfresh, ?_⟩
    refine Except.bind_eq_ok.mpr ⟨views, ih hviews (fun other hother => ?_) hnodup, rfl⟩
    exact List.not_mem_cons_of_ne_of_not_mem
      (fun heq => hne (heq ▸ List.mem_map_of_mem hother)) (hseen other hother)

theorem parseDsn_written (env : Option String) (dsn : String) :
    parseDsn env [(.str "dsn", .str dsn)] = .ok (overriddenDsn env dsn) := by
  cases env with
  | none => rfl
  | some text =>
    by_cases htext : text = ""
    · subst htext
      rfl
    · simp [parseDsn, overriddenDsn, htext, Doc.orElse, Doc.truthy]

theorem positiveInt_written {n : ℕ} {what : String} {default : ℕ} (hn : 0 < n) :
    positiveInt (.int n) what default = .ok n := by
  have hpos : ¬ (n : ℤ) ≤ 0 := by omega
  rw [positiveInt, if_neg hpos, Int.toNat_natCast]

theorem loadConfig_written {config : LoadedConfig} (h : Complete config) (path : String)
    (env : Option String) : loadConfig path env (.doc (writeConfig config)) =
      .ok { config with dsn := overriddenDsn env config.dsn } := by
  refine Except.bind_eq_ok.mpr ⟨_, rfl, Except.bind_eq_ok.mpr ⟨_, rfl, ?_⟩⟩
  refine Except.bind_eq_ok.mpr ⟨_, rfl, Except.bind_eq_ok.mpr ⟨_,
    parseDsn_written env config.dsn, ?_⟩⟩
  refine Except.bind_eq_ok.mpr ⟨_, checkIdent_str h.accepted.slot, ?_⟩
  refine Except.bind_eq_ok.mpr ⟨_, checkIdent_str h.accepted.publication, ?_⟩
  refine Except.bind_eq_ok.mpr ⟨_, rfl, Except.bind_eq_ok.mpr ⟨_,
    positiveInt_written h.batchMaxMs, ?_⟩⟩
  refine Except.bind_eq_ok.mpr ⟨_, positiveInt_written h.batchMaxTxns, ?_⟩
  refine Except.bind_eq_ok.mpr ⟨_, requireItems_written h.views, ?_⟩
  refine Except.bind_eq_ok.mpr ⟨_, parseViews_written (fun view hview => ?_) (fun view _ hmem => ?_)
    h.accepted.nodup_names, rfl⟩
  · exact ⟨h.accepted.views view hview, h.aggregates view hview⟩
  · cases hmem

/-! ### Every loaded configuration -/

theorem requireItems_ok {value : Doc} {missing what : String} {items : List Doc}
    (h : requireItems value missing what = .ok items) : items ≠ [] := by
  unfold requireItems at h
  split at h
  · cases h
  · cases h
  · rename_i hne
    cases h
    exact hne
  · cases h

theorem positiveInt_ok {value : Doc} {what : String} {default n : ℕ} (hdefault : 0 < default)
    (h : positiveInt value what default = .ok n) : 0 < n := by
  unfold positiveInt at h
  split at h
  · cases h
    exact hdefault
  · split_ifs at h with hpos
    · exact absurd h showing_ne_ok
    · cases h
      omega
  · exact absurd h showing_ne_ok

theorem parseAggregates_ne_nil {viewName : String} {groupBy : List String} {raws : List Doc}
    {seenAliases : List String} {aggs : List AggSpec} (hne : raws ≠ [])
    (h : parseAggregates viewName groupBy raws seenAliases = .ok aggs) : aggs ≠ [] := by
  cases raws with
  | nil => exact absurd rfl hne
  | cons raw raws =>
    obtain ⟨agg, -, h⟩ := Except.bind_eq_ok.mp h
    obtain ⟨rest, -, h⟩ := Except.bind_eq_ok.mp h
    cases Except.pure_eq_ok.mp h
    exact List.cons_ne_nil _ _

theorem parseView_ne_nil {raw : Doc} {seenNames : List String} {view : ViewSpec}
    (h : parseView raw seenNames = .ok view) : view.aggregates ≠ [] := by
  obtain ⟨items, -, h⟩ := Except.bind_eq_ok.mp h
  obtain ⟨nameRaw, -, h⟩ := Except.bind_eq_ok.mp h
  obtain ⟨name, -, h⟩ := Except.bind_eq_ok.mp h
  split_ifs at h
  obtain ⟨sourceRaw, -, h⟩ := Except.bind_eq_ok.mp h
  obtain ⟨⟨schema, table⟩, -, h⟩ := Except.bind_eq_ok.mp h
  obtain ⟨groupByRaw, -, h⟩ := Except.bind_eq_ok.mp h
  obtain ⟨groupBy, -, h⟩ := Except.bind_eq_ok.mp h
  obtain ⟨aggsRaw, hraws, h⟩ := Except.bind_eq_ok.mp h
  obtain ⟨aggregates, haggs, h⟩ := Except.bind_eq_ok.mp h
  cases Except.pure_eq_ok.mp h
  exact parseAggregates_ne_nil (requireItems_ok hraws) haggs

theorem parseViews_ne_nil {raws : List Doc} {seenNames : List String} {views : List ViewSpec}
    (h : parseViews raws seenNames = .ok views) :
    (raws ≠ [] → views ≠ []) ∧ ∀ view ∈ views, view.aggregates ≠ [] := by
  induction raws generalizing seenNames views with
  | nil =>
    cases h
    exact ⟨fun hne => absurd rfl hne, fun view hview => (by cases hview)⟩
  | cons raw raws ih =>
    obtain ⟨view, hview, h⟩ := Except.bind_eq_ok.mp h
    obtain ⟨rest, hrest, h⟩ := Except.bind_eq_ok.mp h
    cases Except.pure_eq_ok.mp h
    exact ⟨fun _ => List.cons_ne_nil _ _, List.forall_mem_cons.mpr ⟨parseView_ne_nil hview,
      (ih hrest).2⟩⟩

theorem loadConfig_complete {path : String} {env : Option String} {opened : Opened}
    {config : LoadedConfig} (h : loadConfig path env opened = .ok config) : Complete config := by
  have haccepted := loadConfig_ok h
  obtain ⟨raw, -, h⟩ := Except.bind_eq_ok.mp h
  obtain ⟨doc, -, h⟩ := Except.bind_eq_ok.mp h
  obtain ⟨database, -, h⟩ := Except.bind_eq_ok.mp h
  obtain ⟨dsn, -, h⟩ := Except.bind_eq_ok.mp h
  obtain ⟨slot, -, h⟩ := Except.bind_eq_ok.mp h
  obtain ⟨publication, -, h⟩ := Except.bind_eq_ok.mp h
  obtain ⟨batch, -, h⟩ := Except.bind_eq_ok.mp h
  obtain ⟨batchMaxMs, hms, h⟩ := Except.bind_eq_ok.mp h
  obtain ⟨batchMaxTxns, htxns, h⟩ := Except.bind_eq_ok.mp h
  obtain ⟨rawViews, hraws, h⟩ := Except.bind_eq_ok.mp h
  obtain ⟨views, hviews, h⟩ := Except.bind_eq_ok.mp h
  cases Except.pure_eq_ok.mp h
  obtain ⟨hne, haggs⟩ := parseViews_ne_nil hviews
  exact ⟨haccepted, positiveInt_ok (by decide) hms, positiveInt_ok (by decide) htxns,
    hne (requireItems_ok hraws), haggs⟩

/-- The configurations that can be loaded are the complete ones, and each of them is what its own
document loads as, but for the DSN that the environment overrides. -/
theorem written_loads (config : LoadedConfig) :
    (Complete config ↔ ∃ path env opened, loadConfig path env opened = .ok config) ∧
    (Complete config → ∀ path env, loadConfig path env (.doc (writeConfig config)) =
      .ok { config with dsn := overriddenDsn env config.dsn }) := by
  refine ⟨⟨fun h => ⟨"", none, _, loadConfig_written h "" none⟩, ?_⟩, loadConfig_written⟩
  rintro ⟨path, env, opened, hload⟩
  exact loadConfig_complete hload

/-! ### Every other document -/

def PartOf (raw value : Doc) : Prop := value.repr = none → raw.repr = none

theorem PartOf.get {raw : Doc} {items : List (Doc × Doc)} (h : PartOf raw (.dict items))
    (key : String) :
    PartOf raw (Doc.get items key) := fun hnone => h (Doc.repr_dict_eq_none hnone)

theorem PartOf.item {raw item : Doc} {items : List Doc} (h : PartOf raw (.list items))
    (hitem : item ∈ items) : PartOf raw item := fun hnone => h (Doc.repr_list_eq_none hitem hnone)

theorem PartOf.orElse {raw a b : Doc} (ha : PartOf raw a) (hb : PartOf raw b) :
    PartOf raw (a.orElse b) := by
  rw [Doc.orElse]
  split_ifs
  · exact ha
  · exact hb

theorem partOf_str (raw : Doc) (s : String) : PartOf raw (.str s) := by
  intro h
  rw [Doc.repr] at h
  cases h

theorem partOf_none (raw : Doc) : PartOf raw .none := by
  intro h
  rw [Doc.repr] at h
  cases h

theorem partOf_empty (raw : Doc) : PartOf raw (.dict []) := by
  intro h
  rw [Doc.repr, Doc.reprEntries] at h
  cases h

def Rejects {α : Type} (raw : Doc) (x : Except Error α) : Prop :=
  ∀ e, x = .error e → (∃ msg, e = .config msg) ∨ e = .value ∧ raw.repr = none

variable {raw : Doc}

theorem Rejects.bind {α β : Type} {x : Except Error α} {f : α → Except Error β}
    (hx : Rejects raw x) (hf : ∀ a, x = .ok a → Rejects raw (f a)) : Rejects raw (x >>= f) := by
  cases x with
  | error e =>
    rintro _ ⟨⟩
    exact hx e rfl
  | ok a => exact hf a rfl

theorem rejects_ok {α : Type} (a : α) : Rejects raw (.ok a) := fun e he => by cases he

theorem rejects_config {α : Type} (msg : String) :
    Rejects raw (.error (.config msg) : Except Error α) := by
  rintro _ ⟨⟩
  exact .inl ⟨msg, rfl⟩

theorem PartOf.rejects {α : Type} {value : Doc} (h : PartOf raw value) (message : String → String) :
    Rejects raw (showing value message : Except Error α) := by
  intro e he
  obtain ⟨hshow, hnone⟩ | ⟨msg, hshow⟩ := showing_error (α := α) value message
  · rw [hshow] at he
    cases he
    exact .inr ⟨rfl, h hnone⟩
  · rw [hshow] at he
    cases he
    exact .inl ⟨msg, rfl⟩

theorem requireMapping_rejects (value : Doc) (what : String) :
    Rejects raw (requireMapping value what) := by
  cases value with
  | dict items => exact rejects_ok items
  | _ => exact rejects_config _

theorem requireMapping_eq {value : Doc} {what : String} {items : List (Doc × Doc)}
    (h : requireMapping value what = .ok items) : value = .dict items := by
  cases value <;> cases h
  rfl

theorem PartOf.mapping {value : Doc} {what : String} {items : List (Doc × Doc)}
    (h : PartOf raw value) (hitems : requireMapping value what = .ok items) :
    PartOf raw (.dict items) :=
  requireMapping_eq hitems ▸ h

theorem checkIdent_rejects {value : Doc} (h : PartOf raw value) (what : String) :
    Rejects raw (checkIdent value what) := by
  unfold checkIdent
  split
  · split_ifs
    · exact rejects_config _
    · exact rejects_config _
    · exact rejects_ok _
  · exact h.rejects _

theorem positiveInt_rejects {value : Doc} (h : PartOf raw value) (what : String) (default : ℕ) :
    Rejects raw (positiveInt value what default) := by
  unfold positiveInt
  split
  · exact rejects_ok default
  · split_ifs
    · exact h.rejects _
    · exact rejects_ok _
  · exact h.rejects _

theorem requireKey_rejects (value : Doc) (missing : String) :
    Rejects raw (requireKey value missing) := by
  cases value with
  | none => exact rejects_config _
  | _ => exact rejects_ok _

theorem PartOf.key {value parsed : Doc} {missing : String} (h : PartOf raw value)
    (hvalue : requireKey value missing = .ok parsed) : PartOf raw parsed := by
  cases value <;> cases hvalue <;> exact h

theorem requireItems_rejects (value : Doc) (missing what : String) :
    Rejects raw (requireItems value missing what) := by
  unfold requireItems
  split
  · exact rejects_config _
  · exact rejects_config _
  · exact rejects_ok _
  · exact rejects_config _

theorem PartOf.items {value : Doc} {missing what : String} {items : List Doc} (h : PartOf raw value)
    (hitems : requireItems value missing what = .ok items) : ∀ item ∈ items, PartOf raw item := by
  unfold requireItems at hitems
  split at hitems
  · cases hitems
  · cases hitems
  · cases hitems
    exact fun item hitem => h.item hitem
  · cases hitems

theorem parseSource_rejects {value : Doc} (h : PartOf raw value) (viewName : String) :
    Rejects raw (parseSource value viewName) := by
  have hsplit : Rejects raw (splitSource value viewName) := by
    unfold splitSource
    split
    · split
      · exact rejects_ok _
      · exact rejects_ok _
      · exact rejects_config _
    · exact h.rejects _
  refine hsplit.bind fun source _ => ?_
  refine (checkIdent_rejects (partOf_str raw source.1) _).bind fun schema _ => ?_
  exact (checkIdent_rejects (partOf_str raw source.2) _).bind fun _ _ => rejects_ok _

theorem parseFn_rejects {fn : Doc} (h : PartOf raw fn) (viewName : String) :
    Rejects raw (parseFn fn viewName) := by
  unfold parseFn
  split
  · exact rejects_ok _
  · exact rejects_ok _
  · exact rejects_ok _
  · exact h.rejects _

theorem parseColumn_rejects {column : Doc} (h : PartOf raw column) (viewName : String) (fn : AggFn)
    (as : String) : Rejects raw (parseColumn column viewName fn as) := by
  unfold parseColumn
  split
  · split_ifs
    · exact rejects_config _
    · exact rejects_ok _
  · exact (checkIdent_rejects h _).bind fun _ _ => rejects_ok _

theorem checkAlias_rejects (fn : AggFn) (as viewName : String) (groupBy seenAliases : List String) :
    Rejects raw (checkAlias fn as viewName groupBy seenAliases) := by
  unfold checkAlias
  split_ifs
  · exact rejects_config _
  · exact rejects_config _
  · exact rejects_config _
  · exact rejects_config _
  · exact rejects_ok _

theorem parseAggregate_rejects {value : Doc} (h : PartOf raw value) (viewName : String)
    (groupBy seenAliases : List String) :
    Rejects raw (parseAggregate value viewName groupBy seenAliases) := by
  refine (requireMapping_rejects _ _).bind fun agg hagg => ?_
  have hget := (h.mapping hagg).get
  refine (requireKey_rejects _ _).bind fun fnRaw hfn => ?_
  refine (parseFn_rejects ((hget "fn").key hfn) _).bind fun fn _ => ?_
  refine (requireKey_rejects _ _).bind fun asRaw has => ?_
  refine (checkIdent_rejects ((hget "as").key has) _).bind fun as _ => ?_
  refine (parseColumn_rejects (hget "column") _ _ _).bind fun column _ => ?_
  exact (checkAlias_rejects _ _ _ _ _).bind fun _ _ => rejects_ok _

theorem parseAggregates_rejects (viewName : String) (groupBy : List String) {values : List Doc}
    (h : ∀ value ∈ values, PartOf raw value) (seenAliases : List String) :
    Rejects raw (parseAggregates viewName groupBy values seenAliases) := by
  induction values generalizing seenAliases with
  | nil => exact rejects_ok _
  | cons value values ih =>
    obtain ⟨hvalue, hvalues⟩ := List.forall_mem_cons.mp h
    refine (parseAggregate_rejects hvalue _ _ _).bind fun agg _ => ?_
    exact (ih hvalues _).bind fun _ _ => rejects_ok _

theorem parseGroupBy_rejects (viewName : String) {values : List Doc}
    (h : ∀ value ∈ values, PartOf raw value) (groupBy : List String) :
    Rejects raw (parseGroupBy viewName values groupBy) := by
  induction values generalizing groupBy with
  | nil => exact rejects_ok _
  | cons value values ih =>
    obtain ⟨hvalue, hvalues⟩ := List.forall_mem_cons.mp h
    refine (checkIdent_rejects hvalue _).bind fun col _ => ?_
    split_ifs
    · exact rejects_config _
    · exact rejects_config _
    · exact ih hvalues _

theorem groupByItems_rejects (value : Doc) (viewName : String) :
    Rejects raw (groupByItems value viewName) := by
  unfold groupByItems
  split
  · exact rejects_ok _
  · exact rejects_ok _
  · exact rejects_config _

theorem PartOf.groupBy {value : Doc} {viewName : String} {items : List Doc} (h : PartOf raw value)
    (hitems : groupByItems value viewName = .ok items) : ∀ item ∈ items, PartOf raw item := by
  unfold groupByItems at hitems
  split at hitems
  · cases hitems
    exact fun item hitem => by cases hitem
  · cases hitems
    exact fun item hitem => h.item hitem
  · cases hitems

theorem parseView_rejects {value : Doc} (h : PartOf raw value) (seenNames : List String) :
    Rejects raw (parseView value seenNames) := by
  refine (requireMapping_rejects _ _).bind fun view hview => ?_
  have hget := (h.mapping hview).get
  refine (requireKey_rejects _ _).bind fun nameRaw hname => ?_
  refine (checkIdent_rejects ((hget "name").key hname) _).bind fun name _ => ?_
  split_ifs
  · exact rejects_config _
  · refine (requireKey_rejects _ _).bind fun source hsource => ?_
    refine (parseSource_rejects ((hget "source").key hsource) _).bind fun key _ => ?_
    refine (groupByItems_rejects _ _).bind fun items hitems => ?_
    refine (parseGroupBy_rejects _ ((hget "group_by").groupBy hitems) _).bind fun groupBy _ => ?_
    refine (requireItems_rejects _ _ _).bind fun aggs haggs => ?_
    refine (parseAggregates_rejects _ _ ((hget "aggregates").items haggs) _).bind fun _ _ => ?_
    exact rejects_ok _

theorem parseViews_rejects {values : List Doc} (h : ∀ value ∈ values, PartOf raw value)
    (seenNames : List String) : Rejects raw (parseViews values seenNames) := by
  induction values generalizing seenNames with
  | nil => exact rejects_ok _
  | cons value values ih =>
    obtain ⟨hvalue, hvalues⟩ := List.forall_mem_cons.mp h
    refine (parseView_rejects hvalue _).bind fun view _ => ?_
    exact (ih hvalues _).bind fun _ _ => rejects_ok _

theorem parseDsn_rejects {database : List (Doc × Doc)} (h : PartOf raw (.dict database))
    (env : Option String) : Rejects raw (parseDsn env database) := by
  have henv : PartOf raw ((env.map Doc.str).getD .none) := by
    cases env with
    | none => exact partOf_none raw
    | some text => exact partOf_str raw text
  have hdsn := henv.orElse (h.get "dsn")
  unfold parseDsn
  split
  · exact rejects_config _
  · exact rejects_ok _
  · exact hdsn.rejects _

theorem optionalIdent_rejects {value : Doc} (h : PartOf raw value) (what default : String) :
    Rejects raw (optionalIdent value what default) := by
  unfold optionalIdent
  split
  · exact rejects_ok _
  · exact checkIdent_rejects h _

theorem loadConfig_rejects (path : String) (env : Option String) (raw : Doc) :
    Rejects raw (loadConfig path env (.doc raw)) := by
  refine (rejects_ok raw).bind fun doc hdoc => ?_
  cases hdoc
  refine (requireMapping_rejects _ _).bind fun doc hdoc => ?_
  have hget := (show PartOf raw raw from id).mapping hdoc |>.get
  refine (requireMapping_rejects _ _).bind fun database hdatabase => ?_
  have hdatabase := ((hget "database").orElse (partOf_empty raw)).mapping hdatabase
  refine (parseDsn_rejects hdatabase _).bind fun dsn _ => ?_
  refine (optionalIdent_rejects (hget "slot") _ _).bind fun slot _ => ?_
  refine (optionalIdent_rejects (hget "publication") _ _).bind fun publication _ => ?_
  refine (requireMapping_rejects _ _).bind fun batch hbatch => ?_
  have hbatch := (((hget "batch").orElse (partOf_empty raw)).mapping hbatch).get
  refine (positiveInt_rejects (hbatch "max_ms") _ _).bind fun ms _ => ?_
  refine (positiveInt_rejects (hbatch "max_txns") _ _).bind fun txns _ => ?_
  refine (requireItems_rejects _ _ _).bind fun views hviews => ?_
  exact (parseViews_rejects ((hget "views").items hviews) _).bind fun _ _ => rejects_ok _

/-- A file that opens, whatever it holds, and one that does not open in a way that is handled, is
loaded or rejected with a `ConfigError`; but for a document with an integer too long to be shown,
for which showing it may raise. -/
theorem loadConfig_outcome (path : String) (env : Option String) (opened : Opened) :
    (∃ config, loadConfig path env opened = .ok config ∧ Complete config) ∨
      (∃ msg, loadConfig path env opened = .error (.config msg)) ∨
      (∃ raw, opened = .doc raw ∧ raw.repr = none ∧ loadConfig path env opened = .error .value) ∨
      ∃ e, opened = .raised e ∧ loadConfig path env opened = .error e := by
  cases hopened : opened with
  | raised e => exact .inr (.inr (.inr ⟨e, rfl, rfl⟩))
  | notFound => exact .inr (.inl ⟨_, rfl⟩)
  | osError text => exact .inr (.inl ⟨_, rfl⟩)
  | yamlError text => exact .inr (.inl ⟨_, rfl⟩)
  | doc raw =>
    cases hresult : loadConfig path env (.doc raw) with
    | ok config => exact .inl ⟨config, rfl, loadConfig_complete hresult⟩
    | error e =>
      obtain ⟨msg, rfl⟩ | ⟨rfl, hnone⟩ := loadConfig_rejects path env raw e hresult
      · exact .inr (.inl ⟨msg, rfl⟩)
      · exact .inr (.inr (.inl ⟨raw, rfl, hnone, rfl⟩))

end WalFlux.ConfigFile
