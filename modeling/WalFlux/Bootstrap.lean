import WalFlux.Server

/-! `walflux setup` and `walflux teardown`, one database step at a time. -/

namespace WalFlux.Bootstrap

open Aggregates

def privilegeHint : String :=
  "walflux setup needs three things: the REPLICATION attribute (RDS instead: " ++
  "GRANT rds_replication TO your_role), CREATE on the database, and ownership " ++
  "of each source table — see the README's Requirements section"

/-- `' '.join(str(exc).split())` -/
def oneLine (msg : String) : String :=
  " ".intercalate (((msg.toList.splitOnP Python.isSpace).filter (· ≠ [])).map String.ofList)

/-- The handler around all of setup. -/
def wrapPrivilege : Error → Error
  | .insufficientPrivilege msg => .setup s!"{oneLine msg}; {privilegeHint}"
  | e => e

/-- A role without the REPLICATION attribute is refused the walsender connection. -/
def wrapConnect : Error → Error
  | .walflux msg =>
    if "replication".toList <:+: msg.toLower.toList then
      .setup s!"{oneLine msg}; {privilegeHint}"
    else .walflux msg
  | e => e

def sourceTables (config : Config) : List (String × String) :=
  (config.views.map fun v => (v.sourceSchema, v.sourceTable)).eraseDups

def requiredColumns (view : ViewSpec) : List String :=
  (view.groupBy ++ view.aggregates.filterMap AggSpec.column).eraseDups

/-- Where setup stands: the next statement it issues. -/
inductive Stage (F : Type)
  | version
  | walLevel
  | sources (left : List (String × String))
  | checkpointTable
  | publication
  | inspectSlot
  | dropSlot
  | deleteCheckpoint
  | connect
  | createSlot
  | backfill (consistentPoint : String) (snapshot : List (SealedTxn F))

inductive Status (σ : Type)
  | running (stage : σ)
  | finished
  | raised (e : Error)

/-- What the environment answers: an error of the statement, and for a new slot its position with
the text that reports it. -/
structure Reply where
  fault : Option Error
  lsn : ℕ
  consistentPoint : Option String

variable {ι T F : Type}

def raise {σ : Type} (s : Server ι T F) (e : Error) : Server ι T F × Status σ :=
  (s, .raised (wrapPrivilege e))

def checkServerVersion (s : Server ι T F) : Except Error Unit :=
  if s.catalog.versionNum < 150000 then
    .error (.setup (s!"Postgres {s.catalog.version} detected; WalFlux needs 15+ " ++
      "(target upserts use UNIQUE ... NULLS NOT DISTINCT)"))
  else .ok ()

def checkWalLevel (s : Server ι T F) : Except Error Unit :=
  if s.catalog.walLevel ≠ "logical" then
    .error (.setup (s!"wal_level is {Python.repr s.catalog.walLevel}; logical replication " ++
      "requires wal_level=logical (change it in postgresql.conf and restart Postgres)"))
  else .ok ()

def ensureSource (s : Server ι T F) (name : String × String) : Except Error (Server ι T F) :=
  match s.catalog.source name with
  | none => .error (.setup s!"source table {name.1}.{name.2} does not exist")
  | some table =>
    if table.replicaIdentity ≠ 'f' then do
      let _ ← quoteIdent name.1
      let _ ← quoteIdent name.2
      return { s with catalog := { s.catalog with
        source := Function.update s.catalog.source name
          (some { table with replicaIdentity := 'f' }) } }
    else return s

theorem ensureSource_ok {s s' : Server ι T F} {name : String × String}
    (h : ensureSource s name = .ok s') :
    ∃ catalog, s' = { s with catalog := catalog } := by
  rw [ensureSource] at h
  cases htable : s.catalog.source name with
  | none => simp [htable] at h
  | some table =>
    simp only [htable] at h
    split_ifs at h
    · obtain ⟨_, -, h⟩ := Except.bind_eq_ok.mp h
      obtain ⟨_, -, h⟩ := Except.bind_eq_ok.mp h
      exact ⟨_, (Except.pure_eq_ok.mp h).symm⟩
    · exact ⟨s.catalog, (Except.pure_eq_ok.mp h).symm⟩

/-- `_ensure_publication`: created or altered, it ends with the tables of the configuration. -/
def ensurePublication (config : Config) (s : Server ι T F) : Except Error (Server ι T F) := do
  let tables ← (sourceTables config).mapM fun name => do
    return ⟨← quoteIdent name.1, ← quoteIdent name.2⟩
  let _ ← quoteIdent config.publication
  return { s with publication := some tables }

/-- `_prepare_slot` up to the drop: whether there is a slot to drop. -/
def inspectSlot (config : Config) (force : Bool) (s : Server ι T F) : Except Error Bool :=
  match s.slot with
  | none => .ok false
  | some slot =>
    if force = false then
      .error (.setup (s!"replication slot {Python.repr config.slot} already exists; re-run with " ++
        "--force to drop and recreate it (this re-runs the backfill), or remove everything with " ++
        "`walflux teardown`"))
    else
      match slot.walsender with
      | some w => .error (.setup (s!"replication slot {Python.repr config.slot} is in use by " ++
          s!"pid {w.pid}; stop the daemon before running setup --force"))
      | none => .ok true

theorem inspectSlot_false {config : Config} {force : Bool} {s : Server ι T F}
    (h : inspectSlot config force s = .ok false) : s.slot = none := by
  rw [inspectSlot] at h
  cases hslot : s.slot with
  | none => rfl
  | some slot =>
    simp only [hslot] at h
    split_ifs at h
    cases hw : slot.walsender <;> simp [hw] at h

def dropSlot (s : Server ι T F) : Except Error (Server ι T F) :=
  match s.slot with
  | none => .error (.database "replication slot does not exist")
  | some slot =>
    if slot.walsender.isSome then .error (.database "replication slot is active")
    else .ok { s with slot := none }

theorem dropSlot_ok {s s' : Server ι T F} (h : dropSlot s = .ok s') :
    s' = { s with slot := none } := by
  rw [dropSlot] at h
  cases hslot : s.slot with
  | none => simp [hslot] at h
  | some slot =>
    simp only [hslot] at h
    split_ifs at h
    exact (Except.ok.inj h).symm

def deleteCheckpoint (s : Server ι T F) : Except Error (Server ι T F) :=
  match s.checkpoint with
  | none => .error (.database "relation does not exist")
  | some _ => .ok { s with checkpoint := some none }

theorem deleteCheckpoint_ok {s s' : Server ι T F} (h : deleteCheckpoint s = .ok s') :
    s' = { s with checkpoint := some none } := by
  rw [deleteCheckpoint] at h
  cases hc : s.checkpoint <;> simp only [hc, Except.ok.injEq, reduceCtorEq] at h
  exact h.symm

/-- `CREATE_REPLICATION_SLOT`: the consistent point lies after everything committed so far. -/
def createSlot (config : Config) (s : Server ι T F) (lsn : ℕ) : Except Error (Server ι T F) := do
  let _ ← quoteIdent config.slot
  match s.slot with
  | some _ => .error (.database "replication slot already exists")
  | none => return { s with slot := some ⟨lsn, none, none⟩, wal := lsn }

theorem createSlot_ok {config : Config} {s s' : Server ι T F} {lsn : ℕ}
    (h : createSlot config s lsn = .ok s') :
    s.slot = none ∧ s' = { s with slot := some ⟨lsn, none, none⟩, wal := lsn } := by
  obtain ⟨_, -, h⟩ := Except.bind_eq_ok.mp h
  cases hslot : s.slot with
  | some slot => simp [hslot] at h
  | none =>
    simp only [hslot] at h
    exact ⟨rfl, (Except.pure_eq_ok.mp h).symm⟩

def writeCheckpoint (s : Server ι T F) (lsn : ℕ) : Except Error (Server ι T F) :=
  match s.checkpoint with
  | none => .error (.database "relation does not exist")
  | some _ => .ok { s with checkpoint := some (some lsn) }

theorem writeCheckpoint_ok {s s' : Server ι T F} {lsn : ℕ} (h : writeCheckpoint s lsn = .ok s') :
    s' = { s with checkpoint := some (some lsn) } := by
  rw [writeCheckpoint] at h
  cases hc : s.checkpoint <;> simp only [hc, Except.ok.injEq, reduceCtorEq] at h
  exact h.symm

/-- The backfill transaction, which commits whole or not at all. -/
def backfill (fx : Effects T F) (s : Server ι T F) (consistentPoint : String)
    (snapshot : List (SealedTxn F)) : Except Error (Server ι T F) := do
  let targets ← fx.backfill snapshot s.targets
  let lsn ← parseLsn consistentPoint
  writeCheckpoint { s with targets := targets } lsn.toNat

theorem backfill_ok {fx : Effects T F} {s s' : Server ι T F} {text : String}
    {snapshot : List (SealedTxn F)} (h : backfill fx s text snapshot = .ok s') :
    ∃ targets lsn, fx.backfill snapshot s.targets = .ok targets ∧ parseLsn text = .ok lsn ∧
      s' = { s with checkpoint := some (some lsn.toNat), targets := targets } := by
  obtain ⟨targets, htargets, h⟩ := Except.bind_eq_ok.mp h
  obtain ⟨lsn, hlsn, h⟩ := Except.bind_eq_ok.mp h
  exact ⟨targets, lsn, htargets, hlsn, writeCheckpoint_ok h⟩

def next (s : Server ι T F) (r : Except Error (Server ι T F)) (stage : Stage F) :
    Server ι T F × Status (Stage F) :=
  match r with
  | .ok s => (s, .running stage)
  | .error e => raise s e

def setupStep (config : Config) (fx : Effects T F) (force : Bool) (reply : Reply)
    (s : Server ι T F) (stage : Stage F) : Server ι T F × Status (Stage F) :=
  match reply.fault, stage with
  | some e, .connect => raise s (wrapConnect e)
  | some e, _ => raise s e
  | none, .version => next s ((checkServerVersion s).map fun _ => s) .walLevel
  | none, .walLevel =>
    next s ((checkWalLevel s).map fun _ => s) (.sources (sourceTables config))
  | none, .sources [] => (s, .running .checkpointTable)
  | none, .sources (name :: left) => next s (ensureSource s name) (.sources left)
  -- `CREATE TABLE IF NOT EXISTS` keeps the row
  | none, .checkpointTable => ({ s with checkpoint := some s.row }, .running .publication)
  | none, .publication => next s (ensurePublication config s) .inspectSlot
  | none, .inspectSlot =>
    match inspectSlot config force s with
    | .ok true => (s, .running .dropSlot)
    | .ok false => (s, .running .deleteCheckpoint)
    | .error e => raise s e
  | none, .dropSlot => next s (dropSlot s) .deleteCheckpoint
  | none, .deleteCheckpoint => next s (deleteCheckpoint s) .connect
  | none, .connect => (s, .running .createSlot)
  | none, .createSlot =>
    match createSlot config s reply.lsn, reply.consistentPoint with
    | .error e, _ => raise s e
    -- the slot is there although the call raises
    | .ok s, none => raise s (.setup "CREATE_REPLICATION_SLOT returned no result row")
    | .ok s, some text => (s, .running (.backfill text s.history))
  | none, .backfill text snapshot =>
    match backfill fx s text snapshot with
    | .ok s => (s, .finished)
    | .error e => raise s e

/-! ### Teardown -/

inductive TeardownStage
  | inspectSlot
  | terminate
  | dropSlot (attempt : ℕ)
  | dropPublication
  | dropSchema

def dropAttempts : ℕ := 10

/-- One statement of `teardown`. A terminated walsender exits in its own time. -/
def teardownStep (config : Config) (fx : Effects T F) (fault : Option Error) (s : Server ι T F)
    (stage : TeardownStage) : Server ι T F × Status TeardownStage :=
  match stage, fault with
  | .dropSlot attempt, fault =>
    match fault.elim (dropSlot s) .error with
    | .ok s => (s, .running .dropPublication)
    | .error e =>
      if attempt + 1 = dropAttempts then (s, .raised e) else (s, .running (.dropSlot (attempt + 1)))
  | _, some e => (s, .raised e)
  | .inspectSlot, none =>
    match s.slot with
    | none => (s, .running .dropPublication)
    | some slot =>
      if slot.walsender.isSome then (s, .running .terminate) else (s, .running (.dropSlot 0))
  | .terminate, none => (s, .running (.dropSlot 0))
  | .dropPublication, none =>
    match quoteIdent config.publication with
    | .ok _ => ({ s with publication := none }, .running .dropSchema)
    | .error e => (s, .raised e)
  | .dropSchema, none => ({ s with checkpoint := none, targets := fx.dropped }, .finished)

end WalFlux.Bootstrap
