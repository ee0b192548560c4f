import WalFlux.Aggregates.DeltaBatch
import WalFlux.Library.Except
import WalFlux.Protocol.Decode

/-! The daemon's main loop: relations resolved to views, row messages turned into ops, whole
transactions sealed and batched. -/

namespace WalFlux

open Aggregates Protocol Python

structure Config where
  slot : String
  publication : String
  batchMaxMs : ℕ
  batchMaxTxns : ℕ
  views : List ViewSpec

/-- `_SealedTxn`: a whole source transaction, Begin..Commit. -/
structure SealedTxn (F : Type) where
  endLsn : ℕ
  ops : List (Op F)
  deriving DecidableEq

namespace Daemon

/-! ### Relations -/

def viewsByTable (config : Config) : Dict (String × String) (List ViewSpec) :=
  config.views.foldl (fun d view => d.push (view.sourceSchema, view.sourceTable) view) []

def viewsOf (config : Config) (rel : Relation) : List ViewSpec :=
  (Dict.get? (viewsByTable config) (rel.ns, rel.name)).getD []

def requiredColumns (view : ViewSpec) : List String :=
  (view.groupBy ++ view.aggregates.filterMap AggSpec.column).eraseDups

/-- `sorted(_required_columns(view) - available)` -/
def missingColumns (view : ViewSpec) (available : List String) : List String :=
  ((requiredColumns view).filter fun c => c ∉ available).insertionSort (· ≤ ·)

/-- What the messages of a connection have built up: the relation cache, the ids that ever resolved
to a view, and the buffer of the open Begin..Commit. -/
structure Assembly (F : Type) where
  relations : Dict ℕ Relation
  viewRelIds : List ℕ
  openOps : Option (List (Op F))

def checkColumns (rel : Relation) : List ViewSpec → Except Error Unit
  | [] => .ok ()
  | view :: views =>
    let missing := missingColumns view (rel.columns.map Column.name)
    let names := ", ".intercalate missing
    if missing ≠ [] then
      .error (.schemaDrift (s!"source table {rel.ns}.{rel.name} no longer has column(s) {names} " ++
        s!"needed by view {Python.repr view.name}; fix the schema and re-run " ++
        "`walflux setup --force`"))
    else checkColumns rel views

variable {F : Type}

def onRelation (config : Config) (a : Assembly F) (rel : Relation) : Except Error (Assembly F) :=
  let relations := a.relations.set rel.relId rel
  let views := viewsOf config rel
  if views = [] then
    if rel.relId ∈ a.viewRelIds then
      let was := match Dict.get? a.relations rel.relId with
        | some previous => s!"{previous.ns}.{previous.name}"
        | none => "a configured source table"
      .error (.schemaDrift (s!"source table {was} is now {rel.ns}.{rel.name} (renamed or " ++
        "moved to another schema); update the config and re-run `walflux setup --force`"))
    else .ok { a with relations := relations }
  else do
    checkColumns rel views
    return { a with relations := relations, viewRelIds := a.viewRelIds.insert rel.relId }

/-! ### Row messages -/

variable [PyFloat F]

def decodeCell (column : Column) : ColumnValue → Except Error (Value F)
  | .null => .ok .none
  | .unchangedToast => .ok .unchangedToast
  | .text s => convertValue (some s) column.typeOid

/-- `_decode_row`; the columns and the values must be equally many. -/
def decodeRow (columns : List Column) (data : TupleData) : Except Error (Row F) :=
  go columns data []
where
  go : List Column → TupleData → Row F → Except Error (Row F)
    | [], [], row => .ok row
    | column :: columns, value :: data, row => do
      let value ← decodeCell column value
      go columns data (row.set column.name value)
    | _, _, _ => .error .value

def fillUnchanged (old new : Row F) : Except Error (Row F) :=
  new.mapM fun p => do
    match p.2 with
    | .unchangedToast => return (p.1, ← old.index p.1)
    | value => return (p.1, value)

def relationOf (a : Assembly F) (relId : ℕ) : Except Error Relation :=
  match Dict.get? a.relations relId with
  | some rel => .ok rel
  | none => .error (.protocol s!"row message for unknown relation id {relId}")

def truncateOps (config : Config) (a : Assembly F) (relIds : List ℕ) : List (Op F) :=
  relIds.flatMap fun relId =>
    match Dict.get? a.relations relId with
    | none => []
    | some rel => (viewsOf config rel).map fun view => .truncate view.name

def insertOps (config : Config) (a : Assembly F) (m : Insert) : Except Error (List (Op F)) := do
  let rel ← relationOf a m.relId
  let views := viewsOf config rel
  if views = [] then return []
  else
    let row ← decodeRow rel.columns m.new
    return views.map fun view => .insert view.name row

def updateOps (config : Config) (a : Assembly F) (m : Update) : Except Error (List (Op F)) := do
  let rel ← relationOf a m.relId
  let views := viewsOf config rel
  if views = [] then return []
  else
    match m.old with
    | none => .error (.schemaDrift (s!"update on {rel.ns}.{rel.name} arrived without the old " ++
        "row; the table needs REPLICA IDENTITY FULL — re-run `walflux setup --force`"))
    | some old =>
      let old ← decodeRow rel.columns old
      let new ← fillUnchanged old (← decodeRow rel.columns m.new)
      return views.map fun view => .update view.name old new

def deleteOps (config : Config) (a : Assembly F) (m : Delete) : Except Error (List (Op F)) := do
  let rel ← relationOf a m.relId
  let views := viewsOf config rel
  if views = [] then return []
  else
    match m.old with
    | none => .error (.schemaDrift (s!"delete on {rel.ns}.{rel.name} arrived without the old " ++
        "row; the table needs REPLICA IDENTITY FULL — re-run `walflux setup --force`"))
    | some old =>
      let row ← decodeRow rel.columns old
      return views.map fun view => .delete view.name row

def extendOpen (a : Assembly F) (kind : String) (ops : Except Error (List (Op F))) :
    Except Error (Assembly F) :=
  match a.openOps with
  | none => .error (.protocol s!"{kind} message outside Begin..Commit")
  -- the buffer is looked at before the row is decoded
  | some buffered => do return { a with openOps := some (buffered ++ (← ops)) }

/-- One decoded message; a Commit only closes the buffer here. -/
def assemble (config : Config) (a : Assembly F) : Message → Except Error (Assembly F)
  | .begin _ => .ok { a with openOps := some [] }
  | .commit _ => .ok { a with openOps := none }
  | .relation rel => onRelation config a rel
  | .insert m => extendOpen a "Insert" (insertOps config a m)
  | .update m => extendOpen a "Update" (updateOps config a m)
  | .delete m => extendOpen a "Delete" (deleteOps config a m)
  | .truncate m => extendOpen a "Truncate" (.ok (truncateOps config a m.relIds))
  | .origin _ => .ok a
  | .typeInfo _ => .ok a

/-! ### The loop -/

/-- The state of `_loop`; `oldest` is the arrival time of the oldest unflushed transaction. -/
structure Loop (F : Type) where
  assembly : Assembly F
  checkpointLsn : ℕ
  pending : List (SealedTxn F)
  oldest : Option ℚ

def Loop.init (checkpoint : ℕ) : Loop F := ⟨⟨[], [], none⟩, checkpoint, [], none⟩

/-- The body of `_loop` up to the flush. A transaction at or below the checkpoint was applied before
and is skipped. -/
def Loop.handle (config : Config) (l : Loop F) (m : Message) (now : ℚ) : Except Error (Loop F) := do
  let a ← assemble config l.assembly m
  match m with
  | .commit c =>
    if c.endLsn > l.checkpointLsn then
      return { l with
        assembly := a
        pending := l.pending ++ [⟨c.endLsn, l.assembly.openOps.getD []⟩]
        oldest := some (l.oldest.getD now) }
    else return { l with assembly := a }
  | _ => return { l with assembly := a }

theorem Loop.handle_cases {config : Config} {l l' : Loop F} {m : Message} {now : ℚ}
    (h : l.handle config m now = .ok l') : ∃ a, assemble config l.assembly m = .ok a ∧
      ((∃ c, m = .commit c ∧ l.checkpointLsn < c.endLsn ∧ l' = ⟨a, l.checkpointLsn,
        l.pending ++ [⟨c.endLsn, l.assembly.openOps.getD []⟩], some (l.oldest.getD now)⟩) ∨
      (∀ c, m = .commit c → c.endLsn ≤ l.checkpointLsn) ∧ l' = { l with assembly := a }) := by
  obtain ⟨a, ha, h⟩ := Except.bind_eq_ok.mp h
  refine ⟨a, ha, ?_⟩
  cases m with
  | commit c =>
    dsimp only at h
    split_ifs at h with hlsn
    · exact .inl ⟨c, rfl, hlsn, (Except.pure_eq_ok.mp h).symm⟩
    · refine .inr ⟨?_, (Except.pure_eq_ok.mp h).symm⟩
      rintro _ ⟨⟩
      exact not_lt.mp hlsn
  | _ => exact .inr ⟨fun _ hm => (by cases hm), (Except.pure_eq_ok.mp h).symm⟩

theorem Loop.handle_ok {config : Config} {l l' : Loop F} {m : Message} {now : ℚ}
    (h : l.handle config m now = .ok l') : assemble config l.assembly m = .ok l'.assembly ∧
      l'.checkpointLsn = l.checkpointLsn ∧
      ((∃ c, m = .commit c ∧ l.checkpointLsn < c.endLsn ∧
        l'.pending = l.pending ++ [⟨c.endLsn, l.assembly.openOps.getD []⟩]) ∨
      (∀ c, m = .commit c → c.endLsn ≤ l.checkpointLsn) ∧ l'.pending = l.pending) := by
  obtain ⟨a, ha, ⟨c, hm, hlsn, rfl⟩ | ⟨hskip, rfl⟩⟩ := Loop.handle_cases h
  · exact ⟨ha, rfl, .inl ⟨c, hm, hlsn, rfl⟩⟩
  · exact ⟨ha, rfl, .inr ⟨hskip, rfl⟩⟩

/-- The flush condition after a message; without an arrival time the subtraction raises. -/
def Loop.due (config : Config) (l : Loop F) (now : ℚ) : Except Error Bool :=
  if l.pending = [] then .ok false
  else if l.pending.length ≥ config.batchMaxTxns then .ok true
  else
    match l.oldest with
    | none => .error .type
    | some oldest => .ok ((now - oldest) * 1000 ≥ config.batchMaxMs)

def Loop.flushed (l : Loop F) (endLsn : ℕ) : Loop F :=
  { l with checkpointLsn := endLsn, pending := [], oldest := none }

end Daemon

end WalFlux
