import WalFlux.Sql

/-! Views and the SQL generated for their target tables. -/

namespace WalFlux.Aggregates

open Sql

def targetSchema : String := "walflux"

def rowsColumn : String := "__walflux_rows"

def globalKeyColumn : String := "__walflux_all"

inductive AggFn
  | count
  | sum
  | avg
  deriving DecidableEq, Repr

def AggFn.str : AggFn → String
  | .count => "count"
  | .sum => "sum"
  | .avg => "avg"

/-- `column` is `none` only for `COUNT(*)`. -/
structure AggSpec where
  fn : AggFn
  column : Option String
  as : String
  deriving DecidableEq, Repr

structure ViewSpec where
  name : String
  sourceSchema : String
  sourceTable : String
  groupBy : List String
  aggregates : List AggSpec
  deriving DecidableEq, Repr

structure Storage where
  name : String
  ddlType : ColumnType
  backfillExpr : SelectExpr
  zero : Num

def aggStorage (agg : AggSpec) : Except Error (List Storage) :=
  match agg.fn, agg.column with
  | .count, none => .ok [⟨agg.as, .bigint, .countAll, .int 0⟩]
  | .count, some c => do
    let src ← quoteIdent c
    return [⟨agg.as, .bigint, .count src, .int 0⟩]
  | _, some c => do
    let src ← quoteIdent c
    return [⟨agg.as ++ "__sum", .numeric, .coalesceSum src, .dec (Decimal.ofInt 0)⟩,
      ⟨agg.as ++ "__nn", .bigint, .count src, .int 0⟩]
  | fn, none => .error (.walflux s!"aggregate {Python.repr agg.as}: {fn.str} requires a column")

def viewStorage (view : ViewSpec) : Except Error (List Storage) := do
  return (← view.aggregates.mapM aggStorage).flatten

def target (view : ViewSpec) : Except Error TableName := do
  return ⟨← quoteIdent targetSchema, ← quoteIdent view.name⟩

def keyColumns (view : ViewSpec) : List String :=
  if view.groupBy ≠ [] then view.groupBy else [globalKeyColumn]

def insertColumns (view : ViewSpec) (storage : List Storage) : List String :=
  keyColumns view ++ rowsColumn :: storage.map Storage.name

def keyDefs (view : ViewSpec) (groupColTypes : Python.Dict String String) :
    Except Error (List ColumnDef) :=
  if view.groupBy ≠ [] then
    view.groupBy.mapM fun col =>
      match Python.Dict.get? groupColTypes col with
      | some colType => do return .stored (← quoteIdent col) (.source colType)
      | none => .error (.walflux (s!"view {Python.repr view.name}: no resolved type for " ++
          s!"group column {Python.repr col}"))
  else do return [.stored (← quoteIdent globalKeyColumn) .boolean]

def aggDefs (agg : AggSpec) : Except Error (List ColumnDef) := do
  let storage ← aggStorage agg
  let stored ← storage.mapM fun s => do return ColumnDef.stored (← quoteIdent s.name) s.ddlType
  if agg.fn = .count then return stored
  else
    let total ← quoteIdent (agg.as ++ "__sum")
    let nn ← quoteIdent (agg.as ++ "__nn")
    let name ← quoteIdent agg.as
    return stored ++ [.generated name total nn (agg.fn = .avg)]

def targetDdl (view : ViewSpec) (groupColTypes : Python.Dict String String) :
    Except Error (List Ddl) := do
  let table ← target view
  let keys ← keyDefs view groupColTypes
  let rows ← quoteIdent rowsColumn
  let aggs ← view.aggregates.mapM aggDefs
  let index ← (keyColumns view).mapM quoteIdent
  return [.dropTable table,
    .createTable table (keys ++ .stored rows .bigint :: aggs.flatten),
    .createUniqueIndex table index]

def backfillSql (view : ViewSpec) : Except Error InsertSelect := do
  let storage ← viewStorage view
  let groupBy ← view.groupBy.mapM quoteIdent
  let keyExprs := if view.groupBy ≠ [] then groupBy.map .column else [.constTrue]
  let source : TableName := ⟨← quoteIdent view.sourceSchema, ← quoteIdent view.sourceTable⟩
  let table ← target view
  let columns ← (insertColumns view storage).mapM quoteIdent
  return ⟨table, columns, keyExprs ++ .countAll :: storage.map Storage.backfillExpr,
    source, groupBy⟩

end WalFlux.Aggregates
