import WalFlux.Aggregates.Spec

/-! Delta accumulation for one flush batch: the fold of row events and the statements it ends in. -/

namespace WalFlux.Aggregates

open Sql Python

variable {F : Type} [PyFloat F]

/-- The `Decimal` constructor on a row value; `none` where it raises. -/
def toDecimalValue : Value F → Option DecimalValue
  | .decimal d => some d
  | .float x => decimalOfText (PyFloat.str x)
  | .int i => some (.finite (.ofInt i))
  | .bool b => some (.finite (.ofInt b.toNat))
  | .str s => decimalOfText s
  | .none => none
  | .unchangedToast => none

def strNonFinite : Value F → String
  | .decimal d => d.strSpecial
  | .float x => PyFloat.str x
  | .str s => s
  | _ => ""

def asDecimal (value : Value F) (viewName column : String) : Except Error Decimal :=
  match toDecimalValue value with
  | none => .error (.walflux (s!"view {Python.repr viewName}: cannot aggregate column " ++
      s!"{Python.repr column} value of type {value.typeName}"))
  | some (.finite d) => .ok d
  | some _ => .error (.walflux (s!"view {Python.repr viewName}: non-finite value " ++
      s!"{strNonFinite value} in aggregated column {Python.repr column}; WalFlux cannot " ++
      "maintain NaN/Infinity incrementally — exclude such rows or use a finite sentinel"))

def aggDeltas (agg : AggSpec) (row : Row F) (viewName : String) : Except Error (List Num) :=
  match agg.fn, agg.column with
  | .count, none => .ok [.int 1]
  | .count, some c => do return [.int (if isNull (← row.index c) then 0 else 1)]
  | _, none => .error .key
  | _, some c => do
    let value ← row.index c
    if isNull value then return [.dec (.ofInt 0), .int 0]
    else return [.dec (← asDecimal value viewName c), .int 1]

structure Plan where
  view : ViewSpec
  needed : List String
  zeros : List Num
  upsert : Upsert

def buildPlan (view : ViewSpec) : Except Error Plan := do
  let storage ← viewStorage view
  let needed := (view.groupBy ++ view.aggregates.filterMap AggSpec.column).eraseDups
  let table ← target view
  let updates ← (rowsColumn :: storage.map Storage.name).mapM quoteIdent
  let keys ← (keyColumns view).mapM quoteIdent
  let columns ← (insertColumns view storage).mapM quoteIdent
  return ⟨view, needed, .int 0 :: storage.map Storage.zero, ⟨table, columns, keys, updates⟩⟩

/-- The deltas of one view: a value for `__walflux_rows` and for each storage column, by group. -/
abbrev Groups (F : Type) := Dict (List (Value F)) (List Num)

structure DeltaBatch (F : Type) where
  plans : Dict String Plan
  deltas : Dict String (Groups F)
  truncated : List String

namespace DeltaBatch

def init (views : List ViewSpec) : Except Error (DeltaBatch F) := do
  let plans := Dict.ofList (← views.mapM fun v => do return (v.name, ← buildPlan v))
  return ⟨plans, plans.map fun p => (p.1, []), []⟩

def plan (b : DeltaBatch F) (viewName : String) : Except Error Plan :=
  match Dict.get? b.plans viewName with
  | some plan => .ok plan
  | none => .error (.walflux s!"unknown view: {Python.repr viewName}")

def groups (b : DeltaBatch F) (viewName : String) : Groups F :=
  (Dict.get? b.deltas viewName).getD []

def checkNeeded (view : ViewSpec) (row : Row F) : List String → Except Error Unit
  | [] => .ok ()
  | col :: cols =>
    match Dict.get? row col with
    | none => .error (.schemaDrift (s!"view {Python.repr view.name}: source row is missing " ++
        s!"column {Python.repr col}; re-run `walflux setup --force`"))
    | some .unchangedToast =>
      .error (.schemaDrift (s!"view {Python.repr view.name}: column {Python.repr col} arrived " ++
        s!"as unchanged TOAST in a row image that should be complete; ensure " ++
        s!"{view.sourceSchema}.{view.sourceTable} has REPLICA IDENTITY FULL and re-run " ++
        "`walflux setup --force`"))
    | some _ => checkNeeded view row cols

/-- `group[index] += sign * delta` -/
def accumulate (sign : ℤ) (slot delta : Num) : Except Error Num := do
  slot.add (← (Num.int sign).mul delta)

def addDeltas (sign : ℤ) : List Num → List Num → Except Error (List Num)
  | slots, [] => .ok slots
  | [], _ :: _ => .error .index
  | slot :: slots, delta :: deltas => do
    let slot ← accumulate sign slot delta
    return slot :: (← addDeltas sign slots deltas)

def addAggregates (viewName : String) (row : Row F) (sign : ℤ) :
    List AggSpec → List Num → Except Error (List Num)
  | [], slots => .ok slots
  | agg :: aggs, slots => do
    let deltas ← aggDeltas agg row viewName
    let done ← addDeltas sign (slots.take deltas.length) deltas
    return done ++ (← addAggregates viewName row sign aggs (slots.drop deltas.length))

def addRow (view : ViewSpec) (row : Row F) (sign : ℤ) : List Num → Except Error (List Num)
  | [] => .error .index
  | rows :: slots => do
    let rows ← rows.add (.int sign)
    return rows :: (← addAggregates view.name row sign view.aggregates slots)

def apply (b : DeltaBatch F) (viewName : String) (row : Row F) (sign : ℤ) :
    Except Error (DeltaBatch F) := do
  let plan ← b.plan viewName
  checkNeeded plan.view row plan.needed
  let key ← plan.view.groupBy.mapM row.index
  let groups := b.groups viewName
  let group ← addRow plan.view row sign ((Dict.get? groups key).getD plan.zeros)
  return { b with deltas := Dict.set b.deltas viewName (Dict.set groups key group) }

def applyInsert (b : DeltaBatch F) (viewName : String) (row : Row F) :
    Except Error (DeltaBatch F) :=
  b.apply viewName row 1

def applyDelete (b : DeltaBatch F) (viewName : String) (row : Row F) :
    Except Error (DeltaBatch F) :=
  b.apply viewName row (-1)

def applyUpdate (b : DeltaBatch F) (viewName : String) (old new : Row F) :
    Except Error (DeltaBatch F) := do
  let b ← b.apply viewName old (-1)
  b.apply viewName new 1

/-- A global view is left with a zero delta, which puts its single row back after the `DELETE`. -/
def applyTruncate (b : DeltaBatch F) (viewName : String) : Except Error (DeltaBatch F) := do
  let plan ← b.plan viewName
  let groups := if plan.view.groupBy ≠ [] then [] else [([], plan.zeros)]
  return { b with
    deltas := Dict.set b.deltas viewName groups
    truncated := b.truncated.insert viewName }

def deleteStatements (b : DeltaBatch F) : List (Dml F) :=
  b.plans.flatMap fun p => if p.1 ∈ b.truncated then [.deleteAll p.2.upsert.target] else []

def keyPrefix (view : ViewSpec) : List (Value F) := if view.groupBy ≠ [] then [] else [.bool true]

def upsertStatements (b : DeltaBatch F) : List (Dml F) :=
  b.plans.flatMap fun p => (b.groups p.1).map fun g =>
    .upsert p.2.upsert (keyPrefix p.2.view ++ g.1 ++ g.2.map Num.toValue)

def rowsIdent : Ident := ⟨rowsColumn, by decide⟩

def cleanupStatements (b : DeltaBatch F) : List (Dml F) :=
  b.plans.flatMap fun p =>
    if p.2.view.groupBy ≠ [] ∧ (p.1 ∈ b.truncated ∨ b.groups p.1 ≠ []) then
      [.deleteEmpty p.2.upsert.target rowsIdent]
    else []

def statements (b : DeltaBatch F) : List (Dml F) :=
  b.deleteStatements ++ b.upsertStatements ++ b.cleanupStatements

end DeltaBatch

/-- `_Op`: one row-level event of a view. -/
inductive Op (F : Type)
  | insert (view : String) (new : Row F)
  | update (view : String) (old new : Row F)
  | delete (view : String) (old : Row F)
  | truncate (view : String)
  deriving DecidableEq

def DeltaBatch.applyOp (b : DeltaBatch F) : Op F → Except Error (DeltaBatch F)
  | .insert view new => b.applyInsert view new
  | .update view old new => b.applyUpdate view old new
  | .delete view old => b.applyDelete view old
  | .truncate view => b.applyTruncate view

def foldOps (views : List ViewSpec) (ops : List (Op F)) : Except Error (DeltaBatch F) := do
  ops.foldlM DeltaBatch.applyOp (← DeltaBatch.init views)

end WalFlux.Aggregates
