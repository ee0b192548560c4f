import WalFlux.Values

/-! The statements issued against target tables and what they do there. Key cells are compared as
SQL compares values of the column's type, with NULL equal to NULL, as `GROUP BY` and an index
with `NULLS NOT DISTINCT` both do. -/

namespace WalFlux.Sql

structure TableName where
  schema : Ident
  name : Ident
  deriving DecidableEq

/-- `boolean NOT NULL DEFAULT true`, `bigint NOT NULL`, `numeric`, or the type of a
source column. -/
inductive ColumnType
  | boolean
  | bigint
  | numeric
  | source (text : String)
  deriving DecidableEq

/-- A generated column is `total`, divided by `nn` for an average, and NULL where `nn` is 0. -/
inductive ColumnDef
  | stored (name : Ident) (type : ColumnType)
  | generated (name total nn : Ident) (average : Bool)
  deriving DecidableEq

def ColumnDef.name : ColumnDef → Ident
  | .stored name _ => name
  | .generated name _ _ _ => name

inductive Ddl
  | dropTable (table : TableName)
  | createTable (table : TableName) (columns : List ColumnDef)
  | createUniqueIndex (table : TableName) (keys : List Ident)

/-- `c`, `true`, `count(*)`, `count(c)`, `coalesce(sum(c), 0)` -/
inductive SelectExpr
  | column (c : Ident)
  | constTrue
  | countAll
  | count (c : Ident)
  | coalesceSum (c : Ident)
  deriving DecidableEq

/-- `INSERT INTO target (columns) SELECT exprs FROM source [GROUP BY groupBy]` -/
structure InsertSelect where
  target : TableName
  columns : List Ident
  exprs : List SelectExpr
  source : TableName
  groupBy : List Ident

/-- `INSERT INTO target (columns) VALUES (..) ON CONFLICT (conflict) DO UPDATE SET u = t.u +
EXCLUDED.u` -/
structure Upsert where
  target : TableName
  columns : List Ident
  conflict : List Ident
  updates : List Ident

inductive Dml (F : Type)
  | deleteAll (table : TableName)
  | upsert (sql : Upsert) (params : List (Value F))
  | deleteEmpty (table : TableName) (rows : Ident)

def Dml.table {F : Type} : Dml F → TableName
  | .deleteAll table => table
  | .upsert sql _ => sql.target
  | .deleteEmpty table _ => table

/-! ### Tables -/

inductive Cell (K : Type)
  | key (k : K)
  | flag (b : Bool)
  | num (q : ℚ)
  deriving DecidableEq

/-- The stored columns of a row; `none` is NULL. -/
abbrev TableRow (K : Type) := Ident → Option (Cell K)

structure Table (K : Type) where
  columns : List ColumnDef
  unique : Option (List Ident)
  rows : Multiset (TableRow K)

section Rows

variable {K : Type}

def Table.withRows (t : Table K) (rows : Multiset (TableRow K)) : Table K := { t with rows := rows }

def Cell.add : Option (Cell K) → Option (Cell K) → Option (Cell K)
  | some (.num p), some (.num q) => some (.num (p + q))
  | _, _ => none

def Cell.positive : Option (Cell K) → Bool
  | some (.num q) => 0 < q
  | _ => false

def mkRow (columns : List Ident) (cells : List (Option (Cell K))) : TableRow K := fun c =>
  ((columns.zip cells).lookup c).join

def Table.typeOf (t : Table K) (c : Ident) : Option ColumnType :=
  t.columns.findSome? fun
    | .stored name type => if name = c then some type else none
    | .generated .. => none

def Table.Accepts (t : Table K) (columns : List Ident) : Prop :=
  columns.Nodup ∧ ∀ c ∈ columns, (t.typeOf c).isSome

instance (t : Table K) (columns : List Ident) : Decidable (t.Accepts columns) := by
  unfold Table.Accepts
  infer_instance

def generatedValue (row : TableRow K) (total nn : Ident) (average : Bool) : Option ℚ :=
  match row total, row nn with
  | some (.num total), some (.num nn) =>
    if 0 < nn then some (if average then total / nn else total) else none
  | _, _ => none

/-- What a reader of the table sees under the name of a generated column. -/
def Table.visible (t : Table K) (row : TableRow K) (shown : Ident) : Option ℚ :=
  (t.columns.findSome? fun
    | .generated name total nn average =>
      if name = shown then some (generatedValue row total nn average) else none
    | .stored .. => none).join

def Ddl.run : Ddl → Option (Table K) → Except Error (Option (Table K))
  | .dropTable _, _ => .ok none
  | .createTable _ columns, none =>
    if (columns.map ColumnDef.name).Nodup then .ok (some ⟨columns, none, 0⟩)
    else .error (.database "column specified more than once")
  | .createTable _ _, some _ => .error (.database "relation already exists")
  | .createUniqueIndex _ keys, some t =>
    if ∀ c ∈ keys, (t.typeOf c).isSome then .ok (some { t with unique := some keys })
    else .error (.database "column does not exist")
  | .createUniqueIndex _ _, none => .error (.database "relation does not exist")

end Rows

/-! ### Source tables -/

section Source

variable {F K : Type}

structure Source (F : Type) where
  types : Python.Dict String String
  rows : Multiset (Row F)

def valueAt (row : Row F) (c : Ident) : Value F := Row.value row c.name

def isNull : Value F → Bool
  | .none => true
  | _ => false

def numberOf : Value F → Option ℚ
  | .int i => some i
  | .decimal (.finite d) => some d.toRat
  | _ => none

/-- The server's `sum`, stored as `numeric`: the values it takes and what they come to. On NULL,
integers and finite numerics it is the sum; what it does with floating point is left open. -/
structure SumOf (F : Type) where
  takes : Value F → Bool
  total : Multiset (Value F) → ℚ
  takes_number : ∀ v, isNull v = true ∨ (numberOf v).isSome → takes v = true
  total_numbers : ∀ vs : Multiset (Value F), (∀ v ∈ vs, isNull v = true ∨ (numberOf v).isSome) →
    total vs = (vs.map fun v => (numberOf v).getD 0).sum

def exactSum : SumOf F where
  takes v := isNull v || (numberOf v).isSome
  total vs := (vs.map fun v => (numberOf v).getD 0).sum
  takes_number _ h := by simpa using h
  total_numbers _ _ := rfl

theorem exactSum_takes {v : Value F} :
    exactSum.takes v = true ↔ isNull v = true ∨ (numberOf v).isSome := by
  simp [exactSum]

variable (sum : SumOf F)

def SelectExpr.Defined (types : Python.Dict String String) (rows : Multiset (Row F)) :
    SelectExpr → Prop
  | .constTrue => True
  | .countAll => True
  | .column c => (Python.Dict.get? types c.name).isSome
  | .count c => (Python.Dict.get? types c.name).isSome
  | .coalesceSum c => (Python.Dict.get? types c.name).isSome ∧
      ∀ r ∈ rows, sum.takes (valueAt r c) = true

instance (types : Python.Dict String String) (rows : Multiset (Row F)) (e : SelectExpr) :
    Decidable (e.Defined sum types rows) := by
  cases e <;> unfold SelectExpr.Defined <;> infer_instance

def SelectExpr.eval (key : List (Ident × Cell K)) (rows : Multiset (Row F)) :
    SelectExpr → Option (Cell K)
  | .column c => key.lookup c
  | .constTrue => some (.flag true)
  | .countAll => some (.num rows.card)
  | .count c => some (.num (rows.filter fun r => isNull (valueAt r c) = false).card)
  | .coalesceSum c => some (.num (sum.total (rows.map fun r => valueAt r c)))

variable [DecidableEq K] (read : String → Value F → K)

def keyCells (types : Python.Dict String String) (groupBy : List Ident) (row : Row F) :
    List (Cell K) :=
  groupBy.map fun c => .key (read ((Python.Dict.get? types c.name).getD "") (valueAt row c))

def InsertSelect.groups (q : InsertSelect) (source : Source F) : Multiset (TableRow K) :=
  let row key rows := mkRow q.columns (q.exprs.map (·.eval sum (q.groupBy.zip key) rows))
  if q.groupBy = [] then {row [] source.rows}
  else
    let keyOf := keyCells read source.types q.groupBy
    (source.rows.map keyOf).dedup.map fun key =>
      row key (source.rows.filter fun r => keyOf r = key)

def InsertSelect.Valid (q : InsertSelect) (source : Source F) (t : Table K) : Prop :=
  t.Accepts q.columns ∧ q.exprs.length = q.columns.length ∧
    (∀ e ∈ q.exprs, e.Defined sum source.types source.rows) ∧
    ∀ c ∈ q.groupBy, (Python.Dict.get? source.types c.name).isSome

instance (q : InsertSelect) (source : Source F) (t : Table K) :
    Decidable (q.Valid sum source t) := by
  unfold InsertSelect.Valid
  infer_instance

def Table.Distinct (t : Table K) (rows : Multiset (TableRow K)) : Prop :=
  ∀ keys ∈ t.unique, (rows.map fun row => keys.map row).Nodup

instance (t : Table K) (rows : Multiset (TableRow K)) : Decidable (t.Distinct rows) := by
  unfold Table.Distinct
  infer_instance

def InsertSelect.run (q : InsertSelect) (source : Source F) (t : Table K) :
    Except Error (Table K) :=
  if q.Valid sum source t then
    if t.Distinct (t.rows + q.groups sum read source) then
      .ok (t.withRows (t.rows + q.groups sum read source))
    else .error (.database "duplicate key value violates unique constraint")
  else .error (.database "INSERT does not fit its table or source")

/-! ### Changes to a target -/

def ColumnType.store : ColumnType → Value F → Option (Cell K)
  | .boolean, .bool b => some (.flag b)
  | .bigint, .int i => some (.num i)
  | .numeric, .int i => some (.num i)
  | .numeric, .decimal (.finite d) => some (.num d.toRat)
  | .source text, v => some (.key (read text v))
  | _, _ => none

def Table.cell (t : Table K) (c : Ident) (v : Value F) : Except Error (Cell K) :=
  match (t.typeOf c).bind fun type => type.store read v with
  | some cell => .ok cell
  | none => .error (.database "invalid input for column")

def Upsert.hit (u : Upsert) (old new : TableRow K) : Prop := ∀ c ∈ u.conflict, old c = new c

instance (u : Upsert) (old new : TableRow K) : Decidable (u.hit old new) := by
  unfold Upsert.hit
  infer_instance

def Upsert.merge (u : Upsert) (old new : TableRow K) : TableRow K := fun c =>
  if c ∈ u.updates then Cell.add (old c) (new c) else old c

instance (u : Upsert) (rows : Multiset (TableRow K)) (new : TableRow K) :
    Decidable (∃ old ∈ rows, u.hit old new) := Multiset.decidableExistsMultiset

/-- The proposed row either joins the row it conflicts with or goes in. -/
def Upsert.put (u : Upsert) (rows : Multiset (TableRow K)) (new : TableRow K) :
    Multiset (TableRow K) :=
  if ∃ old ∈ rows, u.hit old new then
    rows.map fun old => if u.hit old new then u.merge old new else old
  else new ::ₘ rows

def Dml.run : Dml F → Table K → Except Error (Table K)
  | .deleteAll _, t => .ok (t.withRows 0)
  | .upsert u params, t =>
    if t.Accepts u.columns ∧ params.length = u.columns.length ∧ t.unique = some u.conflict then do
      let cells ← (u.columns.zip params).mapM fun p => t.cell read p.1 p.2
      return t.withRows (u.put t.rows (mkRow u.columns (cells.map some)))
    else .error (.database "INSERT does not fit its table")
  | .deleteEmpty _ rows, t => .ok (t.withRows (t.rows.filter fun row => Cell.positive (row rows)))

abbrev Tables (K : Type) := TableName → Option (Table K)

def Dml.exec (s : Dml F) (db : Tables K) : Except Error (Tables K) :=
  match db s.table with
  | some t => (s.run read t).map fun t' => Function.update db s.table (some t')
  | none => .error (.database "relation does not exist")

def execAll (statements : List (Dml F)) (db : Tables K) : Except Error (Tables K) :=
  statements.foldlM (fun db s => s.exec read db) db

end Source

end WalFlux.Sql
