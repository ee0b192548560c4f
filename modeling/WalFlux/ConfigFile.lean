import WalFlux.Daemon
import WalFlux.Library.Document

/-! The configuration file: how it is read and what it is checked for. -/

namespace WalFlux.ConfigFile

open Aggregates Python

def reservedSuffixes : List String := ["__sum", "__nn"]

def storageSuffixBytes : ℕ := "__sum".utf8ByteSize

structure LoadedConfig extends Config where
  dsn : String

def requireMapping (value : Doc) (what : String) : Except Error (List (Doc × Doc)) :=
  match value with
  | .dict items => .ok items
  | value => .error (.config s!"{what} must be a mapping, got {value.typeName}")

/-- Raises with a message that shows the value, unless showing it raises first. -/
def showing {α : Type} (value : Doc) (message : String → String) : Except Error α :=
  match value.repr with
  | some text => .error (.config (message text))
  | none => .error .value

def checkIdent (value : Doc) (what : String) : Except Error String :=
  match value with
  | .str s =>
    if identRe s = false then
      .error (.config
        s!"{what} {Python.repr s} is not a valid identifier (expected [a-z_][a-z0-9_]*)")
    else if s.utf8ByteSize > maxIdentBytes then
      .error (.config s!"{what} {Python.repr s} is longer than {maxIdentBytes} bytes")
    else .ok s
  | value => showing value fun text => s!"{what} must be a string, got {text}"

/-- A bool is an int to Python and is turned away by name. -/
def positiveInt (value : Doc) (what : String) (default : ℕ) : Except Error ℕ :=
  match value with
  | .none => .ok default
  | .int i =>
    if i ≤ 0 then showing (.int i) fun text => s!"{what} must be a positive integer, got {text}"
    else .ok i.toNat
  | value => showing value fun text => s!"{what} must be a positive integer, got {text}"

/-- The value of a key that must be there; a null counts as missing. -/
def requireKey (value : Doc) (missing : String) : Except Error Doc :=
  match value with
  | .none => .error (.config missing)
  | value => .ok value

def requireItems (value : Doc) (missing what : String) : Except Error (List Doc) :=
  match value with
  | .none => .error (.config missing)
  | .list [] => .error (.config missing)
  | .list items => .ok items
  | value => .error (.config s!"{what} must be a list, got {value.typeName}")

/-- The schema, `public` where none is written, and the table. -/
def splitSource (value : Doc) (viewName : String) : Except Error (String × String) :=
  match value with
  | .str text =>
    match text.toList.splitOn '.' with
    | [table] => .ok ("public", String.ofList table)
    | [schema, table] => .ok (String.ofList schema, String.ofList table)
    | _ => .error (.config (s!"view {Python.repr viewName}: source {Python.repr text} must be " ++
        "\"table\" or \"schema.table\""))
  | value => showing value fun text =>
    s!"view {Python.repr viewName}: source must be a string, got {text}"

def parseSource (value : Doc) (viewName : String) : Except Error (String × String) := do
  let (schema, table) ← splitSource value viewName
  let schema ← checkIdent (.str schema) s!"view {Python.repr viewName}: source schema"
  let table ← checkIdent (.str table) s!"view {Python.repr viewName}: source table"
  return (schema, table)

/-! ### Aggregates -/

def parseFn (fn : Doc) (viewName : String) : Except Error AggFn :=
  match fn with
  | .str "count" => .ok .count
  | .str "sum" => .ok .sum
  | .str "avg" => .ok .avg
  | fn => showing fn fun text => s!"view {Python.repr viewName}: unknown aggregate fn {text} " ++
    "(expected one of: count, sum, avg)"

def parseColumn (column : Doc) (viewName : String) (fn : AggFn) (as : String) :
    Except Error (Option String) :=
  match column with
  | .none =>
    if fn ≠ .count then
      .error (.config
        s!"view {Python.repr viewName}: aggregate {Python.repr as}: {fn.str} requires a column")
    else .ok none
  | column => do
    return some (← checkIdent column
      s!"view {Python.repr viewName}: aggregate {Python.repr as}: column")

def checkAlias (fn : AggFn) (as viewName : String) (groupBy seenAliases : List String) :
    Except Error Unit :=
  if as ∈ seenAliases then
    .error (.config s!"view {Python.repr viewName}: duplicate aggregate alias {Python.repr as}")
  else if as ∈ groupBy then
    .error (.config (s!"view {Python.repr viewName}: aggregate alias {Python.repr as} collides " ++
      "with a group_by column"))
  else if as = rowsColumn ∨ ∃ suffix ∈ reservedSuffixes, suffix.toList <:+ as.toList then
    .error (.config (s!"view {Python.repr viewName}: aggregate alias {Python.repr as} is " ++
      s!"reserved: '{rowsColumn}' and the '__sum'/'__nn' suffixes name WalFlux storage columns"))
  else if fn ≠ .count ∧ as.utf8ByteSize + storageSuffixBytes > maxIdentBytes then
    .error (.config (s!"view {Python.repr viewName}: aggregate alias {Python.repr as} is too " ++
      s!"long to leave room for its '__sum'/'__nn' storage columns (at most " ++
      s!"{maxIdentBytes - storageSuffixBytes} bytes for {fn.str})"))
  else .ok ()

def parseAggregate (raw : Doc) (viewName : String) (groupBy seenAliases : List String) :
    Except Error AggSpec := do
  let agg ← requireMapping raw s!"view {Python.repr viewName}: each aggregate"
  let fnRaw ← requireKey (Doc.get agg "fn")
    s!"view {Python.repr viewName}: aggregate is missing required key 'fn'"
  let fn ← parseFn fnRaw viewName
  let asRaw ← requireKey (Doc.get agg "as")
    s!"view {Python.repr viewName}: aggregate ({fn.str}) is missing required key 'as'"
  let as ← checkIdent asRaw s!"view {Python.repr viewName}: aggregate alias"
  let column ← parseColumn (Doc.get agg "column") viewName fn as
  checkAlias fn as viewName groupBy seenAliases
  return ⟨fn, column, as⟩

def parseAggregates (viewName : String) (groupBy : List String) :
    List Doc → List String → Except Error (List AggSpec)
  | [], _ => .ok []
  | raw :: raws, seenAliases => do
    let agg ← parseAggregate raw viewName groupBy seenAliases
    return agg :: (← parseAggregates viewName groupBy raws (agg.as :: seenAliases))

/-! ### Views -/

def parseGroupBy (viewName : String) : List Doc → List String → Except Error (List String)
  | [], groupBy => .ok groupBy
  | raw :: raws, groupBy => do
    let col ← checkIdent raw s!"view {Python.repr viewName}: group_by column"
    if col = rowsColumn then
      .error (.config (s!"view {Python.repr viewName}: group_by column {Python.repr col} is " ++
        "reserved for WalFlux bookkeeping"))
    else if col ∈ groupBy then
      .error (.config
        s!"view {Python.repr viewName}: group_by column {Python.repr col} is repeated")
    else parseGroupBy viewName raws (groupBy ++ [col])

def groupByItems (value : Doc) (viewName : String) : Except Error (List Doc) :=
  match value with
  | .none => .ok []
  | .list items => .ok items
  | _ => .error (.config s!"view {Python.repr viewName}: group_by must be a list of column names")

def parseView (raw : Doc) (seenNames : List String) : Except Error ViewSpec := do
  let view ← requireMapping raw "each view"
  let nameRaw ← requireKey (Doc.get view "name") "view is missing required key 'name'"
  let name ← checkIdent nameRaw "view name"
  if name ∈ seenNames then .error (.config s!"duplicate view name {Python.repr name}")
  else do
    let source ← requireKey (Doc.get view "source")
      s!"view {Python.repr name} is missing required key 'source'"
    let (schema, table) ← parseSource source name
    let groupBy ← parseGroupBy name (← groupByItems (Doc.get view "group_by") name) []
    let aggs ← requireItems (Doc.get view "aggregates")
      s!"view {Python.repr name} must declare at least one aggregate"
      s!"view {Python.repr name}: 'aggregates'"
    let aggregates ← parseAggregates name groupBy aggs []
    return ⟨name, schema, table, groupBy, aggregates⟩

def parseViews : List Doc → List String → Except Error (List ViewSpec)
  | [], _ => .ok []
  | raw :: raws, seenNames => do
    let view ← parseView raw seenNames
    return view :: (← parseViews raws (view.name :: seenNames))

/-! ### The file -/

/-- What opening and parsing the file comes to; `raised` is any exception without a handler. -/
inductive Opened
  | doc (raw : Doc)
  | notFound
  | osError (text : String)
  | yamlError (text : String)
  | raised (e : Error)

def Opened.read (path : String) : Opened → Except Error Doc
  | .doc raw => .ok raw
  | .notFound => .error (.config s!"config file not found: {path}")
  | .osError text => .error (.config s!"cannot read config file {path}: {text}")
  | .yamlError text => .error (.config s!"invalid YAML in {path}: {text}")
  | .raised e => .error e

/-- The `WALFLUX_DSN` environment variable, when set and non-empty, overrides the file. -/
def parseDsn (env : Option String) (database : List (Doc × Doc)) : Except Error String :=
  match ((env.map Doc.str).getD .none).orElse (Doc.get database "dsn") with
  | .none => .error (.config ("no DSN configured: set database.dsn in the config file" ++
      " or the WALFLUX_DSN environment variable"))
  | .str dsn => .ok dsn
  | dsn => showing dsn fun text => s!"database.dsn must be a string, got {text}"

def optionalIdent (value : Doc) (what default : String) : Except Error String :=
  match value with
  | .none => .ok default
  | value => checkIdent value what

def loadConfig (path : String) (env : Option String) (opened : Opened) :
    Except Error LoadedConfig := do
  let doc ← requireMapping (← opened.read path) "top-level config"
  let database ← requireMapping ((Doc.get doc "database").orElse (.dict [])) "'database' section"
  let dsn ← parseDsn env database
  let slot ← optionalIdent (Doc.get doc "slot") "slot name" "walflux"
  let publication ← optionalIdent (Doc.get doc "publication") "publication name" "walflux"
  let batch ← requireMapping ((Doc.get doc "batch").orElse (.dict [])) "'batch' section"
  let batchMaxMs ← positiveInt (Doc.get batch "max_ms") "batch.max_ms" 200
  let batchMaxTxns ← positiveInt (Doc.get batch "max_txns") "batch.max_txns" 500
  let rawViews ← requireItems (Doc.get doc "views")
    "config must declare at least one view under 'views'" "'views'"
  let views ← parseViews rawViews []
  return ⟨⟨slot, publication, batchMaxMs, batchMaxTxns, views⟩, dsn⟩

end WalFlux.ConfigFile
