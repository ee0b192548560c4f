import WalFlux.Sql.Text

/-! The statements read back from their text, and what a client and a server that are given only
text and parameters make of them. -/

namespace WalFlux.Sql

open Lexer

/-! ### Readers -/

def identifier : Reader Ident
  | .quoted name :: rest => (quoteIdent name).toOption.map fun i => (i, rest)
  | _ => none

def table : Reader TableName := do
  let schema ← identifier
  expect [.symbol '.']
  let name ← identifier
  return ⟨schema, name⟩

def expr : Reader SelectExpr :=
  (do return .column (← identifier)) <|>
  (do expect (words ["true"]); return .constTrue) <|>
  (do expect [.word "count", .symbol '(', .symbol '*', .symbol ')']; return .countAll) <|>
  (do
    expect [.word "count", .symbol '(']
    let c ← identifier
    expect [.symbol ')']
    return .count c) <|>
  (do
    expect [.word "coalesce", .symbol '(', .word "sum", .symbol '(']
    let c ← identifier
    expect [.symbol ')', .symbol ',', .word "0", .symbol ')']
    return .coalesceSum c)

/-- `c = target.c + EXCLUDED.c` -/
def update (target : TableName) : Reader Ident := do
  let c ← identifier
  expect [.symbol '=']
  let t ← table
  expect [.symbol '.']
  let old ← identifier
  expect [.symbol '+', .word "EXCLUDED", .symbol '.']
  let new ← identifier
  if t = target ∧ old = c ∧ new = c then return c else failure

/-- What a change to a target says, with the number of its values. -/
inductive Command
  | deleteAll (table : TableName)
  | deleteEmpty (table : TableName) (rows : Ident)
  | upsert (sql : Upsert) (values : ℕ)

def condition (t : TableName) : Reader Command := fun ts =>
  if ts = [] then some (.deleteAll t, [])
  else (do
    expect (words ["WHERE"])
    let rows ← identifier
    expect [.symbol '<', .symbol '=', .word "0"]
    return .deleteEmpty t rows : Reader Command) ts

def deletion : Reader Command := do
  expect (words ["DELETE", "FROM"])
  condition (← table)

def upsertion : Reader Command := do
  expect (words ["INSERT", "INTO"])
  let target ← table
  let columns ← parens identifier
  expect (words ["VALUES"])
  let values ← parens (expect [.mark])
  expect (words ["ON", "CONFLICT"])
  let conflict ← parens identifier
  expect (words ["DO", "UPDATE", "SET"])
  let updates ← list (fun _ => false) (update target)
  return .upsert ⟨target, columns, conflict, updates⟩ values.length

def command : Reader Command := deletion <|> upsertion

def grouping : Reader (List Ident) := fun ts =>
  if ts = [] then some ([], [])
  else (do
    expect (words ["GROUP", "BY"])
    list (fun _ => false) identifier : Reader (List Ident)) ts

def insertSelect : Reader InsertSelect := do
  expect (words ["INSERT", "INTO"])
  let target ← table
  let columns ← parens identifier
  expect (words ["SELECT"])
  let exprs ← listUntil (.word "FROM") expr
  let source ← table
  let groupBy ← grouping
  return ⟨target, columns, exprs, source, groupBy⟩

theorem reads_identifier (i : Ident) : Reads identifier (identTokens i) i := by
  intro rest
  change (quoteIdent i.name).toOption.map _ = _
  rw [quoteIdent, dif_pos i.accepted]
  rfl

theorem reads_table (t : TableName) : Reads table t.tokens t :=
  (reads_identifier t.schema).bind
    ((reads_expect [.symbol '.']).bind ((reads_identifier t.name).map _))

theorem reads_update (target : TableName) (c : Ident) :
    Reads (update target) (updateTokens target c) c := by
  have hsame : Reads (if target = target ∧ c = c ∧ c = c then Pure.pure c else failure :
      Reader Ident) [] c := by
    rw [if_pos ⟨rfl, rfl, rfl⟩]
    exact Reads.pure c
  have htokens : updateTokens target c = identTokens c ++ ([.symbol '='] ++ (target.tokens ++
      ([.symbol '.'] ++ (identTokens c ++ ([.symbol '+', .word "EXCLUDED", .symbol '.'] ++
        (identTokens c ++ [])))))) := rfl
  rw [htokens]
  exact (reads_identifier c).bind ((reads_expect _).bind ((reads_table target).bind
    ((reads_expect _).bind ((reads_identifier c).bind ((reads_expect _).bind
      ((reads_identifier c).bind hsame))))))

theorem reads_expr (e : SelectExpr) : Reads expr (exprTokens e) e := by
  cases e with
  | column c => exact Reads.orElse_left ((reads_identifier c).map SelectExpr.column)
  | constTrue => exact fun rest => rfl
  | countAll => exact fun rest => rfl
  | count c =>
    refine Reads.orElse_right (fun _ => rfl) (Reads.orElse_right (fun _ => rfl)
      (Reads.orElse_right (fun _ => rfl) (Reads.orElse_left ?_)))
    have hclose := (reads_expect [.symbol ')']).map fun _ => SelectExpr.count c
    exact (reads_expect [.word "count", .symbol '(']).bind ((reads_identifier c).bind hclose)
  | coalesceSum c =>
    refine Reads.orElse_right (fun _ => rfl) (Reads.orElse_right (fun _ => rfl)
      (Reads.orElse_right (fun _ => rfl) (Reads.orElse_right (fun _ => rfl) ?_)))
    have hclose := (reads_expect [.symbol ')', .symbol ',', .word "0", .symbol ')']).map fun _ =>
      SelectExpr.coalesceSum c
    exact (reads_expect [.word "coalesce", .symbol '(', .word "sum", .symbol '(']).bind
      ((reads_identifier c).bind hclose)

/-! ### Changes -/

theorem readsItems_names {stop : Token → Bool} {cs : List Ident} (hne : cs ≠ [])
    (hstop : ∀ name, stop (.quoted name) = false) :
    ReadsItems stop identifier cs identTokens id where
  ne_nil := hne
  reads i _ := (reads_identifier i).whole
  inOne i _ := by simp [inOne, identTokens, depthAfter, hstop]

theorem reads_names {cs : List Ident} (hne : cs ≠ []) :
    Reads (parens identifier) (enclosed (cs.map identTokens)) cs := by
  have hparens := Reads.parens (readsItems_names hne fun _ => rfl)
  rwa [List.map_id] at hparens

theorem reads_marks {cs : List Ident} (hne : cs ≠ []) :
    Reads (parens (expect [.mark])) (enclosed (cs.map fun _ => [.mark])) (cs.map fun _ => ()) :=
  Reads.parens ⟨hne, fun _ _ => (reads_expect [.mark]).whole, fun _ _ => rfl⟩

theorem readsItems_updates (target : TableName) {cs : List Ident} (hne : cs ≠ []) :
    ReadsItems (fun _ => false) (update target) cs (updateTokens target) id where
  ne_nil := hne
  reads c _ := (reads_update target c).whole
  inOne _ _ := rfl

structure Upsert.Listed (u : Upsert) : Prop where
  columns : u.columns ≠ []
  conflict : u.conflict ≠ []
  updates : u.updates ≠ []

theorem whole_upsertion {u : Upsert} (h : u.Listed) :
    whole upsertion (upsertTokens u) = some (.upsert u u.columns.length) := by
  have hlist := whole_list (readsItems_updates u.target h.updates) fun updates =>
    Command.upsert ⟨u.target, u.columns, u.conflict, updates⟩ (u.columns.map fun _ => ()).length
  rw [List.map_id, List.length_map] at hlist
  rw [upsertion, upsertTokens, whole_bind (reads_expect _), whole_bind (reads_table _),
    whole_bind (reads_names h.columns), whole_bind (reads_expect _),
    whole_bind (reads_marks h.columns), whole_bind (reads_expect _),
    whole_bind (reads_names h.conflict), whole_bind (reads_expect _),
    List.length_map]
  exact hlist

theorem whole_deletion_all (t : TableName) :
    whole deletion (words ["DELETE", "FROM"] ++ t.tokens) = some (.deleteAll t) := by
  rw [deletion, whole_bind (reads_expect _), ← List.append_nil t.tokens, whole_bind (reads_table t)]
  rfl

theorem whole_deletion_empty (t : TableName) (rows : Ident) :
    whole deletion (deleteEmptyTokens t rows) = some (.deleteEmpty t rows) := by
  rw [deletion, deleteEmptyTokens, whole_bind (reads_expect _), whole_bind (reads_table t)]
  have hcondition : Reads (do
      expect (words ["WHERE"])
      let rows ← identifier
      expect [.symbol '<', .symbol '=', .word "0"]
      return .deleteEmpty t rows : Reader Command)
      (words ["WHERE"] ++ (identTokens rows ++ [.symbol '<', .symbol '=', .word "0"]))
      (.deleteEmpty t rows) :=
    (reads_expect _).bind ((reads_identifier rows).bind ((reads_expect _).map _))
  exact hcondition.whole

theorem whole_command_deletion {ts : List Token} {c : Command} (h : whole deletion ts = some c) :
    whole command ts = some c := by
  have hrun : deletion ts = some (c, []) := whole_eq_some.mp h
  exact whole_eq_some.mpr (orElse_left hrun)

/-! ### Queries -/

theorem readsItems_exprs {es : List SelectExpr} (hne : es ≠ []) :
    ReadsItems (· = .word "FROM") expr es exprTokens id where
  ne_nil := hne
  reads e _ := (reads_expr e).whole
  inOne e _ := by cases e <;> rfl

theorem reads_exprs {es : List SelectExpr} (hne : es ≠ []) :
    Reads (listUntil (.word "FROM") expr) (commas (es.map exprTokens) ++ words ["FROM"]) es := by
  have hlist := Reads.listUntil (readsItems_exprs hne) (by decide)
  rwa [List.map_id] at hlist

theorem whole_grouping (groupBy : List Ident) {α : Type} (f : List Ident → α) :
    whole (grouping >>= fun groupBy => Pure.pure (f groupBy)) (groupByTokens groupBy) =
      some (f groupBy) := by
  rw [groupByTokens]
  split_ifs with hnil
  · rw [hnil]
    rfl
  · have hlist := whole_list (readsItems_names hnil fun _ => rfl) f
    rw [List.map_id] at hlist
    exact (whole_bind
      (q := fun _ => list (fun _ => false) identifier >>= fun gs => Pure.pure (f gs))
      (reads_expect (words ["GROUP", "BY"]))).trans hlist

structure InsertSelect.Listed (q : InsertSelect) : Prop where
  columns : q.columns ≠ []
  exprs : q.exprs ≠ []

theorem whole_insertSelect {q : InsertSelect} (h : q.Listed) :
    whole insertSelect (insertSelectTokens q) = some q := by
  rw [insertSelect, insertSelectTokens, whole_bind (reads_expect _), whole_bind (reads_table _),
    whole_bind (reads_names h.columns), whole_bind (reads_expect _),
    whole_bind (reads_exprs h.exprs), whole_bind (reads_table _)]
  exact whole_grouping q.groupBy _

/-! ### Table definitions -/

/-- A column as its text declares it; a type is its tokens. -/
inductive Declaration
  | stored (name : Ident) (type : List Token)
  | generated (name total nn : Ident) (average : Bool)

def ColumnDef.declared : ColumnDef → Declaration
  | .stored name type => .stored name (typeTokens type)
  | .generated name total nn average => .generated name total nn average

inductive Definition
  | dropTable (table : TableName)
  | createTable (table : TableName) (columns : List Declaration)
  | createUniqueIndex (table : TableName) (keys : List Ident)

def Ddl.declared : Ddl → Definition
  | .dropTable table => .dropTable table
  | .createTable table columns => .createTable table (columns.map ColumnDef.declared)
  | .createUniqueIndex table keys => .createUniqueIndex table keys

def divided (nn : Ident) : Reader Bool := fun ts =>
  if ts.head? = some (.symbol '/') then (do
    expect [.symbol '/']
    let divisor ← identifier
    if divisor = nn then return true else failure : Reader Bool) ts
  else some (false, ts)

def generation (name : Ident) : Reader Declaration := do
  expect (words ["numeric", "GENERATED", "ALWAYS", "AS"] ++ [.symbol '('] ++ words ["CASE", "WHEN"])
  let nn ← identifier
  expect [.symbol '>', .word "0", .word "THEN"]
  let total ← identifier
  let average ← divided nn
  expect [.word "END", .symbol ')', .word "STORED"]
  return .generated name total nn average

def column : Reader Declaration := do
  let name ← identifier
  fun ts => if ts.tail.head? = some (.word "GENERATED") then generation name ts
    else some (.stored name ts, [])

def definition : Reader Definition :=
  (do
    expect (words ["DROP", "TABLE", "IF", "EXISTS"])
    return .dropTable (← table)) <|>
  (do
    expect (words ["CREATE", "TABLE"])
    let t ← table
    let columns ← parens column
    return .createTable t columns) <|>
  (do
    expect (words ["CREATE", "UNIQUE", "INDEX", "ON"])
    let t ← table
    let keys ← parens identifier
    expect (words ["NULLS", "NOT", "DISTINCT"])
    return .createUniqueIndex t keys)

theorem reads_divided (nn : Ident) :
    Reads (divided nn) [.symbol '/', .quoted nn.name] true := by
  have hsame : Reads (if nn = nn then Pure.pure true else failure : Reader Bool) [] true := by
    rw [if_pos rfl]
    exact Reads.pure true
  intro rest
  have hhead : ([.symbol '/', .quoted nn.name] ++ rest : List Token).head? = some (.symbol '/') :=
    rfl
  rw [divided, if_pos hhead]
  exact (reads_expect [.symbol '/']).bind ((reads_identifier nn).bind hsame) rest

theorem reads_generationEnd (name total nn : Ident) (average : Bool) :
    Reads (divided nn >>= fun average => do
        expect [.word "END", .symbol ')', .word "STORED"]
        return Declaration.generated name total nn average)
      ((if average then [.symbol '/', .quoted nn.name] else []) ++
        [.word "END", .symbol ')', .word "STORED"]) (.generated name total nn average) := by
  have hend := (reads_expect [.word "END", .symbol ')', .word "STORED"]).map fun _ =>
    Declaration.generated name total nn average
  cases average with
  | true => exact (reads_divided nn).bind hend
  | false => exact fun rest => hend rest

theorem whole_column {name : Ident} {ts : List Token} {a : Declaration}
    (hword : ts.tail.head? = some (.word "GENERATED")) (h : generation name ts = some (a, [])) :
    whole column (identTokens name ++ ts) = some a := by
  rw [column, whole_bind (reads_identifier name)]
  exact whole_eq_some.mpr ((if_pos hword).trans h)

theorem whole_column_generated (name total nn : Ident) (average : Bool) :
    whole column (columnTokens (.generated name total nn average)) =
      some (.generated name total nn average) := by
  have hall : Reads (generation name)
      ((words ["numeric", "GENERATED", "ALWAYS", "AS"] ++ [Token.symbol '('] ++
        words ["CASE", "WHEN"]) ++ (identTokens nn ++
          ([Token.symbol '>', .word "0", .word "THEN"] ++ (identTokens total ++
            ((if average then [Token.symbol '/', .quoted nn.name] else []) ++
              [Token.word "END", .symbol ')', .word "STORED"])))))
      (.generated name total nn average) :=
    (reads_expect _).bind ((reads_identifier nn).bind ((reads_expect _).bind
      ((reads_identifier total).bind (reads_generationEnd name total nn average))))
  have hrest := hall []
  rw [List.append_nil] at hrest
  have hcolumn := whole_column rfl hrest
  cases average with
  | false => exact hcolumn
  | true => exact hcolumn

theorem whole_column_stored (name : Ident) {type : ColumnType}
    (h : .word "GENERATED" ∉ typeTokens type) :
    whole column (columnTokens (.stored name type)) = some (.stored name (typeTokens type)) := by
  have htail : (typeTokens type).tail.head? ≠ some (.word "GENERATED") := fun hhead =>
    h (List.mem_of_mem_tail (List.mem_of_head? hhead))
  change whole column (identTokens name ++ typeTokens type) = _
  rw [column, whole_bind (reads_identifier name)]
  exact whole_eq_some.mpr (if_neg htail)

theorem typeTokens_selfContained {type : ColumnType} (h : type.SelfContained) :
    inOne (· = .symbol ')') 0 (typeTokens type) = true ∧ .word "GENERATED" ∉ typeTokens type := by
  cases type with
  | source text =>
    obtain ⟨ts, hts, hin⟩ := h
    rw [typeTokens, hts]
    exact hin
  | _ => decide

theorem readsItems_columns {columns : List ColumnDef} (hne : columns ≠ [])
    (h : ∀ c ∈ columns, c.SelfContained) :
    ReadsItems (· = .symbol ')') column columns columnTokens ColumnDef.declared where
  ne_nil := hne
  reads c hc := by
    cases c with
    | stored name type => exact whole_column_stored name (typeTokens_selfContained (h _ hc)).2
    | generated name total nn average => exact whole_column_generated name total nn average
  inOne c hc := by
    cases c with
    | stored name type => exact (typeTokens_selfContained (h _ hc)).1
    | generated name total nn average => cases average <;> rfl

def Ddl.Listed : Ddl → Prop
  | .dropTable _ => True
  | .createTable _ columns => columns ≠ []
  | .createUniqueIndex _ keys => keys ≠ []

theorem reads_definition {d : Ddl} (hlisted : d.Listed) (h : d.SelfContained) :
    Reads definition (ddlTokens d) d.declared := by
  cases d with
  | dropTable t => exact Reads.orElse_left ((reads_expect _).bind ((reads_table t).map _))
  | createTable t columns =>
    refine Reads.orElse_right (fun _ => rfl) (Reads.orElse_left ?_)
    have hcolumns := Reads.parens (readsItems_columns hlisted h)
    exact (reads_expect _).bind ((reads_table t).bind (hcolumns.map _))
  | createUniqueIndex t keys =>
    refine Reads.orElse_right (fun _ => rfl) (Reads.orElse_right (fun _ => rfl) ?_)
    exact (reads_expect _).bind ((reads_table t).bind
      ((reads_names hlisted).bind ((reads_expect _).map _)))

/-! ### From the text -/

def readCommand (text : String) : Option Command := (Lexer.tokens text).bind (whole command)

def readInsertSelect (text : String) : Option InsertSelect :=
  (Lexer.tokens text).bind (whole insertSelect)

def readDefinition (text : String) : Option Definition :=
  (Lexer.tokens text).bind (whole definition)

theorem readDefinition_sql {d : Ddl} (hlisted : d.Listed) (h : d.SelfContained) :
    readDefinition d.sql = some d.declared := by
  rw [readDefinition, tokens_ddl h]
  exact (reads_definition hlisted h).whole

theorem readInsertSelect_sql {q : InsertSelect} (h : q.Listed) :
    readInsertSelect q.sql = some q := by
  rw [readInsertSelect, tokens_insertSelect]
  exact whole_insertSelect h

def Dml.command {F : Type} : Dml F → Command
  | .deleteAll table => .deleteAll table
  | .upsert u _ => .upsert u u.columns.length
  | .deleteEmpty table rows => .deleteEmpty table rows

def Dml.Listed {F : Type} : Dml F → Prop
  | .upsert u _ => u.Listed
  | _ => True

theorem readCommand_sql {F : Type} {s : Dml F} (h : s.Listed) :
    readCommand s.sql.1 = some s.command := by
  cases s with
  | deleteAll t =>
    rw [readCommand, Dml.sql, tokens_deleteAll]
    exact whole_command_deletion (whole_deletion_all t)
  | upsert u params =>
    rw [readCommand, Dml.sql, tokens_upsert]
    exact (whole_orElse rfl).trans (whole_upsertion h)
  | deleteEmpty t rows =>
    rw [readCommand, Dml.sql, tokens_deleteEmpty]
    exact whole_command_deletion (whole_deletion_empty t rows)

/-! ### Execution -/

section Execution

variable {F K : Type} [DecidableEq K] (read : String → Value F → K)

def Command.bind (params : List (Value F)) : Command → Option (Dml F)
  | .deleteAll table => some (.deleteAll table)
  | .deleteEmpty table rows => some (.deleteEmpty table rows)
  | .upsert u values => if values = params.length then some (.upsert u params) else none

/-- `execute` of a text with its parameters: a parameter for each conversion, and a statement. -/
def execText (s : String × List (Value F)) (db : Tables K) : Except Error (Tables K) :=
  if conversions s.1 = some s.2.length then
    match (readCommand s.1).bind (Command.bind s.2) with
    | some statement => statement.exec read db
    | none => .error (.database "syntax error")
  else .error .type

theorem conversions_ident (i : Ident) : conversions i.sql = some 0 := by
  have hname : conversions i.name = some 0 :=
    conversions_eq_zero (Ident.notMem (by decide) (by decide))
  have hquote : conversions "\"" = some 0 := by decide
  exact conversions_append (conversions_append hquote hname) hquote

theorem conversions_table (t : TableName) : conversions t.sql = some 0 := by
  have hdot : conversions "." = some 0 := by decide
  exact conversions_append (conversions_append (conversions_ident _) hdot) (conversions_ident _)

theorem conversions_names (cs : List Ident) : conversions (namesSql cs) = some 0 :=
  conversions_intercalate (by decide) fun c _ => conversions_ident c

theorem conversions_update (target : TableName) (c : Ident) :
    conversions (updateSql target c) = some 0 := by
  have hequals : conversions " = " = some 0 := by decide
  have hdot : conversions "." = some 0 := by decide
  have hplus : conversions " + EXCLUDED." = some 0 := by decide
  have hcolumn := conversions_ident c
  have htarget := conversions_append (conversions_append hcolumn hequals) (conversions_table target)
  have hold := conversions_append (conversions_append htarget hdot) hcolumn
  exact conversions_append (conversions_append hold hplus) hcolumn

theorem conversions_upsert (u : Upsert) : conversions u.sql = some u.columns.length := by
  have hinsert : conversions "INSERT INTO " = some 0 := by decide
  have hopen : conversions " (" = some 0 := by decide
  have hvalues : conversions ")\nVALUES (" = some 0 := by decide
  have hcomma : conversions ", " = some 0 := by decide
  have hmark : conversions "%s" = some 1 := by decide
  have hconflict : conversions ")\nON CONFLICT (" = some 0 := by decide
  have hset : conversions ") DO UPDATE SET\n  " = some 0 := by decide
  have hnext : conversions ",\n  " = some 0 := by decide
  have hmarks : conversions (", ".intercalate (u.columns.map fun _ => "%s")) =
      some (u.columns.length * 1) := conversions_intercalate hcomma fun _ _ => hmark
  have hupdates : conversions (",\n  ".intercalate (u.updates.map (updateSql u.target))) =
      some (u.updates.length * 0) :=
    conversions_intercalate hnext fun c _ => conversions_update u.target c
  have htable := conversions_append hinsert (conversions_table u.target)
  have hlist := conversions_append (conversions_append (conversions_append htable hopen)
    (conversions_names u.columns)) hvalues
  have hkeys := conversions_append (conversions_append (conversions_append hlist hmarks) hconflict)
    (conversions_names u.conflict)
  have hall := conversions_append (conversions_append hkeys hset) hupdates
  have hcount : 0 + 0 + 0 + 0 + 0 + u.columns.length * 1 + 0 + 0 + 0 + u.updates.length * 0 =
      u.columns.length := by omega
  rw [hcount] at hall
  exact hall

def Dml.Filled : Dml F → Prop
  | .upsert u params => params.length = u.columns.length
  | _ => True

theorem conversions_sql {s : Dml F} (h : s.Filled) : conversions s.sql.1 = some s.sql.2.length := by
  have hdelete : conversions "DELETE FROM " = some 0 := by decide
  cases s with
  | deleteAll t => exact conversions_append hdelete (conversions_table t)
  | upsert u params =>
    have hlen : params.length = u.columns.length := h
    change conversions u.sql = some params.length
    rw [conversions_upsert, hlen]
  | deleteEmpty t rows =>
    have hwhere : conversions " WHERE " = some 0 := by decide
    have hzero : conversions " <= 0" = some 0 := by decide
    exact conversions_append (conversions_append (conversions_append (conversions_append hdelete
      (conversions_table t)) hwhere) (conversions_ident rows)) hzero

theorem bind_command {s : Dml F} (h : s.Filled) : s.command.bind s.sql.2 = some s := by
  cases s with
  | upsert u params => exact if_pos h.symm
  | _ => rfl

theorem execText_sql {s : Dml F} (hlisted : s.Listed) (hfilled : s.Filled) (db : Tables K) :
    execText read s.sql db = s.exec read db := by
  rw [execText, if_pos (conversions_sql hfilled), readCommand_sql hlisted, Option.bind_some,
    bind_command hfilled]

end Execution

end WalFlux.Sql
