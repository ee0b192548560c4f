import WalFlux.Sql
import WalFlux.Identifiers
import WalFlux.Library.TokenReader

/-! The text of the statements, and its tokens. -/

namespace WalFlux

open Lexer

/-! ### Names -/

theorem Ident.identChar {i : Ident} {c : Char} (h : c ∈ i.name.toList) :
    identChar c = true ∨ c = '\n' := by
  obtain ⟨d, cs, hname, hd, hcs⟩ := identRe_toList i.accepted.1
  rw [hname] at h
  rcases List.mem_cons.mp h with rfl | h
  · exact .inl (identChar_of_start hd)
  · rcases identTail_iff.mp hcs with hcs | ⟨ds, rfl, hds⟩
    · exact .inl (hcs c h)
    · rcases List.mem_append.mp h with h | h
      · exact .inl (hds c h)
      · exact .inr (List.mem_singleton.mp h)

theorem Ident.notMem {i : Ident} {c : Char} (h : WalFlux.identChar c = false) (hne : c ≠ '\n') :
    c ∉ i.name.toList := by
  intro hmem
  rcases Ident.identChar hmem with hc | hc
  · cases h.symm.trans hc
  · exact hne hc

theorem tokens_ident (i : Ident) : tokens i.sql = some [.quoted i.name] :=
  tokens_quoted (Ident.notMem (by decide) (by decide))

namespace Sql

def namesSql (cs : List Ident) : String := ", ".intercalate (cs.map Ident.sql)

def TableName.sql (t : TableName) : String := t.schema.sql ++ "." ++ t.name.sql

def ColumnType.sql : ColumnType → String
  | .boolean => "boolean NOT NULL DEFAULT true"
  | .bigint => "bigint NOT NULL"
  | .numeric => "numeric"
  | .source text => text

def ColumnDef.sql : ColumnDef → String
  | .stored name type => name.sql ++ " " ++ type.sql
  | .generated name total nn average =>
    name.sql ++ " numeric GENERATED ALWAYS AS (CASE WHEN " ++ nn.sql ++ " > 0 THEN " ++
      (if average then total.sql ++ " / " ++ nn.sql else total.sql) ++ " END) STORED"

def Ddl.sql : Ddl → String
  | .dropTable table => "DROP TABLE IF EXISTS " ++ table.sql
  | .createTable table columns =>
    "CREATE TABLE " ++ table.sql ++ " (\n    " ++
      ",\n    ".intercalate (columns.map ColumnDef.sql) ++ "\n)"
  | .createUniqueIndex table keys =>
    "CREATE UNIQUE INDEX ON " ++ table.sql ++ " (" ++ namesSql keys ++ ") NULLS NOT DISTINCT"

def SelectExpr.sql : SelectExpr → String
  | .column c => c.sql
  | .constTrue => "true"
  | .countAll => "count(*)"
  | .count c => "count(" ++ c.sql ++ ")"
  | .coalesceSum c => "coalesce(sum(" ++ c.sql ++ "), 0)"

def InsertSelect.sql (q : InsertSelect) : String :=
  "INSERT INTO " ++ q.target.sql ++ " (" ++ namesSql q.columns ++ ")\nSELECT " ++
    ", ".intercalate (q.exprs.map SelectExpr.sql) ++ "\nFROM " ++ q.source.sql ++
    (if q.groupBy = [] then "" else "\nGROUP BY " ++ namesSql q.groupBy)

def updateSql (target : TableName) (c : Ident) : String :=
  c.sql ++ " = " ++ target.sql ++ "." ++ c.sql ++ " + EXCLUDED." ++ c.sql

def Upsert.sql (u : Upsert) : String :=
  "INSERT INTO " ++ u.target.sql ++ " (" ++ namesSql u.columns ++ ")\nVALUES (" ++
    ", ".intercalate (u.columns.map fun _ => "%s") ++ ")\nON CONFLICT (" ++ namesSql u.conflict ++
    ") DO UPDATE SET\n  " ++ ",\n  ".intercalate (u.updates.map (updateSql u.target))

def Dml.sql {F : Type} : Dml F → String × List (Value F)
  | .deleteAll table => ("DELETE FROM " ++ table.sql, [])
  | .upsert u params => (u.sql, params)
  | .deleteEmpty table rows => ("DELETE FROM " ++ table.sql ++ " WHERE " ++ rows.sql ++ " <= 0", [])

/-! ### Tokens -/

def identTokens (i : Ident) : List Token := [.quoted i.name]

def TableName.tokens (t : TableName) : List Token :=
  [.quoted t.schema.name, .symbol '.', .quoted t.name.name]

def typeTokens : ColumnType → List Token
  | .boolean => words ["boolean", "NOT", "NULL", "DEFAULT", "true"]
  | .bigint => words ["bigint", "NOT", "NULL"]
  | .numeric => words ["numeric"]
  | .source text => (Lexer.tokens text).getD []

def valueTokens (total nn : Ident) (average : Bool) : List Token :=
  if average then [.quoted total.name, .symbol '/', .quoted nn.name] else [.quoted total.name]

def columnTokens : ColumnDef → List Token
  | .stored name type => .quoted name.name :: typeTokens type
  | .generated name total nn average =>
    .quoted name.name :: (words ["numeric", "GENERATED", "ALWAYS", "AS"] ++ [Token.symbol '('] ++
      words ["CASE", "WHEN"] ++ [Token.quoted nn.name, .symbol '>'] ++ words ["0", "THEN"] ++
      valueTokens total nn average ++ [Token.word "END", .symbol ')', .word "STORED"])

def exprTokens : SelectExpr → List Token
  | .column c => [Token.quoted c.name]
  | .constTrue => words ["true"]
  | .countAll => [Token.word "count", .symbol '(', .symbol '*', .symbol ')']
  | .count c => [Token.word "count", .symbol '('] ++ [Token.quoted c.name] ++ [Token.symbol ')']
  | .coalesceSum c =>
    [Token.word "coalesce", .symbol '(', .word "sum", .symbol '('] ++ [Token.quoted c.name] ++
      [Token.symbol ')', .symbol ',', .word "0", .symbol ')']

def updateTokens (target : TableName) (c : Ident) : List Token :=
  [Token.quoted c.name] ++ [Token.symbol '='] ++ target.tokens ++ [Token.symbol '.'] ++
    [Token.quoted c.name] ++ [Token.symbol '+', .word "EXCLUDED", .symbol '.'] ++
    [Token.quoted c.name]

theorem tokens_names (cs : List Ident) :
    Lexer.tokens (namesSql cs) = some (commas (cs.map identTokens)) :=
  tokens_intercalate (by decide) (by decide) (by decide) fun c _ => tokens_ident c

theorem tokens_table (t : TableName) : Lexer.tokens t.sql = some t.tokens := by
  have hdot : Lexer.tokens "." = some [.symbol '.'] := by decide
  exact tokens_between (tokens_ident _) hdot (tokens_ident _) (by decide) (by decide)

theorem tokens_update (target : TableName) (c : Ident) :
    Lexer.tokens (updateSql target c) = some (updateTokens target c) := by
  have hequals : Lexer.tokens " = " = some [.symbol '='] := by decide
  have hdot : Lexer.tokens "." = some [.symbol '.'] := by decide
  have hplus : Lexer.tokens " + EXCLUDED." = some [.symbol '+', .word "EXCLUDED", .symbol '.'] := by
    decide
  have hcolumn := tokens_ident c
  have htarget := tokens_between hcolumn hequals (tokens_table target) (by decide) (by decide)
  have hold := tokens_between htarget hdot hcolumn (by decide) (by decide)
  exact tokens_between hold hplus hcolumn (by decide) (by decide)

theorem tokens_expr (e : SelectExpr) : Lexer.tokens e.sql = some (exprTokens e) := by
  cases e with
  | column c => exact tokens_ident c
  | constTrue => decide
  | countAll => decide
  | count c =>
    have hopen : Lexer.tokens "count(" = some [.word "count", .symbol '('] := by decide
    have hclose : Lexer.tokens ")" = some [.symbol ')'] := by decide
    have hcolumn := tokens_append_of_ends hopen (tokens_ident c) (by decide)
    exact tokens_append_of_starts hcolumn hclose (by decide)
  | coalesceSum c =>
    have hopen : Lexer.tokens "coalesce(sum(" =
        some [.word "coalesce", .symbol '(', .word "sum", .symbol '('] := by decide
    have hclose : Lexer.tokens "), 0)" =
        some [.symbol ')', .symbol ',', .word "0", .symbol ')'] := by decide
    have hcolumn := tokens_append_of_ends hopen (tokens_ident c) (by decide)
    exact tokens_append_of_starts hcolumn hclose (by decide)

/-! ### Table definitions -/

/-- The text of a type stands on its own: its tokens are within one item of a list, and it is no
generated column's. -/
def SelfContained (text : String) : Prop :=
  ∃ ts, Lexer.tokens text = some ts ∧ inOne (· = .symbol ')') 0 ts = true ∧ .word "GENERATED" ∉ ts

def ColumnType.SelfContained : ColumnType → Prop
  | .source text => Sql.SelfContained text
  | _ => True

def ColumnDef.SelfContained : ColumnDef → Prop
  | .stored _ type => type.SelfContained
  | .generated .. => True

theorem tokens_type {type : ColumnType} (h : type.SelfContained) :
    Lexer.tokens type.sql = some (typeTokens type) := by
  cases type with
  | source text =>
    obtain ⟨ts, hts, -⟩ := h
    rw [typeTokens, ColumnType.sql, hts]
    rfl
  | _ => decide

theorem tokens_value (total nn : Ident) (average : Bool) :
    Lexer.tokens (if average then total.sql ++ " / " ++ nn.sql else total.sql) =
      some (valueTokens total nn average) := by
  have hslash : Lexer.tokens " / " = some [.symbol '/'] := by decide
  cases average with
  | false => exact tokens_ident total
  | true =>
    exact tokens_between (tokens_ident total) hslash (tokens_ident nn) (by decide) (by decide)

theorem tokens_column {column : ColumnDef} (h : column.SelfContained) :
    Lexer.tokens column.sql = some (columnTokens column) := by
  cases column with
  | stored name type =>
    have hblank : Lexer.tokens " " = some [] := by decide
    exact tokens_between (tokens_ident name) hblank (tokens_type h) (by decide) (by decide)
  | generated name total nn average =>
    have hcase : Lexer.tokens " numeric GENERATED ALWAYS AS (CASE WHEN " =
        some (words ["numeric", "GENERATED", "ALWAYS", "AS"] ++ [.symbol '('] ++
          words ["CASE", "WHEN"]) := by
      decide
    have hthen : Lexer.tokens " > 0 THEN " = some [.symbol '>', .word "0", .word "THEN"] := by
      decide
    have hend : Lexer.tokens " END) STORED" = some [.word "END", .symbol ')', .word "STORED"] := by
      decide
    have hwhen := tokens_between (tokens_ident name) hcase (tokens_ident nn) (by decide) (by decide)
    have hvalue := tokens_between hwhen hthen (tokens_value total nn average) (by decide)
      (by decide)
    have hall := tokens_append_of_starts hvalue hend (by decide)
    rw [ColumnDef.sql, hall]
    simp [columnTokens, words]

def ddlTokens : Ddl → List Token
  | .dropTable table => words ["DROP", "TABLE", "IF", "EXISTS"] ++ table.tokens
  | .createTable table columns =>
    words ["CREATE", "TABLE"] ++ (table.tokens ++ enclosed (columns.map columnTokens))
  | .createUniqueIndex table keys =>
    words ["CREATE", "UNIQUE", "INDEX", "ON"] ++ (table.tokens ++
      (enclosed (keys.map identTokens) ++ words ["NULLS", "NOT", "DISTINCT"]))

def Ddl.SelfContained : Ddl → Prop
  | .createTable _ columns => ∀ c ∈ columns, c.SelfContained
  | _ => True

theorem tokens_dropTable (table : TableName) :
    Lexer.tokens (Ddl.dropTable table).sql = some (ddlTokens (.dropTable table)) := by
  have hdrop : Lexer.tokens "DROP TABLE IF EXISTS " =
      some (words ["DROP", "TABLE", "IF", "EXISTS"]) := by decide
  exact tokens_append_of_ends hdrop (tokens_table table) (by decide)

theorem tokens_columns {columns : List ColumnDef} (h : ∀ c ∈ columns, c.SelfContained) :
    Lexer.tokens (",\n    ".intercalate (columns.map ColumnDef.sql)) =
      some (commas (columns.map columnTokens)) := by
  have hcomma : Lexer.tokens ",\n    " = some [.symbol ','] := by decide
  exact tokens_intercalate hcomma (by decide) (by decide) fun c hc => tokens_column (h c hc)

theorem tokens_createTable (table : TableName) {columns : List ColumnDef}
    (h : ∀ c ∈ columns, c.SelfContained) :
    Lexer.tokens (Ddl.createTable table columns).sql =
      some (ddlTokens (.createTable table columns)) := by
  have hcreate : Lexer.tokens "CREATE TABLE " = some (words ["CREATE", "TABLE"]) := by decide
  have hopen : Lexer.tokens " (\n    " = some [.symbol '('] := by decide
  have hclose : Lexer.tokens "\n)" = some [.symbol ')'] := by decide
  have htable := tokens_append_of_ends hcreate (tokens_table table) (by decide)
  have hbody := tokens_between htable hopen (tokens_columns h) (by decide) (by decide)
  refine (tokens_append_of_starts hbody hclose (by decide)).trans ?_
  rw [ddlTokens, enclosed]
  simp only [List.append_assoc]

theorem tokens_createUniqueIndex (table : TableName) (keys : List Ident) :
    Lexer.tokens (Ddl.createUniqueIndex table keys).sql =
      some (ddlTokens (.createUniqueIndex table keys)) := by
  have hcreate : Lexer.tokens "CREATE UNIQUE INDEX ON " =
      some (words ["CREATE", "UNIQUE", "INDEX", "ON"]) := by decide
  have hopen : Lexer.tokens " (" = some [.symbol '('] := by decide
  have hclose : Lexer.tokens ") NULLS NOT DISTINCT" =
      some ([.symbol ')'] ++ words ["NULLS", "NOT", "DISTINCT"]) := by decide
  have htable := tokens_append_of_ends hcreate (tokens_table table) (by decide)
  have hkeys := tokens_between htable hopen (tokens_names keys) (by decide) (by decide)
  refine (tokens_append_of_starts hkeys hclose (by decide)).trans ?_
  rw [ddlTokens, enclosed]
  simp only [List.append_assoc]

theorem tokens_ddl {d : Ddl} (h : d.SelfContained) : Lexer.tokens d.sql = some (ddlTokens d) := by
  cases d with
  | dropTable table => exact tokens_dropTable table
  | createTable table columns => exact tokens_createTable table h
  | createUniqueIndex table keys => exact tokens_createUniqueIndex table keys

/-! ### Queries and changes -/

def groupByTokens (groupBy : List Ident) : List Token :=
  if groupBy = [] then [] else words ["GROUP", "BY"] ++ commas (groupBy.map identTokens)

def insertSelectTokens (q : InsertSelect) : List Token :=
  words ["INSERT", "INTO"] ++ (q.target.tokens ++ (enclosed (q.columns.map identTokens) ++
    (words ["SELECT"] ++ ((commas (q.exprs.map exprTokens) ++ words ["FROM"]) ++
      (q.source.tokens ++ groupByTokens q.groupBy)))))

theorem tokens_insertInto (target : TableName) (columns : List Ident) :
    Lexer.tokens ("INSERT INTO " ++ target.sql ++ " (" ++ namesSql columns) =
      some (words ["INSERT", "INTO"] ++ target.tokens ++ [.symbol '('] ++
        commas (columns.map identTokens)) := by
  have hinsert : Lexer.tokens "INSERT INTO " = some (words ["INSERT", "INTO"]) := by decide
  have hopen : Lexer.tokens " (" = some [.symbol '('] := by decide
  have htarget := tokens_append_of_ends hinsert (tokens_table target) (by decide)
  exact tokens_between htarget hopen (tokens_names columns) (by decide) (by decide)

theorem tokens_exprs (es : List SelectExpr) :
    Lexer.tokens (", ".intercalate (es.map SelectExpr.sql)) =
      some (commas (es.map exprTokens)) := by
  have hcomma : Lexer.tokens ", " = some [.symbol ','] := by decide
  exact tokens_intercalate hcomma (by decide) (by decide) fun e _ => tokens_expr e

theorem tokens_insertSelect (q : InsertSelect) :
    Lexer.tokens q.sql = some (insertSelectTokens q) := by
  have hselect : Lexer.tokens ")\nSELECT " = some ([.symbol ')'] ++ words ["SELECT"]) := by decide
  have hfrom : Lexer.tokens "\nFROM " = some (words ["FROM"]) := by decide
  have hgroup : Lexer.tokens "\nGROUP BY " = some (words ["GROUP", "BY"]) := by decide
  have hlist := tokens_between (tokens_insertInto q.target q.columns) hselect
    (tokens_exprs q.exprs) (by decide) (by decide)
  have hsource := tokens_between hlist hfrom (tokens_table q.source) (by decide) (by decide)
  change Lexer.tokens (_ ++ if q.groupBy = [] then "" else "\nGROUP BY " ++ namesSql q.groupBy) = _
  rw [insertSelectTokens, groupByTokens, enclosed]
  split_ifs with hnil
  · rw [String.append_empty, hsource]
    simp only [List.append_assoc, List.append_nil]
  · have hall := tokens_between hsource hgroup (tokens_names q.groupBy) (by decide) (by decide)
    rw [← String.append_assoc, hall]
    simp only [List.append_assoc]

def upsertTokens (u : Upsert) : List Token :=
  words ["INSERT", "INTO"] ++ (u.target.tokens ++ (enclosed (u.columns.map identTokens) ++
    (words ["VALUES"] ++ (enclosed (u.columns.map fun _ => [.mark]) ++ (words ["ON", "CONFLICT"] ++
      (enclosed (u.conflict.map identTokens) ++ (words ["DO", "UPDATE", "SET"] ++
        commas (u.updates.map (updateTokens u.target)))))))))

theorem tokens_marks (columns : List Ident) :
    Lexer.tokens (", ".intercalate (columns.map fun _ => "%s")) =
      some (commas (columns.map fun _ => [.mark])) := by
  have hcomma : Lexer.tokens ", " = some [.symbol ','] := by decide
  have hmark : Lexer.tokens "%s" = some [.mark] := by decide
  exact tokens_intercalate hcomma (by decide) (by decide) fun _ _ => hmark

theorem tokens_updates (target : TableName) (updates : List Ident) :
    Lexer.tokens (",\n  ".intercalate (updates.map (updateSql target))) =
      some (commas (updates.map (updateTokens target))) := by
  have hcomma : Lexer.tokens ",\n  " = some [.symbol ','] := by decide
  exact tokens_intercalate hcomma (by decide) (by decide) fun c _ => tokens_update target c

theorem tokens_upsert (u : Upsert) : Lexer.tokens u.sql = some (upsertTokens u) := by
  have hvalues : Lexer.tokens ")\nVALUES (" =
      some ([.symbol ')'] ++ words ["VALUES"] ++ [.symbol '(']) := by decide
  have hconflict : Lexer.tokens ")\nON CONFLICT (" =
      some ([.symbol ')'] ++ words ["ON", "CONFLICT"] ++ [.symbol '(']) := by decide
  have hset : Lexer.tokens ") DO UPDATE SET\n  " =
      some ([.symbol ')'] ++ words ["DO", "UPDATE", "SET"]) := by decide
  have hlist := tokens_between (tokens_insertInto u.target u.columns) hvalues
    (tokens_marks u.columns) (by decide) (by decide)
  have hkeys := tokens_between hlist hconflict (tokens_names u.conflict) (by decide) (by decide)
  refine (tokens_between hkeys hset (tokens_updates u.target u.updates) (by decide)
    (by decide)).trans ?_
  rw [upsertTokens]
  simp only [enclosed, List.append_assoc]

def deleteEmptyTokens (table : TableName) (rows : Ident) : List Token :=
  words ["DELETE", "FROM"] ++ (table.tokens ++ (words ["WHERE"] ++ (identTokens rows ++
    [.symbol '<', .symbol '=', .word "0"])))

theorem tokens_deleteAll (table : TableName) :
    Lexer.tokens ("DELETE FROM " ++ table.sql) =
      some (words ["DELETE", "FROM"] ++ table.tokens) := by
  have hdelete : Lexer.tokens "DELETE FROM " = some (words ["DELETE", "FROM"]) := by decide
  exact tokens_append_of_ends hdelete (tokens_table table) (by decide)

theorem tokens_deleteEmpty (table : TableName) (rows : Ident) :
    Lexer.tokens ("DELETE FROM " ++ table.sql ++ " WHERE " ++ rows.sql ++ " <= 0") =
      some (deleteEmptyTokens table rows) := by
  have hwhere : Lexer.tokens " WHERE " = some (words ["WHERE"]) := by decide
  have hzero : Lexer.tokens " <= 0" = some [.symbol '<', .symbol '=', .word "0"] := by decide
  have hrows := tokens_between (tokens_deleteAll table) hwhere (tokens_ident rows) (by decide)
    (by decide)
  rw [tokens_append_of_starts hrows hzero (by decide), deleteEmptyTokens, identTokens]
  simp only [List.append_assoc]

end Sql

end WalFlux
