import WalFlux.Library.Python

/-! Shared primitives: exceptions, identifier validation and LSN text. -/

namespace WalFlux

/-- The exceptions the program raises or lets through. `decimalOverflow` and `invalidOperation` are
traps of the decimal module, `database` any `psycopg2` error but insufficient privilege. -/
inductive Error
  | walflux (msg : String)
  | protocol (msg : String)
  | config (msg : String)
  | schemaDrift (msg : String)
  | setup (msg : String)
  | unicodeDecode
  | overflow
  | index
  | structSize
  | value
  | type
  | key
  | decimalOverflow
  | invalidOperation
  | insufficientPrivilege (msg : String)
  | database (msg : String)
  deriving DecidableEq, Repr

def Error.IsProtocol : Error → Prop
  | .protocol _ => True
  | _ => False

instance : DecidablePred Error.IsProtocol := fun e => by
  cases e <;> unfold Error.IsProtocol <;> infer_instance

def Error.isSetup : Error → Bool
  | .setup _ => true
  | _ => false

theorem Error.isSetup_iff {e : Error} : e.isSetup = true ↔ ∃ msg, e = .setup msg := by
  cases e <;> simp [Error.isSetup]

def maxIdentBytes : ℕ := 63

def identStart (c : Char) : Bool := ('a' ≤ c && c ≤ 'z') || c = '_'

def identChar (c : Char) : Bool := identStart c || ('0' ≤ c && c ≤ '9')

/-- `[a-z0-9_]*$`, where `$` also matches just before a final line feed. -/
def identTail : List Char → Bool
  | [] => true
  | ['\n'] => true
  | c :: cs => identChar c && identTail cs

def identRe (name : String) : Bool :=
  match name.toList with
  | [] => false
  | c :: cs => identStart c && identTail cs

/-- A name that passed the validator; SQL text is only ever built from these. -/
structure Ident where
  name : String
  accepted : identRe name = true ∧ name.utf8ByteSize ≤ maxIdentBytes
  deriving DecidableEq

def quoteIdent (name : String) : Except Error Ident :=
  if h : identRe name = true ∧ name.utf8ByteSize ≤ maxIdentBytes then .ok ⟨name, h⟩
  else .error (.walflux s!"invalid identifier: {Python.repr name}")

def Ident.sql (i : Ident) : String := "\"" ++ i.name ++ "\""

@[ext] theorem Ident.ext {i j : Ident} (h : i.name = j.name) : i = j := by
  cases i
  cases j
  cases h
  rfl

theorem quoteIdent_ok {name : String} {i : Ident} (h : quoteIdent name = .ok i) :
    i.name = name := by
  unfold quoteIdent at h
  split at h
  · cases h
    rfl
  · cases h

def parseLsn (text : String) : Except Error ℤ :=
  match text.toList.splitOn '/' with
  | [hi, lo] =>
    match Python.int (String.ofList hi) 16, Python.int (String.ofList lo) 16 with
    | some hi, some lo => .ok (Int.lor (hi * 2 ^ 32) lo)
    | _, _ => .error (.walflux s!"invalid LSN: {Python.repr text}")
  | _ => .error (.walflux s!"invalid LSN: {Python.repr text}")

def formatLsn (lsn : ℕ) : String :=
  Python.hexUpper (lsn >>> 32) ++ "/" ++ Python.hexUpper (lsn &&& 0xFFFFFFFF)

end WalFlux
