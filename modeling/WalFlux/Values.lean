import WalFlux.Common
import WalFlux.Library.Decimal
import WalFlux.Library.Dict

/-! Column values as Python holds them, and their conversion from the text format. -/

namespace WalFlux

inductive Number
  | finite (q : ℚ)
  | infinite (negative : Bool)
  | nan
  deriving DecidableEq

def Number.eq : Number → Number → Bool
  | .finite p, .finite q => p = q
  | .infinite a, .infinite b => a = b
  | _, _ => false

/-- `decimal.Decimal`; a NaN keeps its text. -/
inductive DecimalValue
  | finite (d : Decimal)
  | infinite (negative : Bool)
  | nan (text : String)
  deriving DecidableEq, Repr

def DecimalValue.number : DecimalValue → Number
  | .finite d => .finite d.toRat
  | .infinite negative => .infinite negative
  | .nan _ => .nan

/-- Binary floating point: `float(text)`, `str(x)` and the exact value. -/
class PyFloat (F : Type) where
  ofText : String → Option F
  str : F → String
  number : F → Number

inductive Value (F : Type)
  | none
  | unchangedToast
  | bool (b : Bool)
  | int (i : ℤ)
  | float (x : F)
  | decimal (d : DecimalValue)
  | str (s : String)
  deriving DecidableEq

abbrev Row (F : Type) := Python.Dict String (Value F)

namespace Value

variable {F : Type} [PyFloat F]

def number : Value F → Option Number
  | .bool b => some (.finite b.toNat)
  | .int i => some (.finite i)
  | .float x => some (PyFloat.number x)
  | .decimal d => some d.number
  | _ => Option.none

/-- `==`, which compares numbers of any two types by value. -/
def eq (a b : Value F) : Bool :=
  match a.number, b.number with
  | some m, some n => m.eq n
  | _, _ =>
    match a, b with
    | .none, .none => true
    | .unchangedToast, .unchangedToast => true
    | .str s, .str t => s = t
    | _, _ => false

instance : BEq (Value F) := ⟨eq⟩

def typeName : Value F → String
  | .none => "NoneType"
  | .unchangedToast => "_UnchangedToast"
  | .bool _ => "bool"
  | .int _ => "int"
  | .float _ => "float"
  | .decimal _ => "Decimal"
  | .str _ => "str"

end Value

def Row.index {F : Type} (row : Row F) (column : String) : Except Error (Value F) :=
  match Python.Dict.get? row column with
  | some value => .ok value
  | none => .error .key

/-- The value under a column; NULL where there is none. -/
def Row.value {F : Type} (row : Row F) (column : String) : Value F :=
  (Python.Dict.get? row column).getD .none

/-! ### `int | Decimal` -/

/-- The context the decimal module starts with. -/
def defaultContext : Decimal.Context := ⟨28, 999999, -999999, by decide, by decide⟩

inductive Num
  | int (i : ℤ)
  | dec (d : Decimal)
  deriving DecidableEq, Repr

namespace Num

def toRat : Num → ℚ
  | .int i => i
  | .dec d => d.toRat

def isDec : Num → Bool
  | .int _ => false
  | .dec _ => true

def toDecimal : Num → Decimal
  | .int i => .ofInt i
  | .dec d => d

def toValue {F : Type} : Num → Value F
  | .int i => .int i
  | .dec d => .decimal (.finite d)

/-- Integers multiply exactly; anything with a `Decimal` goes through the context. -/
def mul : Num → Num → Except Error Num
  | .int i, .int j => .ok (.int (i * j))
  | a, b =>
    match Decimal.mul defaultContext a.toDecimal b.toDecimal with
    | some d => .ok (.dec d)
    | none => .error .decimalOverflow

def add : Num → Num → Except Error Num
  | .int i, .int j => .ok (.int (i + j))
  | a, b =>
    match Decimal.add defaultContext a.toDecimal b.toDecimal with
    | some d => .ok (.dec d)
    | none => .error .decimalOverflow

end Num

/-! ### `Decimal(text)` -/

def takeDigits : List Char → List ℕ × List Char
  | [] => ([], [])
  | c :: cs =>
    match Python.decimalDigit c with
    | some d => (d :: (takeDigits cs).1, (takeDigits cs).2)
    | none => ([], c :: cs)

def ofDigits (ds : List ℕ) : ℕ := ds.foldl (fun n d => 10 * n + d) 0

def allDigits (cs : List Char) : Option (List ℕ) :=
  match takeDigits cs with
  | (d :: ds, []) => some (d :: ds)
  | _ => none

def exponentOfText : List Char → Option ℤ
  | [] => some 0
  | c :: cs =>
    if c = 'e' ∨ c = 'E' then
      match cs with
      | '-' :: cs => (allDigits cs).map fun ds => -(ofDigits ds : ℤ)
      | '+' :: cs => (allDigits cs).map fun ds => (ofDigits ds : ℤ)
      | cs => (allDigits cs).map fun ds => (ofDigits ds : ℤ)
    else none

def fractionOfText : List Char → List ℕ × List Char
  | '.' :: cs => takeDigits cs
  | cs => ([], cs)

def finiteOfText (cs : List Char) : Option Decimal :=
  let whole := takeDigits cs
  let frac := fractionOfText whole.2
  if whole.1 = [] ∧ frac.1 = [] then none
  else (exponentOfText frac.2).map fun e =>
    ⟨(ofDigits (whole.1 ++ frac.1) : ℤ), e - frac.1.length⟩

def afterName (name : List Char) (cs : List Char) : Option (List Char) :=
  if (cs.take name.length).map Char.toLower = name then some (cs.drop name.length) else none

def nanOfText (negative : Bool) (cs : List Char) : Option DecimalValue :=
  let read (name shown : String) := do
    let digits := takeDigits (← afterName name.toList cs)
    if digits.2 = [] then
      let payload := if ofDigits digits.1 = 0 then "" else toString (ofDigits digits.1)
      some (DecimalValue.nan ((if negative then "-" else "") ++ shown ++ payload))
    else none
  (read "nan" "NaN").orElse fun _ => read "snan" "sNaN"

def signedDecimal (negative : Bool) (cs : List Char) : Option DecimalValue :=
  match finiteOfText cs with
  | some d => some (.finite ⟨if negative then -d.coeff else d.coeff, d.exp⟩)
  | none =>
    if cs.map Char.toLower = "inf".toList ∨ cs.map Char.toLower = "infinity".toList then
      some (.infinite negative)
    else nanOfText negative cs

/-- `Decimal(text)`, exact; `none` where it raises `InvalidOperation`. -/
def decimalOfText (text : String) : Option DecimalValue :=
  match (Python.strip text.toList).filter (· ≠ '_') with
  | '-' :: cs => signedDecimal true cs
  | '+' :: cs => signedDecimal false cs
  | cs => signedDecimal false cs

/-! ### `convert_value` -/

def intOids : List ℕ := [20, 21, 23, 26]

def floatOids : List ℕ := [700, 701]

def boolOid : ℕ := 16

def numericOid : ℕ := 1700

def DecimalValue.strSpecial : DecimalValue → String
  | .finite _ => ""
  | .infinite negative => if negative then "-Infinity" else "Infinity"
  | .nan text => text

def convertValue {F : Type} [PyFloat F] (text : Option String) (typeOid : ℕ) :
    Except Error (Value F) :=
  match text with
  | none => .ok .none
  | some text =>
    if typeOid = boolOid then .ok (.bool (text = "t"))
    else if typeOid ∈ intOids then
      match Python.int text 10 with
      | some i => .ok (.int i)
      | none => .error .value
    else if typeOid ∈ floatOids then
      match PyFloat.ofText text with
      | some x => .ok (.float x)
      | none => .error .value
    else if typeOid = numericOid then
      match decimalOfText text with
      | some d => .ok (.decimal d)
      | none => .error .invalidOperation
    else .ok (.str text)

example : decimalOfText " -1_0.50e+2\n" = some (.finite ⟨-1050, 0⟩) := by decide

end WalFlux
