import WalFlux.Library.Python

/-! The objects a parsed document is made of, as the program that reads them sees them. -/

namespace Python

/-- Of an object that is none of the plain kinds only its type, its `repr` and its truth are seen;
a set of huge numbers, for one, has no `repr`. -/
inductive Doc
  | none
  | bool (b : Bool)
  | int (i : ℤ)
  | str (s : String)
  | list (items : List Doc)
  | dict (items : List (Doc × Doc))
  | other (typeName : String) (repr : Option String) (truthy : Bool)

namespace Doc

def typeName : Doc → String
  | .none => "NoneType"
  | .bool _ => "bool"
  | .int _ => "int"
  | .str _ => "str"
  | .list _ => "list"
  | .dict _ => "dict"
  | .other name _ _ => name

def truthy : Doc → Bool
  | .none => false
  | .bool b => b
  | .int i => i ≠ 0
  | .str s => s ≠ ""
  | .list items => !items.isEmpty
  | .dict items => !items.isEmpty
  | .other _ _ truthy => truthy

/-- `a or b` -/
def orElse (a b : Doc) : Doc := if a.truthy then a else b

/-- The most digits `int` writes or reads in base ten. -/
def maxStrDigits : ℕ := 4300

/-- `none` stands for the `ValueError` about an integer of too many digits. -/
def reprInt (i : ℤ) : Option String :=
  if (Nat.toDigits 10 i.natAbs).length ≤ maxStrDigits then some (toString i) else Option.none

mutual

def repr : Doc → Option String
  | .none => some "None"
  | .bool b => some (if b then "True" else "False")
  | .int i => reprInt i
  | .str s => some (Python.repr s)
  | .list items => do return "[" ++ ", ".intercalate (← reprItems items) ++ "]"
  | .dict items => do return "\x7b" ++ ", ".intercalate (← reprEntries items) ++ "\x7d"
  | .other _ text _ => text

def reprItems : List Doc → Option (List String)
  | [] => some []
  | item :: items => do return (← item.repr) :: (← reprItems items)

def reprEntries : List (Doc × Doc) → Option (List String)
  | [] => some []
  | (key, value) :: items => do
    return ((← key.repr) ++ ": " ++ (← value.repr)) :: (← reprEntries items)

end

def isKey (key : String) : Doc → Bool
  | .str s => s = key
  | _ => false

def get (items : List (Doc × Doc)) (key : String) : Doc :=
  match items.find? fun p => isKey key p.1 with
  | some p => p.2
  | Option.none => .none

/-! A value of which a part has no `repr` has none itself. -/

theorem reprItems_eq_none {items : List Doc} {item : Doc} (hitem : item ∈ items)
    (h : item.repr = Option.none) : reprItems items = Option.none := by
  induction items with
  | nil => cases hitem
  | cons other items ih =>
    rw [reprItems]
    rcases List.mem_cons.mp hitem with rfl | hitem
    · rw [h]
      rfl
    · rw [ih hitem]
      cases other.repr <;> rfl

theorem reprEntries_eq_none {items : List (Doc × Doc)} {entry : Doc × Doc} (hentry : entry ∈ items)
    (h : entry.2.repr = Option.none) : reprEntries items = Option.none := by
  induction items with
  | nil => cases hentry
  | cons other items ih =>
    obtain ⟨key, value⟩ := other
    rw [reprEntries]
    rcases List.mem_cons.mp hentry with rfl | hentry
    · rw [h]
      cases key.repr <;> rfl
    · rw [ih hentry]
      cases key.repr <;> cases value.repr <;> rfl

theorem repr_list_eq_none {items : List Doc} {item : Doc} (hitem : item ∈ items)
    (h : item.repr = Option.none) : (list items).repr = Option.none := by
  rw [repr, reprItems_eq_none hitem h]
  rfl

theorem repr_dict_eq_none {items : List (Doc × Doc)} {key : String}
    (h : (get items key).repr = Option.none) : (dict items).repr = Option.none := by
  rw [get] at h
  cases hfind : items.find? fun p => isKey key p.1 with
  | none =>
    rw [hfind, repr] at h
    cases h
  | some entry =>
    rw [hfind] at h
    rw [repr, reprEntries_eq_none (List.mem_of_find?_eq_some hfind) h]
    rfl

example : (Doc.list [.str "a", .dict [(.int 1, .none)]]).repr = some "['a', \x7b1: None\x7d]" := by
  decide

end Doc

end Python
