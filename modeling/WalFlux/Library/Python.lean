import Mathlib

/-! The parts of Python's sequences and text conversions that programs lean on:
slices with negative ends, `bytes.find`, and `int(text, base)`. -/

namespace Python

variable {α : Type*}

/-- A slice end, clamped into the sequence; a negative end counts from the back. -/
def sliceEnd (len : ℕ) (i : ℤ) : ℕ := if i < 0 then (i + len).toNat else min i.toNat len

def slice (xs : List α) (i j : ℤ) : List α :=
  (xs.take (sliceEnd xs.length j)).drop (sliceEnd xs.length i)

def find [BEq α] (xs : List α) (x : α) (start : ℤ) : Option ℕ :=
  ((xs.drop (sliceEnd xs.length start)).idxOf? x).map (· + sliceEnd xs.length start)

@[simp] theorem sliceEnd_natCast (len i : ℕ) : sliceEnd len (i : ℤ) = min i len := by
  simp [sliceEnd]

theorem slice_natCast (xs : List α) {i j : ℕ} (hi : i ≤ xs.length) (hj : j ≤ xs.length) :
    slice xs (i : ℤ) (j : ℤ) = (xs.take j).drop i := by
  simp only [slice, sliceEnd_natCast, Nat.min_eq_left hi, Nat.min_eq_left hj]

theorem slice_append (pre mid rest : List α) :
    slice (pre ++ mid ++ rest) (pre.length : ℤ) ((pre.length : ℤ) + (mid.length : ℤ)) = mid := by
  rw [← Nat.cast_add, slice_natCast _ (by simp) (by simp)]
  rw [show pre.length + mid.length = (pre ++ mid).length by simp, List.take_left, List.drop_left]

theorem find_append [BEq α] [LawfulBEq α] (pre mid rest : List α) (x : α) (hx : x ∉ mid) :
    find (pre ++ mid ++ x :: rest) x (pre.length : ℤ) = some (pre.length + mid.length) := by
  have hs : sliceEnd (pre ++ mid ++ x :: rest).length (pre.length : ℤ) = pre.length := by
    rw [sliceEnd_natCast]
    simp
  have hi : (mid ++ x :: rest).idxOf? x = some mid.length := by
    induction mid with
    | nil => simp [List.idxOf?, List.findIdx?_cons]
    | cons a mid ih =>
      have ha : a ≠ x := fun h => hx (h ▸ List.mem_cons_self)
      rw [List.cons_append, List.idxOf?_cons, if_neg (by simpa using ha),
        ih (fun h => hx (List.mem_cons_of_mem _ h)) (by simp)]
      simp
  rw [find, hs, List.append_assoc, List.drop_left, hi, Option.map_some, Nat.add_comm]

theorem find_eq_some [BEq α] [LawfulBEq α] {pre rest : List α} {x : α} {stop : ℕ}
    (h : find (pre ++ rest) x (pre.length : ℤ) = some stop) :
    ∃ mid rest', rest = mid ++ x :: rest' ∧ x ∉ mid ∧ stop = pre.length + mid.length := by
  by_cases hx : x ∈ rest
  · obtain ⟨mid, rest', rfl, hmid⟩ := List.eq_append_cons_of_mem hx
    rw [← List.append_assoc, find_append pre mid rest' x hmid] at h
    exact ⟨mid, rest', rfl, hmid, (Option.some.inj h).symm⟩
  · have hs : sliceEnd (pre ++ rest).length (pre.length : ℤ) = pre.length := by
      rw [sliceEnd_natCast]
      simp
    rw [find, hs, List.drop_left, List.idxOf?_eq_none_iff.mpr hx] at h
    cases h

/-! `int(text, base)`: blanks around the literal, a sign, underscores between digits and the
decimal digits of every script are all accepted. -/

def digitZeros : List ℕ :=
  [0x30, 0x660, 0x6f0, 0x7c0, 0x966, 0x9e6, 0xa66, 0xae6, 0xb66, 0xbe6, 0xc66, 0xce6, 0xd66, 0xde6,
   0xe50, 0xed0, 0xf20, 0x1040, 0x1090, 0x17e0, 0x1810, 0x1946, 0x19d0, 0x1a80, 0x1a90, 0x1b50,
   0x1bb0, 0x1c40, 0x1c50, 0xa620, 0xa8d0, 0xa900, 0xa9d0, 0xa9f0, 0xaa50, 0xabf0, 0xff10, 0x104a0,
   0x10d30, 0x11066, 0x110f0, 0x11136, 0x111d0, 0x112f0, 0x11450, 0x114d0, 0x11650, 0x116c0,
   0x11730, 0x118e0, 0x11950, 0x11c50, 0x11d50, 0x11da0, 0x16a60, 0x16ac0, 0x16b50, 0x1d7ce,
   0x1d7d8, 0x1d7e2, 0x1d7ec, 0x1d7f6, 0x1e140, 0x1e2f0, 0x1e950, 0x1fbf0]

def decimalDigit (c : Char) : Option ℕ :=
  (digitZeros.find? fun z => z ≤ c.toNat ∧ c.toNat < z + 10).map (c.toNat - ·)

def isSpace (c : Char) : Bool :=
  (0x9 ≤ c.toNat && c.toNat ≤ 0xd) || (0x1c ≤ c.toNat && c.toNat ≤ 0x20) ||
    (0x2000 ≤ c.toNat && c.toNat ≤ 0x200a) ||
    [0x85, 0xa0, 0x1680, 0x2028, 0x2029, 0x202f, 0x205f, 0x3000].contains c.toNat

/-- The blanks `int` allows around a literal: not the four ASCII separators. -/
def isBlank (c : Char) : Bool := isSpace c && !(0x1c ≤ c.toNat && c.toNat ≤ 0x1f)

def trim (p : Char → Bool) (cs : List Char) : List Char :=
  ((cs.dropWhile p).reverse.dropWhile p).reverse

def strip (cs : List Char) : List Char := trim isSpace cs

/-- A decimal digit of any script becomes the ASCII digit. -/
def asciiDigit (c : Char) : Char :=
  match decimalDigit c with
  | some d => Char.ofNat (0x30 + d)
  | none => c

def digitValue (c : Char) : Option ℕ :=
  if 'a' ≤ c ∧ c ≤ 'z' then some (c.toNat - 'a'.toNat + 10)
  else if 'A' ≤ c ∧ c ≤ 'Z' then some (c.toNat - 'A'.toNat + 10)
  else decimalDigit c

def digitsFrom (base : ℕ) : ℕ → List Char → Option ℕ
  | acc, [] => some acc
  | acc, '_' :: c :: cs => do
    let d ← digitValue c
    if d < base then digitsFrom base (acc * base + d) cs else none
  | acc, c :: cs => do
    let d ← digitValue c
    if d < base then digitsFrom base (acc * base + d) cs else none

def digits (base : ℕ) : List Char → Option ℕ
  | [] => none
  | c :: cs => do
    let d ← digitValue c
    if d < base then digitsFrom base d cs else none

def dropHexMark : List Char → List Char
  | '0' :: 'x' :: '_' :: cs => cs
  | '0' :: 'X' :: '_' :: cs => cs
  | '0' :: 'x' :: cs => cs
  | '0' :: 'X' :: cs => cs
  | cs => cs

def int (text : String) (base : ℕ) : Option ℤ :=
  let unsigned cs := digits base (if base = 16 then dropHexMark cs else cs)
  match trim isBlank (text.toList.map asciiDigit) with
  | '-' :: cs => (unsigned cs).map fun n : ℕ => -(n : ℤ)
  | '+' :: cs => (unsigned cs).map fun n : ℕ => (n : ℤ)
  | cs => (unsigned cs).map fun n : ℕ => (n : ℤ)

/-- Upper-case digits without leading zeros, as the format code `X` writes them. -/
def hexUpper (n : ℕ) : String := String.ofList ((Nat.toDigits 16 n).map Char.toUpper)

/-! `repr` of a text; exact on Latin-1, where the non-printable characters are listed. -/

def hexPadded (w n : ℕ) : List Char :=
  List.replicate (w - (Nat.toDigits 16 n).length) '0' ++ Nat.toDigits 16 n

def reprChar (quote c : Char) : List Char :=
  if c = quote ∨ c = '\\' then ['\\', c]
  else if c = '\n' then ['\\', 'n']
  else if c = '\r' then ['\\', 'r']
  else if c = '\t' then ['\\', 't']
  else if c.toNat < 0x20 ∨ (0x7f ≤ c.toNat ∧ c.toNat ≤ 0xa0) ∨ c.toNat = 0xad then
    ['\\', 'x'] ++ hexPadded 2 c.toNat
  else [c]

def repr (s : String) : String :=
  let quote := if '\'' ∈ s.toList ∧ '"' ∉ s.toList then '"' else '\''
  String.ofList (quote :: s.toList.flatMap (reprChar quote) ++ [quote])

example : int " -\uff10x1_F\n" 16 = some (-31) := by decide

end Python
