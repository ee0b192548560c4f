import WalFlux.Library.Base10
import WalFlux.Values

/-! The values of the source's columns, the text the server writes for them, and `convert_value` as
its left inverse. -/

namespace WalFlux

open Python

variable {F : Type}

/-- A value other than NULL. A numeric is a whole number of units of its last digit; the text of a
float is the server's choice. -/
inductive Datum (F : Type)
  | bool (b : Bool)
  | int (i : ℤ)
  | float (shown : String) (x : F)
  | numeric (coeff : ℤ) (scale : ℕ)
  | numericInfinity (negative : Bool)
  | numericNaN
  | text (s : String)

namespace Datum

def fraction : ℕ → ℕ → List Char
  | 0, _ => []
  | scale + 1, n => '.' :: lastDigits (scale + 1) n

def numericDigits (scale n : ℕ) : List Char := Nat.toDigits 10 (n / 10 ^ scale) ++ fraction scale n

def output : Datum F → String
  | bool b => if b then "t" else "f"
  | int i => toString i
  | float shown _ => shown
  | numeric coeff scale => String.ofList (withSign (coeff < 0) (numericDigits scale coeff.natAbs))
  | numericInfinity negative => if negative then "-Infinity" else "Infinity"
  | numericNaN => "NaN"
  | text s => s

def value : Datum F → Value F
  | bool b => .bool b
  | int i => .int i
  | float _ x => .float x
  | numeric coeff scale => .decimal (.finite ⟨coeff, -(scale : ℤ)⟩)
  | numericInfinity negative => .decimal (.infinite negative)
  | numericNaN => .decimal (.nan "NaN")
  | text s => .str s

variable [PyFloat F]

def OfType (typeOid : ℕ) : Datum F → Prop
  | bool _ => typeOid = boolOid
  | int _ => typeOid ∈ intOids
  | float shown x => typeOid ∈ floatOids ∧ PyFloat.ofText shown = some x
  | numeric .. | numericInfinity _ | numericNaN => typeOid = numericOid
  | text _ => typeOid ≠ boolOid ∧ typeOid ∉ intOids ∧ typeOid ∉ floatOids ∧ typeOid ≠ numericOid

end Datum

/-! ### Digits -/

theorem takeDigits_append {cs rest : List Char} (hcs : ∀ c ∈ cs, c.isDigit)
    (hrest : takeDigits rest = ([], rest)) :
    takeDigits (cs ++ rest) = (cs.map fun c => c.toNat - 48, rest) := by
  induction cs with
  | nil => exact hrest
  | cons c cs ih =>
    obtain ⟨hc, hcs⟩ := List.forall_mem_cons.mp hcs
    rw [List.cons_append, takeDigits, decimalDigit_isDigit hc, ih hcs]
    rfl

theorem ofDigits_map (cs : List Char) :
    ofDigits (cs.map fun c => c.toNat - 48) = Nat.ofDigitChars 10 cs 0 := by
  rw [ofDigits, List.foldl_map]
  rfl

theorem takeDigits_lastDigits (scale n : ℕ) :
    takeDigits (lastDigits scale n) = ((lastDigits scale n).map fun c => c.toNat - 48, []) := by
  have hnone : takeDigits [] = ([], []) := rfl
  have htake := takeDigits_append (isDigit_lastDigits scale n) hnone
  rwa [List.append_nil] at htake

theorem takeDigits_fraction (scale n : ℕ) :
    takeDigits (Datum.fraction scale n) = ([], Datum.fraction scale n) := by
  cases scale with
  | zero => rfl
  | succ scale =>
    have hpoint : decimalDigit '.' = none := by decide
    rw [Datum.fraction, takeDigits, hpoint]

theorem fractionOfText_fraction (scale n : ℕ) : fractionOfText (Datum.fraction scale n) =
    ((lastDigits scale n).map fun c => c.toNat - 48, []) := by
  cases scale with
  | zero => rfl
  | succ scale => exact takeDigits_lastDigits (scale + 1) n

theorem finiteOfText_numericDigits (scale n : ℕ) :
    finiteOfText (Datum.numericDigits scale n) = some ⟨n, -(scale : ℤ)⟩ := by
  have hplain := plain_toDigits (n / 10 ^ scale)
  have hwhole : takeDigits (Datum.numericDigits scale n) =
      ((Nat.toDigits 10 (n / 10 ^ scale)).map fun c => c.toNat - 48, Datum.fraction scale n) :=
    takeDigits_append hplain.isDigit (takeDigits_fraction scale n)
  have hvalue : ofDigits ((Nat.toDigits 10 (n / 10 ^ scale)).map (fun c => c.toNat - 48) ++
      (lastDigits scale n).map fun c => c.toNat - 48) = n := by
    rw [← List.map_append, ofDigits_map, Nat.ofDigitChars_append,
      Nat.ofDigitChars_toDigits (by decide) (by decide), ofDigitChars_lastDigits, Nat.div_add_mod]
  unfold finiteOfText
  rw [hwhole]
  dsimp only
  rw [fractionOfText_fraction, if_neg fun h => hplain.ne_nil (List.map_eq_nil_iff.mp h.1)]
  dsimp only [exponentOfText, Option.map_some]
  rw [hvalue, List.length_map, length_lastDigits, zero_sub]

/-! ### The conversion -/

theorem strip_filter_eq_self {cs : List Char} (h : ∀ c ∈ cs, isSpace c = false ∧ c ≠ '_') :
    (strip cs).filter (· ≠ '_') = cs := by
  rw [strip, trim_eq_self fun c hc => (h c hc).1, List.filter_eq_self]
  exact fun c hc => decide_eq_true (h c hc).2

theorem mem_numericDigits {scale n : ℕ} {c : Char} (h : c ∈ Datum.numericDigits scale n) :
    c.isDigit ∨ c = '.' := by
  rcases List.mem_append.mp h with h | h
  · exact .inl ((plain_toDigits _).isDigit c h)
  · cases scale with
    | zero => cases h
    | succ scale =>
      rcases List.mem_cons.mp h with h | h
      · exact .inr h
      · exact .inl (isDigit_lastDigits _ _ c h)

theorem decimalOfText_numeric (coeff : ℤ) (scale : ℕ) :
    decimalOfText (Datum.numeric (F := F) coeff scale).output =
      some (.finite ⟨coeff, -(scale : ℤ)⟩) := by
  have hclean : ∀ c ∈ withSign (coeff < 0) (Datum.numericDigits scale coeff.natAbs),
      isSpace c = false ∧ c ≠ '_' := by
    intro c hc
    rcases mem_withSign hc with rfl | hc
    · decide
    · rcases mem_numericDigits hc with hc | rfl
      · exact ⟨isSpace_isDigit hc, ne_of_isDigit hc (by decide)⟩
      · decide
  have hfinite := finiteOfText_numericDigits scale coeff.natAbs
  rw [decimalOfText, Datum.output, String.toList_ofList, strip_filter_eq_self hclean]
  by_cases hneg : coeff < 0
  · rw [decide_eq_true hneg]
    change signedDecimal true _ = _
    rw [signedDecimal, hfinite]
    dsimp only
    rw [if_pos rfl, ← Int.natAbs_neg, Int.natAbs_of_nonneg (by omega), neg_neg]
  · have hdigits : ∀ d cs, d.isDigit = false → d ≠ '.' →
        Datum.numericDigits scale coeff.natAbs ≠ d :: cs := by
      intro d cs hd hpoint heq
      have hmem : d ∈ Datum.numericDigits scale coeff.natAbs := heq ▸ List.mem_cons_self
      rcases mem_numericDigits hmem with h | h
      · cases h.symm.trans hd
      · exact hpoint h
    rw [decide_eq_false hneg]
    have hunsigned : withSign false (Datum.numericDigits scale coeff.natAbs) =
        Datum.numericDigits scale coeff.natAbs := rfl
    rw [hunsigned]
    split
    · exact absurd ‹_› (hdigits _ _ (by decide) (by decide))
    · exact absurd ‹_› (hdigits _ _ (by decide) (by decide))
    · rw [signedDecimal, hfinite]
      dsimp only
      rw [if_neg Bool.false_ne_true, Int.natAbs_of_nonneg (not_lt.mp hneg)]

theorem decimalOfText_special : ∀ negative : Bool,
    decimalOfText (if negative then "-Infinity" else "Infinity") = some (.infinite negative) := by
  decide

theorem decimalOfText_nan : decimalOfText "NaN" = some (.nan "NaN") := by decide

theorem convertValue_numeric [PyFloat F] {text : String} {d : DecimalValue}
    (h : decimalOfText text = some d) :
    convertValue (F := F) (some text) numericOid = .ok (.decimal d) := by
  have hother : numericOid ≠ boolOid ∧ numericOid ∉ intOids ∧ numericOid ∉ floatOids := by decide
  simp only [convertValue, if_neg hother.1, if_neg hother.2.1, if_neg hother.2.2, if_true, h]

/-- Every value a column can hold is read back from the text it is sent in: integers and numerics
digit for digit, a numeric with all its decimal places. -/
theorem convertValue_output [PyFloat F] {typeOid : ℕ} {d : Datum F} (h : d.OfType typeOid) :
    convertValue (some d.output) typeOid = .ok d.value := by
  cases d with
  | bool b =>
    cases (show typeOid = boolOid from h)
    cases b <;> rfl
  | int i =>
    have hmem : typeOid ∈ intOids := h
    have hne : typeOid ≠ boolOid := by
      rintro rfl
      revert hmem
      decide
    simp only [convertValue, if_neg hne, if_pos hmem, Datum.output, int_toString, Datum.value]
  | float shown x =>
    obtain ⟨hmem, hread⟩ := h
    have hne : typeOid ≠ boolOid ∧ typeOid ∉ intOids := by
      simp only [floatOids, List.mem_cons, List.not_mem_nil, or_false] at hmem
      rcases hmem with rfl | rfl <;> decide
    simp only [convertValue, if_neg hne.1, if_neg hne.2, if_pos hmem, Datum.output,
      hread, Datum.value]
  | numeric coeff scale =>
    cases (show typeOid = numericOid from h)
    exact convertValue_numeric (decimalOfText_numeric coeff scale)
  | numericInfinity negative =>
    cases (show typeOid = numericOid from h)
    exact convertValue_numeric (decimalOfText_special negative)
  | numericNaN =>
    cases (show typeOid = numericOid from h)
    exact convertValue_numeric decimalOfText_nan
  | text s =>
    obtain ⟨hbool, hint, hfloat, hnumeric⟩ := h
    simp only [convertValue, if_neg hbool, if_neg hint, if_neg hfloat,
      if_neg hnumeric, Datum.output, Datum.value]

example : (Datum.numeric (F := Empty) (-50) 3).output = "-0.050" := by decide

end WalFlux
