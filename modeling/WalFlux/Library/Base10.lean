import WalFlux.Library.Numeral

/-! Numbers written with the ten ASCII digits, and what `int` reads them as. -/

namespace Python

/-! ### One digit -/

section Digit

variable {c : Char}

theorem toNat_isDigit (h : c.isDigit) : 48 ≤ c.toNat ∧ c.toNat < 58 := by
  rw [Char.isDigit, Bool.and_eq_true, decide_eq_true_iff, decide_eq_true_iff] at h
  exact ⟨h.1, Nat.lt_succ_of_le h.2⟩

theorem decimalDigit_isDigit (h : c.isDigit) : decimalDigit c = some (c.toNat - 48) := by
  have hfind : (digitZeros.find? fun z => z ≤ c.toNat ∧ c.toNat < z + 10) = some 48 := by
    apply List.find?_cons_of_pos
    exact decide_eq_true (toNat_isDigit h)
  rw [decimalDigit, hfind, Option.map_some]

theorem asciiDigit_isDigit (h : c.isDigit) : asciiDigit c = c := by
  have hsum : 0x30 + (c.toNat - 48) = c.toNat := Nat.add_sub_of_le (toNat_isDigit h).1
  rw [asciiDigit, decimalDigit_isDigit h]
  dsimp only
  rw [hsum, Char.ofNat_toNat]

theorem digitValue_isDigit (h : c.isDigit) : digitValue c = some (c.toNat - 48) := by
  have hlt := (toNat_isDigit h).2
  have hlower : ¬ ('a' ≤ c ∧ c ≤ 'z') := fun hc => by
    have : 97 ≤ c.toNat := hc.1
    omega
  have hupper : ¬ ('A' ≤ c ∧ c ≤ 'Z') := fun hc => by
    have : 65 ≤ c.toNat := hc.1
    omega
  rw [digitValue, if_neg hlower, if_neg hupper, decimalDigit_isDigit h]

theorem isSpace_isDigit (h : c.isDigit) : isSpace c = false := by
  have hrange := toNat_isDigit h
  simp [isSpace]
  omega

theorem isBlank_of_isSpace (h : isSpace c = false) : isBlank c = false := by
  rw [isBlank, h, Bool.false_and]

theorem ne_of_isDigit (h : c.isDigit) {d : Char} (hd : d.isDigit = false) : c ≠ d := by
  rintro rfl
  cases h.symm.trans hd

end Digit

/-! ### Plain digits -/

structure Plain (cs : List Char) : Prop where
  ne_nil : cs ≠ []
  isDigit : ∀ c ∈ cs, c.isDigit

theorem plain_toDigits (n : ℕ) : Plain (Nat.toDigits 10 n) :=
  ⟨Nat.toDigits_ne_nil, fun _ => Nat.isDigit_of_mem_toDigits (by decide) (by decide)⟩

theorem digitsFrom_isDigit {acc : ℕ} {cs : List Char} (h : ∀ c ∈ cs, c.isDigit) :
    digitsFrom 10 acc cs = some (Nat.ofDigitChars 10 cs acc) := by
  induction cs generalizing acc with
  | nil => rw [digitsFrom, Nat.ofDigitChars_nil]
  | cons c cs ih =>
    obtain ⟨hc, hcs⟩ := List.forall_mem_cons.mp h
    have hlt : c.toNat - 48 < 10 := by
      have := toNat_isDigit hc
      omega
    rw [digitsFrom, digitValue_isDigit hc]
    · simp only [Option.bind_eq_bind, Option.bind_some, if_pos hlt]
      rw [ih hcs, Nat.ofDigitChars_cons, mul_comm]
      rfl
    · rintro _ _ rfl -
      cases hc

theorem Plain.digits {cs : List Char} (h : Plain cs) :
    digits 10 cs = some (Nat.ofDigitChars 10 cs 0) := by
  obtain ⟨c, cs, rfl⟩ := List.exists_cons_of_ne_nil h.ne_nil
  obtain ⟨hc, hcs⟩ := List.forall_mem_cons.mp h.isDigit
  have hlt : c.toNat - 48 < 10 := by
    have := toNat_isDigit hc
    omega
  rw [Python.digits, digitValue_isDigit hc]
  simp only [Option.bind_eq_bind, Option.bind_some, if_pos hlt]
  rw [digitsFrom_isDigit hcs, Nat.ofDigitChars_cons, mul_zero, zero_add]
  rfl

theorem Plain.ne_cons {cs : List Char} (h : Plain cs) {d : Char} (hd : d.isDigit = false)
    (cs' : List Char) : cs ≠ d :: cs' := by
  rintro rfl
  exact ne_of_isDigit (h.isDigit d List.mem_cons_self) hd rfl

/-! ### Integers -/

def withSign (negative : Bool) (cs : List Char) : List Char := if negative then '-' :: cs else cs

theorem toList_toString_int (i : ℤ) :
    (toString i).toList = withSign (i < 0) (Nat.toDigits 10 i.natAbs) := by
  cases i with
  | ofNat n =>
    have hneg : decide (Int.ofNat n < 0) = false := decide_eq_false (Int.natCast_nonneg n).not_gt
    rw [hneg]
    exact Nat.toList_repr
  | negSucc n =>
    have hneg : decide (Int.negSucc n < 0) = true := decide_eq_true (Int.negSucc_lt_zero n)
    rw [hneg]
    change ("-" ++ (n + 1).repr).toList = '-' :: Nat.toDigits 10 (n + 1)
    rw [String.toList_append, Nat.toList_repr]
    rfl

theorem mem_withSign {negative : Bool} {cs : List Char} {c : Char} (h : c ∈ withSign negative cs) :
    c = '-' ∨ c ∈ cs := by
  cases negative with
  | true => exact List.mem_cons.mp h
  | false => exact .inr h

theorem int_toString (i : ℤ) : int (toString i) 10 = some i := by
  have hplain := plain_toDigits i.natAbs
  have hclean : ∀ c ∈ (toString i).toList, asciiDigit c = c ∧ isBlank c = false := by
    intro c hc
    rw [toList_toString_int] at hc
    rcases mem_withSign hc with rfl | hc
    · decide
    · have hdigit := hplain.isDigit c hc
      exact ⟨asciiDigit_isDigit hdigit, isBlank_of_isSpace (isSpace_isDigit hdigit)⟩
  have hascii : (toString i).toList.map asciiDigit = (toString i).toList :=
    (List.map_congr_left fun c hc => (hclean c hc).1).trans (List.map_id _)
  have hdigits : digits 10 (Nat.toDigits 10 i.natAbs) = some i.natAbs := by
    rw [hplain.digits, Nat.ofDigitChars_toDigits (by decide) (by decide)]
  unfold int
  extract_lets unwithSign
  have hunwithSign : unwithSign (Nat.toDigits 10 i.natAbs) = some i.natAbs := hdigits
  rw [hascii, trim_eq_self fun c hc => (hclean c hc).2, toList_toString_int]
  by_cases hneg : i < 0
  · rw [decide_eq_true hneg]
    change (unwithSign _).map _ = _
    rw [hunwithSign, Option.map_some]
    congr 1
    omega
  · rw [decide_eq_false hneg]
    have hunsigned : withSign false (Nat.toDigits 10 i.natAbs) = Nat.toDigits 10 i.natAbs := rfl
    rw [hunsigned]
    split
    · exact absurd ‹_› (hplain.ne_cons (by decide) _)
    · exact absurd ‹_› (hplain.ne_cons (by decide) _)
    · rw [hunwithSign, Option.map_some]
      congr 1
      omega

/-! ### A given number of digits -/

def lastDigits : ℕ → ℕ → List Char
  | 0, _ => []
  | w + 1, n => lastDigits w (n / 10) ++ [Nat.digitChar (n % 10)]

theorem length_lastDigits (w n : ℕ) : (lastDigits w n).length = w := by
  induction w generalizing n with
  | zero => rfl
  | succ w ih => rw [lastDigits, List.length_append, ih, List.length_singleton]

theorem isDigit_lastDigits (w n : ℕ) : ∀ c ∈ lastDigits w n, c.isDigit := by
  induction w generalizing n with
  | zero => exact fun c hc => (by cases hc)
  | succ w ih =>
    rw [lastDigits, List.forall_mem_append]
    refine ⟨ih _, List.forall_mem_singleton.mpr ?_⟩
    rw [Nat.isDigit_digitChar]
    exact decide_eq_true (Nat.mod_lt n (by decide))

theorem ofDigitChars_lastDigits (w n init : ℕ) :
    Nat.ofDigitChars 10 (lastDigits w n) init = 10 ^ w * init + n % 10 ^ w := by
  induction w generalizing n with
  | zero => simp [lastDigits, Nat.mod_one]
  | succ w ih =>
    have hsplit : n % 10 ^ (w + 1) = n % 10 + 10 * (n / 10 % 10 ^ w) := by
      rw [pow_succ, mul_comm, Nat.mod_mul]
    rw [lastDigits, Nat.ofDigitChars_append, ih,
      Nat.ofDigitChars_cons_digitChar_of_lt_ten (Nat.mod_lt n (by decide)), Nat.ofDigitChars_nil,
      hsplit, pow_succ]
    ring

end Python
