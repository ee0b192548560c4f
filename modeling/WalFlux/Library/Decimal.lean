import Mathlib

/-! Decimal floating point: a coefficient and a power of ten, rounded half-even to the digits of a
context after every operation. `Context.round` is the same rounding on the rationals, and each
operation is exact arithmetic followed by it. -/

/-- A finite decimal; the sign of zero carries no value and is left out. -/
structure Decimal where
  coeff : ℤ
  exp : ℤ
  deriving DecidableEq, Repr

structure Decimal.Context where
  prec : ℕ
  emax : ℤ
  emin : ℤ
  prec_pos : 0 < prec
  emin_le : emin ≤ emax

namespace Decimal

def toRat (d : Decimal) : ℚ := d.coeff * 10 ^ d.exp

def numDigits (n : ℕ) : ℕ := Nat.log 10 n + 1

/-- `a / b` to the nearest integer, ties to the even one. -/
def halfEven (a b : ℕ) : ℕ :=
  if 2 * (a % b) < b then a / b
  else if b < 2 * (a % b) then a / b + 1
  else if (a / b) % 2 = 0 then a / b
  else a / b + 1

namespace Context

variable (c : Context)

def etiny : ℤ := c.emin - c.prec + 1

def etop : ℤ := c.emax - c.prec + 1

/-- `_fix`: the value rounded into the context, `none` where the `Overflow` trap raises. -/
def fix (d : Decimal) : Option Decimal :=
  if d.coeff = 0 then some ⟨0, min (max d.exp c.etiny) c.emax⟩
  else
    let n := numDigits d.coeff.natAbs
    if n + d.exp - c.prec > c.etop then none
    else
      let expMin := max (n + d.exp - c.prec) c.etiny
      if d.exp < expMin then
        let coeff := halfEven d.coeff.natAbs (10 ^ (expMin - d.exp).toNat)
        if numDigits coeff > c.prec then
          if expMin + 1 > c.etop then none
          else some ⟨d.coeff.sign * (coeff / 10 : ℕ), expMin + 1⟩
        else some ⟨d.coeff.sign * coeff, expMin⟩
      else some d

end Context

def addExact (a b : Decimal) : Decimal :=
  let e := min a.exp b.exp
  ⟨a.coeff * 10 ^ (a.exp - e).toNat + b.coeff * 10 ^ (b.exp - e).toNat, e⟩

def mulExact (a b : Decimal) : Decimal := ⟨a.coeff * b.coeff, a.exp + b.exp⟩

def ofInt (i : ℤ) : Decimal := ⟨i, 0⟩

def add (c : Context) (a b : Decimal) : Option Decimal := c.fix (addExact a b)

def mul (c : Context) (a b : Decimal) : Option Decimal := c.fix (mulExact a b)

/-! ### Exact values -/

theorem toRat_scale (n e e' : ℤ) (h : e' ≤ e) :
    ((n * 10 ^ (e - e').toNat : ℤ) : ℚ) * 10 ^ e' = n * 10 ^ e := by
  have he : ((e - e').toNat : ℤ) = e - e' := Int.toNat_of_nonneg (by omega)
  have hp : (10 : ℚ) ^ (e - e').toNat * 10 ^ e' = 10 ^ e := by
    rw [← zpow_natCast, ← zpow_add₀ (by norm_num), he, sub_add_cancel]
  push_cast
  rw [mul_assoc, hp]

theorem toRat_addExact (a b : Decimal) : (addExact a b).toRat = a.toRat + b.toRat := by
  have ha := toRat_scale a.coeff a.exp (min a.exp b.exp) (min_le_left _ _)
  have hb := toRat_scale b.coeff b.exp (min a.exp b.exp) (min_le_right _ _)
  rw [toRat, toRat, toRat, ← ha, ← hb, addExact, ← add_mul]
  push_cast
  rfl

theorem toRat_mulExact (a b : Decimal) : (mulExact a b).toRat = a.toRat * b.toRat := by
  simp only [toRat, mulExact, Int.cast_mul, zpow_add₀ (show (10 : ℚ) ≠ 0 by norm_num)]
  ring

@[simp] theorem toRat_ofInt (i : ℤ) : (ofInt i).toRat = i := by
  simp [toRat, ofInt]

/-! ### Rounding on the rationals -/

def halfEvenRat (x : ℚ) : ℕ :=
  if 2 * (x - ⌊x⌋₊) < 1 then ⌊x⌋₊
  else if 1 < 2 * (x - ⌊x⌋₊) then ⌊x⌋₊ + 1
  else if ⌊x⌋₊ % 2 = 0 then ⌊x⌋₊
  else ⌊x⌋₊ + 1

theorem halfEvenRat_natCast (n : ℕ) : halfEvenRat n = n := by
  simp [halfEvenRat]

theorem halfEvenRat_div (a : ℕ) {b : ℕ} (hb : 0 < b) :
    halfEvenRat ((a : ℚ) / b) = halfEven a b := by
  have hb' : (0 : ℚ) < b := by exact_mod_cast hb
  have hfl : ⌊(a : ℚ) / b⌋₊ = a / b := Nat.floor_div_eq_div a b
  have hdm : (a : ℚ) = b * (a / b : ℕ) + (a % b : ℕ) := by
    exact_mod_cast (Nat.div_add_mod a b).symm
  have hfr : 2 * ((a : ℚ) / b - (a / b : ℕ)) = (2 * (a % b) : ℕ) / b := by
    push_cast
    field_simp
    linarith
  have hlt : (2 * ((a : ℚ) / b - (a / b : ℕ)) < 1) = (2 * (a % b) < b) := by
    rw [hfr, div_lt_one hb']
    exact propext Nat.cast_lt
  have hgt : (1 < 2 * ((a : ℚ) / b - (a / b : ℕ))) = (b < 2 * (a % b)) := by
    rw [hfr, one_lt_div hb']
    exact propext Nat.cast_lt
  simp only [halfEvenRat, halfEven, hfl, hlt, hgt]

def Context.round (c : Context) (q : ℚ) : Option ℚ :=
  if q = 0 then some 0
  else
    let l := Int.log 10 |q|
    if l > c.emax then none
    else
      let k := max (l + 1 - c.prec) c.etiny
      let r : ℚ := halfEvenRat (|q| / 10 ^ k) * 10 ^ k
      if 10 ^ (c.emax + 1) ≤ r then none
      else some (if q < 0 then -r else r)

theorem abs_toRat (d : Decimal) : |d.toRat| = d.coeff.natAbs * 10 ^ d.exp := by
  have hp : (0 : ℚ) < 10 ^ d.exp := by positivity
  rw [toRat, abs_mul, abs_of_pos hp, Nat.cast_natAbs, Int.cast_abs]

theorem log_abs_toRat {d : Decimal} (h : d.coeff ≠ 0) :
    Int.log 10 |d.toRat| = Nat.log 10 d.coeff.natAbs + d.exp := by
  have ha : d.coeff.natAbs ≠ 0 := Int.natAbs_ne_zero.mpr h
  have hp : (0 : ℚ) < 10 ^ d.exp := by positivity
  have hpos : 0 < |d.toRat| := by
    rw [abs_toRat]
    have : (0 : ℚ) < d.coeff.natAbs := by exact_mod_cast Nat.pos_of_ne_zero ha
    positivity
  have hlo : ((10 : ℕ) : ℚ) ^ (Nat.log 10 d.coeff.natAbs : ℤ) ≤ d.coeff.natAbs := by
    rw [zpow_natCast]
    exact_mod_cast Nat.pow_log_le_self 10 ha
  have hhi : (d.coeff.natAbs : ℚ) < ((10 : ℕ) : ℚ) ^ ((Nat.log 10 d.coeff.natAbs : ℤ) + 1) := by
    rw [← Nat.cast_succ, zpow_natCast]
    exact_mod_cast Nat.lt_pow_succ_log_self (by norm_num) _
  apply le_antisymm
  · rw [← Int.lt_add_one_iff, ← Int.lt_zpow_iff_log_lt (by norm_num) hpos, abs_toRat,
      add_right_comm, zpow_add₀ (by norm_num)]
    exact mul_lt_mul_of_pos_right hhi hp
  · rw [← Int.zpow_le_iff_le_log (by norm_num) hpos, abs_toRat, zpow_add₀ (by norm_num)]
    exact mul_le_mul_of_nonneg_right hlo hp.le

theorem halfEven_le (a b : ℕ) : halfEven a b ≤ a / b + 1 := by
  unfold halfEven
  split_ifs <;> omega

theorem halfEven_le_pow {a j p : ℕ} (h : Nat.log 10 a + 1 ≤ p + j) :
    halfEven a (10 ^ j) ≤ 10 ^ p := by
  have ha : a < 10 ^ p * 10 ^ j := by
    rw [← pow_add]
    exact (Nat.lt_pow_succ_log_self (by norm_num) a).trans_le (Nat.pow_le_pow_right (by norm_num) h)
  have := (Nat.div_lt_iff_lt_mul (by positivity)).mpr ha
  exact (halfEven_le _ _).trans this

theorem lt_numDigits_iff {m p : ℕ} (hp : 0 < p) (hm : m ≤ 10 ^ p) :
    p < numDigits m ↔ m = 10 ^ p := by
  rw [numDigits, Nat.lt_succ_iff]
  constructor
  · intro h
    have h0 : m ≠ 0 := by
      rintro rfl
      rw [Nat.log_zero_right] at h
      omega
    exact le_antisymm hm ((Nat.le_log_iff_pow_le (by norm_num) h0).mp h)
  · rintro rfl
    rw [Nat.log_pow (by norm_num)]

theorem halfEvenRat_abs_toRat (d : Decimal) (k : ℤ) (h : d.exp ≤ k) :
    halfEvenRat (|d.toRat| / 10 ^ k) = halfEven d.coeff.natAbs (10 ^ (k - d.exp).toNat) := by
  have hj : ((k - d.exp).toNat : ℤ) = k - d.exp := Int.toNat_of_nonneg (by omega)
  have hd : |d.toRat| / 10 ^ k = (d.coeff.natAbs : ℚ) / ((10 ^ (k - d.exp).toNat : ℕ) : ℚ) := by
    have hk : (10 : ℚ) ^ k = 10 ^ (k - d.exp).toNat * 10 ^ d.exp := by
      rw [← zpow_natCast, ← zpow_add₀ (by norm_num), hj, sub_add_cancel]
    have he : (10 : ℚ) ^ d.exp ≠ 0 := by positivity
    rw [abs_toRat, hk, mul_div_mul_right _ _ he]
    push_cast
    rfl
  rw [hd, halfEvenRat_div _ (by positivity)]

theorem halfEvenRat_abs_toRat_of_le (d : Decimal) (k : ℤ) (h : k ≤ d.exp) :
    (halfEvenRat (|d.toRat| / 10 ^ k) : ℚ) * 10 ^ k = |d.toRat| := by
  have hk : (10 : ℚ) ^ k ≠ 0 := by positivity
  have hd : |d.toRat| = ((d.coeff.natAbs * 10 ^ (d.exp - k).toNat : ℕ) : ℚ) * 10 ^ k := by
    have := toRat_scale d.coeff.natAbs d.exp k h
    rw [abs_toRat, ← Int.cast_natCast, ← this]
    norm_cast
  rw [hd, mul_div_cancel_right₀ _ hk, halfEvenRat_natCast]

theorem toRat_sign (d : Decimal) (m : ℕ) (k : ℤ) (h : d.coeff ≠ 0) :
    (⟨d.coeff.sign * m, k⟩ : Decimal).toRat =
      if d.toRat < 0 then -((m : ℚ) * 10 ^ k) else (m : ℚ) * 10 ^ k := by
  have hp : (0 : ℚ) < 10 ^ d.exp := by positivity
  rcases lt_or_gt_of_ne h with hc | hc
  · have hq : d.toRat < 0 := mul_neg_of_neg_of_pos (by exact_mod_cast hc) hp
    rw [if_pos hq, toRat, Int.sign_eq_neg_one_of_neg hc]
    push_cast
    ring
  · have hq : ¬ d.toRat < 0 := not_lt.mpr (mul_pos (by exact_mod_cast hc) hp).le
    rw [if_neg hq, toRat, Int.sign_eq_one_of_pos hc]
    push_cast
    ring

theorem toRat_eq_zero {d : Decimal} : d.toRat = 0 ↔ d.coeff = 0 := by
  have hp : (10 : ℚ) ^ d.exp ≠ 0 := by positivity
  rw [toRat, mul_eq_zero, or_iff_left hp]
  exact_mod_cast Iff.rfl

theorem zpow_ten_le {i j : ℤ} : (10 : ℚ) ^ i ≤ 10 ^ j ↔ i ≤ j :=
  zpow_le_zpow_iff_right₀ (by norm_num)

theorem carry_mul {p : ℕ} (hp : 0 < p) (k : ℤ) :
    ((10 ^ p / 10 : ℕ) : ℚ) * 10 ^ (k + 1) = ((10 ^ p : ℕ) : ℚ) * 10 ^ k := by
  obtain ⟨p, rfl⟩ := Nat.exists_eq_add_one.mpr hp
  rw [pow_succ, Nat.mul_div_cancel _ (by norm_num), zpow_add₀ (by norm_num)]
  push_cast
  ring

theorem fix_rounded (c : Context) {d : Decimal} (h0 : d.coeff ≠ 0) {k : ℤ} (hk : d.exp < k)
    (hdig : Nat.log 10 d.coeff.natAbs + 1 + d.exp - c.prec ≤ k) (htop : k ≤ c.etop) :
    Option.map toRat
      (let coeff := halfEven d.coeff.natAbs (10 ^ (k - d.exp).toNat)
       if numDigits coeff > c.prec then
         if k + 1 > c.etop then none else some ⟨d.coeff.sign * (coeff / 10 : ℕ), k + 1⟩
       else some ⟨d.coeff.sign * coeff, k⟩) =
      (let r : ℚ := halfEvenRat (|d.toRat| / 10 ^ k) * 10 ^ k
       if 10 ^ (c.emax + 1) ≤ r then none else some (if d.toRat < 0 then -r else r)) := by
  have hm : halfEven d.coeff.natAbs (10 ^ (k - d.exp).toNat) ≤ 10 ^ c.prec :=
    halfEven_le_pow (by omega)
  have hten : ((10 ^ c.prec : ℕ) : ℚ) * 10 ^ k = 10 ^ (c.prec + k) := by
    rw [zpow_add₀ (by norm_num), zpow_natCast]
    push_cast
    rfl
  rw [halfEvenRat_abs_toRat d k hk.le]
  generalize halfEven d.coeff.natAbs (10 ^ (k - d.exp).toNat) = m at hm
  dsimp only
  rw [Context.etop] at htop ⊢
  by_cases hcarry : m = 10 ^ c.prec
  · rw [if_pos ((lt_numDigits_iff c.prec_pos hm).mpr hcarry), hcarry, hten]
    -- all digits were nines and carried: one digit more, and possibly an overflow
    by_cases hover : k + 1 > c.emax - c.prec + 1
    · rw [if_pos hover, if_pos (zpow_ten_le.mpr (by omega))]
      rfl
    · rw [if_neg hover, if_neg (fun h => hover (by have := zpow_ten_le.mp h; omega)),
        Option.map_some, toRat_sign d _ _ h0, carry_mul c.prec_pos, hten]
  · have hlt : m < 10 ^ c.prec := lt_of_le_of_ne hm hcarry
    have hr : (m : ℚ) * 10 ^ k < 10 ^ (c.emax + 1) := by
      calc (m : ℚ) * 10 ^ k < ((10 ^ c.prec : ℕ) : ℚ) * 10 ^ k :=
            mul_lt_mul_of_pos_right (by exact_mod_cast hlt) (by positivity)
        _ = 10 ^ (c.prec + k) := hten
        _ ≤ 10 ^ (c.emax + 1) := zpow_ten_le.mpr (by omega)
    rw [if_neg (mt (lt_numDigits_iff c.prec_pos hm).mp hcarry), if_neg (not_le.mpr hr),
      Option.map_some, toRat_sign d _ _ h0]

theorem toRat_fix (c : Context) (d : Decimal) : (c.fix d).map toRat = c.round d.toRat := by
  by_cases h0 : d.coeff = 0
  · rw [Context.fix, if_pos h0, Context.round, if_pos (toRat_eq_zero.mpr h0), Option.map_some,
      toRat_eq_zero.mpr rfl]
  · have hlog := log_abs_toRat h0
    have hn : ((numDigits d.coeff.natAbs : ℕ) : ℤ) + d.exp - c.prec =
        Int.log 10 |d.toRat| + 1 - c.prec := by
      rw [hlog, numDigits]
      push_cast
      ring
    rw [Context.fix, if_neg h0, Context.round, if_neg (mt toRat_eq_zero.mp h0)]
    simp only [hn]
    by_cases hover : Int.log 10 |d.toRat| > c.emax
    · rw [if_pos hover, if_pos (by rw [Context.etop]; omega)]
      rfl
    · have hemin := c.emin_le
      rw [if_neg hover, if_neg (by rw [Context.etop]; omega)]
      have htop : max (Int.log 10 |d.toRat| + 1 - c.prec) c.etiny ≤ c.etop := by
        rw [Context.etop, Context.etiny]
        omega
      by_cases hk : d.exp < max (Int.log 10 |d.toRat| + 1 - c.prec) c.etiny
      · rw [if_pos hk]
        exact fix_rounded c h0 hk (by omega) htop
      · have hlt := Int.lt_zpow_succ_log_self (b := 10) (by norm_num) |d.toRat|
        have habs : |d.toRat| < 10 ^ (c.emax + 1) := hlt.trans_le (zpow_ten_le.mpr (by omega))
        rw [if_neg hk, halfEvenRat_abs_toRat_of_le d _ (not_lt.mp hk), if_neg (not_le.mpr habs),
          Option.map_some]
        congr 1
        split_ifs with hq
        · rw [abs_of_neg hq, neg_neg]
        · rw [abs_of_nonneg (not_lt.mp hq)]

theorem map_toRat_add (c : Context) (a b : Decimal) :
    (add c a b).map toRat = c.round (a.toRat + b.toRat) := by
  rw [add, toRat_fix, toRat_addExact]

theorem map_toRat_mul (c : Context) (a b : Decimal) :
    (mul c a b).map toRat = c.round (a.toRat * b.toRat) := by
  rw [mul, toRat_fix, toRat_mulExact]

/-- A value of at most `prec` digits inside the exponent range is its own rounding. -/
theorem round_toRat (c : Context) (d : Decimal) (hc : d.coeff.natAbs < 10 ^ c.prec)
    (hlo : c.etiny ≤ d.exp) (hhi : d.exp ≤ c.etop) : c.round d.toRat = some d.toRat := by
  by_cases h0 : d.coeff = 0
  · rw [Context.round, if_pos (toRat_eq_zero.mpr h0), toRat_eq_zero.mpr h0]
  · have hn : numDigits d.coeff.natAbs ≤ c.prec :=
      Nat.log_lt_of_lt_pow (Int.natAbs_ne_zero.mpr h0) hc
    have hfix : c.fix d = some d := by
      rw [Context.fix, if_neg h0]
      dsimp only
      rw [if_neg (by omega), if_neg (by omega)]
    rw [← toRat_fix, hfix, Option.map_some]

end Decimal
