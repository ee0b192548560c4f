import WalFlux.Common
import WalFlux.Library.Numeral

/-! LSN texts: which of them are accepted, and what the written ones read as. -/

namespace WalFlux

open Python

def LsnHalf (cs : List Char) : Prop := PlainHex cs ∧ cs.length ≤ 8

/-- The texts of LSNs, like `16/B374D848`. -/
def LsnText (text : String) : Prop :=
  ∃ hi lo, text.toList = hi ++ '/' :: lo ∧ LsnHalf hi ∧ LsnHalf lo

structure ReadsLsn (text : String) : Prop where
  accepts : (∃ v, parseLsn text = .ok v) ↔ LsnText text
  raises : ¬ LsnText text → ∃ msg, parseLsn text = .error (.walflux msg)
  range : ∀ v, parseLsn text = .ok v → 0 ≤ v ∧ v < 2 ^ 64

/-- Both texts are read as they should be, and as the same value only if their halves denote the
same numbers. -/
structure ReadApart (text text' : String) : Prop where
  left : ReadsLsn text
  right : ReadsLsn text'
  apart : ∀ v, parseLsn text = .ok v → parseLsn text' = .ok v → ∀ hi lo hi' lo',
    text.toList = hi ++ '/' :: lo → text'.toList = hi' ++ '/' :: lo' →
      int (String.ofList hi) 16 = int (String.ofList hi') 16 ∧
        int (String.ofList lo) 16 = int (String.ofList lo') 16

/-- Of two literals around a slash, neither has anything but hexadecimal digits, or more
than eight. -/
def PlainLsn (text : String) : Prop :=
  ∀ hi lo, text.toList = hi ++ '/' :: lo → Literal 16 hi → Literal 16 lo → ∀ half ∈ [hi, lo],
    (∀ c ∈ half, c ∈ hexDigits) ∧ half.length ≤ 8

/-! ### Acceptance -/

theorem splitOn_slash {cs hi lo : List Char} (hhi : '/' ∉ hi) (hlo : '/' ∉ lo)
    (h : cs = hi ++ '/' :: lo) : cs.splitOn '/' = [hi, lo] := by
  rw [h, List.splitOn_append_cons_self_of_not_mem hhi, List.splitOn_eq_singleton hlo]

theorem slash_notMem {cs : List Char} (h : Literal 16 cs) : '/' ∉ cs :=
  h.notMem (by decide) (by decide) (by decide) (by decide)

theorem parseLsn_of_halves {text : String} {hi lo : List Char} {a b : ℤ}
    (h : text.toList = hi ++ '/' :: lo) (ha : int (String.ofList hi) 16 = some a)
    (hb : int (String.ofList lo) 16 = some b) : parseLsn text = .ok (Int.lor (a * 2 ^ 32) b) := by
  have hhi : Literal 16 hi := by
    rw [← String.toList_ofList (l := hi), ← int_isSome_iff, ha]
    rfl
  have hlo : Literal 16 lo := by
    rw [← String.toList_ofList (l := lo), ← int_isSome_iff, hb]
    rfl
  rw [parseLsn, splitOn_slash (slash_notMem hhi) (slash_notMem hlo) h]
  dsimp only
  rw [ha, hb]

theorem parseLsn_cases (text : String) :
    (∃ hi lo a b, text.toList = hi ++ '/' :: lo ∧ int (String.ofList hi) 16 = some a ∧
      int (String.ofList lo) 16 = some b ∧ parseLsn text = .ok (Int.lor (a * 2 ^ 32) b)) ∨
    parseLsn text = .error (.walflux s!"invalid LSN: {Python.repr text}") := by
  have hcat : ['/'].intercalate (text.toList.splitOn '/') = text.toList :=
    List.intercalate_splitOn '/'
  unfold parseLsn
  split
  · rename_i hi lo hsplit
    split
    · rename_i a b ha hb
      refine .inl ⟨hi, lo, a, b, ?_, ha, hb, rfl⟩
      rw [← hcat, hsplit]
      simp [List.intercalate]
    · exact .inr rfl
  · exact .inr rfl

theorem literal_iff {cs : List Char} : Literal 16 cs ↔ ∃ a, int (String.ofList cs) 16 = some a := by
  rw [← Option.isSome_iff_exists, int_isSome_iff, String.toList_ofList]

theorem LsnHalf.literal {cs : List Char} (h : LsnHalf cs) : Literal 16 cs :=
  literal_iff.mpr ⟨_, h.1.int⟩

theorem lor_halves {hi lo : ℕ} (hlo : lo < 2 ^ 32) :
    Int.lor ((hi : ℤ) * 2 ^ 32) lo = (hi * 2 ^ 32 + lo : ℕ) := by
  have hshift : (hi : ℤ) * 2 ^ 32 = ((hi * 2 ^ 32 : ℕ) : ℤ) := by norm_num
  rw [hshift, mul_comm, Nat.two_pow_add_eq_or_of_lt hlo hi]
  rfl

theorem LsnHalf.value_lt {cs : List Char} (h : LsnHalf cs) : hexValue cs < 2 ^ 32 := by
  calc hexValue cs < 16 ^ cs.length := hexValue_lt h.1.2
    _ ≤ 16 ^ 8 := Nat.pow_le_pow_right (by decide) h.2
    _ = 2 ^ 32 := by norm_num

theorem parseLsn_lsnText {text : String} {hi lo : List Char} (h : text.toList = hi ++ '/' :: lo)
    (hhi : LsnHalf hi) (hlo : LsnHalf lo) :
    parseLsn text = .ok ((hexValue hi * 2 ^ 32 + hexValue lo : ℕ) : ℤ) := by
  rw [parseLsn_of_halves h hhi.1.int hlo.1.int, lor_halves hlo.value_lt]

theorem halves_unique {text : String} {hi lo hi' lo' : List Char}
    (h : text.toList = hi ++ '/' :: lo) (h' : text.toList = hi' ++ '/' :: lo') (hhi : Literal 16 hi)
    (hlo : Literal 16 lo) :
    hi' = hi ∧ lo' = lo := by
  obtain ⟨hhi, -, hlo⟩ := (List.append_cons_inj_of_notMem (slash_notMem hhi) (slash_notMem hlo)).mp
    (h.symm.trans h')
  exact ⟨hhi.symm, hlo.symm⟩

theorem PlainLsn.accepted {text : String} (hplain : PlainLsn text) {v : ℤ}
    (h : parseLsn text = .ok v) : ∃ hi lo, text.toList = hi ++ '/' :: lo ∧ LsnHalf hi ∧ LsnHalf lo ∧
      v = (hexValue hi * 2 ^ 32 + hexValue lo : ℕ) := by
  obtain ⟨hi, lo, a, b, htext, ha, hb, -⟩ | hraise := parseLsn_cases text
  · have hhi := literal_iff.mpr ⟨a, ha⟩
    have hlo := literal_iff.mpr ⟨b, hb⟩
    have hhalves := hplain hi lo htext hhi hlo
    have hhi' : LsnHalf hi := ⟨⟨hhi.ne_nil, (hhalves hi (by simp)).1⟩, (hhalves hi (by simp)).2⟩
    have hlo' : LsnHalf lo := ⟨⟨hlo.ne_nil, (hhalves lo (by simp)).1⟩, (hhalves lo (by simp)).2⟩
    refine ⟨hi, lo, htext, hhi', hlo', ?_⟩
    exact Except.ok.inj (h.symm.trans (parseLsn_lsnText htext hhi' hlo'))
  · cases h.symm.trans hraise

theorem readsLsn_iff {text : String} : ReadsLsn text ↔ PlainLsn text := by
  constructor
  · intro h hi lo htext hhi hlo
    obtain ⟨a, ha⟩ := literal_iff.mp hhi
    obtain ⟨b, hb⟩ := literal_iff.mp hlo
    obtain ⟨hi', lo', htext', hhi', hlo'⟩ := h.accepts.mp ⟨_, parseLsn_of_halves htext ha hb⟩
    obtain ⟨rfl, rfl⟩ := halves_unique htext htext' hhi hlo
    exact List.forall_mem_cons.mpr ⟨⟨hhi'.1.2, hhi'.2⟩,
      List.forall_mem_singleton.mpr ⟨hlo'.1.2, hlo'.2⟩⟩
  · intro h
    refine ⟨⟨?_, ?_⟩, fun hnot => ?_, fun v hv => ?_⟩
    · rintro ⟨v, hv⟩
      obtain ⟨hi, lo, htext, hhi, hlo, -⟩ := h.accepted hv
      exact ⟨hi, lo, htext, hhi, hlo⟩
    · rintro ⟨hi, lo, htext, hhi, hlo⟩
      exact ⟨_, parseLsn_lsnText htext hhi hlo⟩
    · obtain ⟨_, _, _, _, _, _, _, hok⟩ | hraise := parseLsn_cases text
      · obtain ⟨hi, lo, htext, hhi, hlo, -⟩ := h.accepted hok
        exact absurd ⟨hi, lo, htext, hhi, hlo⟩ hnot
      · exact ⟨_, hraise⟩
    · obtain ⟨hi, lo, -, hhi, hlo, rfl⟩ := h.accepted hv
      have hhi := hhi.value_lt
      have hlo := hlo.value_lt
      constructor <;> omega

theorem PlainLsn.apart {text text' : String} (h : PlainLsn text) (h' : PlainLsn text') {v : ℤ}
    (hv : parseLsn text = .ok v) (hv' : parseLsn text' = .ok v) {hi lo hi' lo' : List Char}
    (htext : text.toList = hi ++ '/' :: lo) (htext' : text'.toList = hi' ++ '/' :: lo') :
    int (String.ofList hi) 16 = int (String.ofList hi') 16 ∧
      int (String.ofList lo) 16 = int (String.ofList lo') 16 := by
  obtain ⟨_, _, hcat, hhi, hlo, hvalue⟩ := h.accepted hv
  obtain ⟨rfl, rfl⟩ := halves_unique hcat htext hhi.literal hlo.literal
  obtain ⟨_, _, hcat', hhi', hlo', hvalue'⟩ := h'.accepted hv'
  obtain ⟨rfl, rfl⟩ := halves_unique hcat' htext' hhi'.literal hlo'.literal
  have hlt := hlo.value_lt
  have hlt' := hlo'.value_lt
  have heq : hexValue hi = hexValue hi' ∧ hexValue lo = hexValue lo' := by omega
  rw [hhi.1.int, hlo.1.int, hhi'.1.int, hlo'.1.int, heq.1, heq.2]
  exact ⟨rfl, rfl⟩

/-! ### The round trip -/

theorem parseLsn_formatLsn (lsn : ℕ) : parseLsn (formatLsn lsn) = .ok (lsn : ℤ) := by
  have hlow : lsn &&& 0xFFFFFFFF = lsn % 2 ^ 32 := Nat.and_two_pow_sub_one_eq_mod lsn 32
  have hhigh : lsn >>> 32 = lsn / 2 ^ 32 := Nat.shiftRight_eq_div_pow lsn 32
  have htext : (formatLsn lsn).toList =
      (hexUpper (lsn >>> 32)).toList ++ '/' :: (hexUpper (lsn &&& 0xFFFFFFFF)).toList := by
    rw [formatLsn, String.toList_append, String.toList_append, List.append_assoc]
    rfl
  rw [parseLsn_of_halves htext (by rw [String.ofList_toList, int_hexUpper])
    (by rw [String.ofList_toList, int_hexUpper]), hlow, hhigh,
    lor_halves (Nat.mod_lt _ (by decide)), Nat.div_add_mod']

/-- Every LSN is read back from its text, and texts are read as they should be exactly if no literal
in them is written in another way. -/
theorem lsnTexts_iff (lsn : ℕ) (text text' : String) : parseLsn (formatLsn lsn) = .ok (lsn : ℤ) ∧
    (ReadApart text text' ↔ PlainLsn text ∧ PlainLsn text') := by
  refine ⟨parseLsn_formatLsn lsn, ?_, ?_⟩
  · intro h
    exact ⟨readsLsn_iff.mp h.left, readsLsn_iff.mp h.right⟩
  · rintro ⟨h, h'⟩
    exact ⟨readsLsn_iff.mpr h, readsLsn_iff.mpr h', fun v hv hv' hi lo hi' lo' => h.apart h' hv hv'⟩

example : formatLsn 0x16B374D848 = "16/B374D848" := by decide

/-- A signed half makes the value negative, and a low half of nine digits runs into the high one. -/
theorem parseLsn_lenient : parseLsn "-1/0" = .ok (-4294967296) ∧
    parseLsn "0x1/ 1_0" = .ok 4294967312 ∧
    parseLsn "0/100000000" = parseLsn "1/0" ∧ ¬ ∀ text text', ReadApart text text' := by
  have hneg : parseLsn "-1/0" = .ok (-4294967296) := by decide +kernel
  refine ⟨hneg, by decide +kernel, by decide +kernel, fun h => ?_⟩
  have hrange := ((h "-1/0" "-1/0").left.range _ hneg).1
  norm_num at hrange

end WalFlux
