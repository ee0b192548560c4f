import Mathlib

/-! Byte lists: fixed-width big-endian integers, their two's-complement reading, and UTF-8 text. -/

namespace Bytes

def ofNat : ℕ → ℕ → List UInt8
  | 0, _ => []
  | w + 1, n => ofNat w (n / 256) ++ [UInt8.ofNat (n % 256)]

def toNat (bs : List UInt8) : ℕ := bs.foldl (fun n b => n * 256 + b.toNat) 0

theorem toNat_concat (bs : List UInt8) (b : UInt8) :
    toNat (bs ++ [b]) = toNat bs * 256 + b.toNat := by
  simp only [toNat, List.foldl_append, List.foldl_cons, List.foldl_nil]

@[simp] theorem length_ofNat (w n : ℕ) : (ofNat w n).length = w := by
  induction w generalizing n with
  | zero => rfl
  | succ w ih => simp only [ofNat, List.length_append, ih, List.length_singleton]

theorem toNat_ofNat {w n : ℕ} (h : n < 256 ^ w) : toNat (ofNat w n) = n := by
  induction w generalizing n with
  | zero =>
    have : n = 0 := by simpa using h
    rw [this]
    rfl
  | succ w ih =>
    have hd : n / 256 < 256 ^ w := by
      rw [Nat.div_lt_iff_lt_mul (by decide)]
      simpa [pow_succ] using h
    rw [ofNat, toNat_concat, ih hd, UInt8.toNat_ofNat', Nat.mod_mod]
    omega

theorem toNat_lt (bs : List UInt8) : toNat bs < 256 ^ bs.length := by
  induction bs using List.reverseRecOn with
  | nil => simp [toNat]
  | append_singleton bs b ih =>
    have hb := b.toNat_lt
    rw [toNat_concat, List.length_append, List.length_singleton, pow_succ]
    omega

theorem ofNat_toNat (bs : List UInt8) : ofNat bs.length (toNat bs) = bs := by
  induction bs using List.reverseRecOn with
  | nil => rfl
  | append_singleton bs b ih =>
    have hb := b.toNat_lt
    rw [List.length_append, List.length_singleton, ofNat, toNat_concat,
      show (toNat bs * 256 + b.toNat) / 256 = toNat bs by omega,
      show (toNat bs * 256 + b.toNat) % 256 = b.toNat by omega, ih, UInt8.ofNat_toNat]

def signed (w n : ℕ) : ℤ := if 2 * n < 256 ^ w then n else (n : ℤ) - 256 ^ w

def unsigned (w : ℕ) (i : ℤ) : ℕ := (i % 256 ^ w).toNat

theorem unsigned_lt (w : ℕ) (i : ℤ) : unsigned w i < 256 ^ w := by
  have hp : (0 : ℤ) < 256 ^ w := by positivity
  have h1 := Int.emod_nonneg i hp.ne'
  have h2 := Int.emod_lt_of_pos i hp
  have : ((unsigned w i : ℕ) : ℤ) < ((256 ^ w : ℕ) : ℤ) := by
    rw [unsigned, Int.toNat_of_nonneg h1]
    exact_mod_cast h2
  exact_mod_cast this

theorem signed_unsigned {w : ℕ} {i : ℤ} (hlo : -(256 ^ w) ≤ 2 * i) (hhi : 2 * i < 256 ^ w) :
    signed w (unsigned w i) = i := by
  have hp : (0 : ℤ) < 256 ^ w := by positivity
  have hc : ((256 ^ w : ℕ) : ℤ) = 256 ^ w := by norm_cast
  rcases lt_or_ge i 0 with hi | hi
  · have hm : i % 256 ^ w = i + 256 ^ w := by
      rw [← Int.add_emod_right, Int.emod_eq_of_lt (by linarith) (by linarith)]
    have hn : ((unsigned w i : ℕ) : ℤ) = i + 256 ^ w := by
      rw [unsigned, hm, Int.toNat_of_nonneg (by linarith)]
    have hge : ¬ 2 * unsigned w i < 256 ^ w := by
      intro hlt
      have : 2 * ((unsigned w i : ℕ) : ℤ) < ((256 ^ w : ℕ) : ℤ) := by exact_mod_cast hlt
      rw [hn, hc] at this
      linarith
    rw [signed, if_neg hge, hn, add_sub_cancel_right]
  · have hn : ((unsigned w i : ℕ) : ℤ) = i := by
      rw [unsigned, Int.emod_eq_of_lt hi (by linarith), Int.toNat_of_nonneg hi]
    have hlt : 2 * unsigned w i < 256 ^ w := by
      have : 2 * ((unsigned w i : ℕ) : ℤ) < ((256 ^ w : ℕ) : ℤ) := by rw [hn, hc]; exact hhi
      exact_mod_cast this
    rw [signed, if_pos hlt, hn]

theorem signed_bounds {w n : ℕ} (h : n < 256 ^ w) :
    -(256 ^ w) ≤ 2 * signed w n ∧ 2 * signed w n < 256 ^ w := by
  have hn : (n : ℤ) < 256 ^ w := by exact_mod_cast h
  unfold signed
  split_ifs with hlt
  · have hlt : 2 * (n : ℤ) < 256 ^ w := by exact_mod_cast hlt
    exact ⟨by omega, hlt⟩
  · have hge : (256 : ℤ) ^ w ≤ 2 * n := by exact_mod_cast not_lt.mp hlt
    exact ⟨by omega, by omega⟩

theorem unsigned_signed {w n : ℕ} (h : n < 256 ^ w) : unsigned w (signed w n) = n := by
  have hn : (n : ℤ) % 256 ^ w = n := Int.emod_eq_of_lt (Int.natCast_nonneg n) (by exact_mod_cast h)
  unfold unsigned signed
  split_ifs
  · rw [hn, Int.toNat_natCast]
  · rw [Int.sub_emod_right, hn, Int.toNat_natCast]

/-- Strict UTF-8, as `bytes.decode("utf-8")`: `none` where that raises. -/
def decodeUtf8 (bs : List UInt8) : Option String := String.fromUTF8? bs.toByteArray

def encodeUtf8 (s : String) : List UInt8 := s.toByteArray.data.toList

theorem toByteArray_encodeUtf8 (s : String) : (encodeUtf8 s).toByteArray = s.toByteArray := by
  apply ByteArray.ext
  rw [List.data_toByteArray, encodeUtf8, Array.toArray_toList]

theorem decodeUtf8_encodeUtf8 (s : String) : decodeUtf8 (encodeUtf8 s) = some s := by
  rw [decodeUtf8, toByteArray_encodeUtf8, String.fromUTF8?, dif_pos s.isValidUTF8]
  rfl

theorem encodeUtf8_of_decodeUtf8 {bs : List UInt8} {s : String} (h : decodeUtf8 bs = some s) :
    encodeUtf8 s = bs := by
  rw [decodeUtf8, String.fromUTF8?] at h
  split at h
  · cases h
    exact List.toList_data_toByteArray
  · cases h

theorem decodeUtf8_eq_none {bs : List UInt8} :
    decodeUtf8 bs = none ↔ ¬ bs.toByteArray.IsValidUTF8 := by
  rw [decodeUtf8, String.fromUTF8?]
  split <;> simp_all

theorem encodeUtf8_eq_flatMap (s : String) :
    encodeUtf8 s = s.toList.flatMap String.utf8EncodeChar := by
  rw [encodeUtf8, ← String.utf8Encode_toList, List.utf8Encode, List.toList_data_toByteArray]

theorem zero_ne_ofNat {n : ℕ} (h : n % 256 ≠ 0) : (0 : UInt8) ≠ UInt8.ofNat n := by
  intro he
  have := congrArg UInt8.toNat he
  rw [UInt8.toNat_ofNat'] at this
  exact h this.symm

theorem zero_notMem_utf8EncodeChar {c : Char} (hc : c ≠ '\x00') :
    0 ∉ String.utf8EncodeChar c := by
  have hv : c.val.toNat ≠ 0 := fun h => hc (Char.ext (UInt32.toNat_inj.mp h))
  simp only [String.utf8EncodeChar]
  split_ifs <;> simp only [List.mem_cons, List.not_mem_nil, or_false, not_or]
  · exact zero_ne_ofNat (by omega)
  · exact ⟨zero_ne_ofNat (by omega), zero_ne_ofNat (by omega)⟩
  · exact ⟨zero_ne_ofNat (by omega), zero_ne_ofNat (by omega), zero_ne_ofNat (by omega)⟩
  · exact ⟨zero_ne_ofNat (by omega), zero_ne_ofNat (by omega), zero_ne_ofNat (by omega),
      zero_ne_ofNat (by omega)⟩

theorem zero_notMem_encodeUtf8 {s : String} (hs : '\x00' ∉ s.toList) : 0 ∉ encodeUtf8 s := by
  rw [encodeUtf8_eq_flatMap, List.mem_flatMap]
  rintro ⟨c, hc, h0⟩
  exact zero_notMem_utf8EncodeChar (fun h => hs (h ▸ hc)) h0

theorem zero_mem_encodeUtf8 {s : String} (hs : '\x00' ∈ s.toList) : 0 ∈ encodeUtf8 s := by
  rw [encodeUtf8_eq_flatMap, List.mem_flatMap]
  exact ⟨_, hs, by decide⟩

end Bytes
