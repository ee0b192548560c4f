import WalFlux.Library.Python

/-! The literals `int` accepts, as a grammar, and what plain hexadecimal digits read as. -/

namespace Python

/-! ### Trimming -/

section Trim

variable {p : Char → Bool}

theorem dropWhile_eq_self {cs : List Char} (h : ∀ c ∈ cs, p c = false) : cs.dropWhile p = cs := by
  cases cs with
  | nil => rfl
  | cons c cs => rw [List.dropWhile_cons, h c List.mem_cons_self, if_neg Bool.false_ne_true]

theorem trim_eq_self {cs : List Char} (h : ∀ c ∈ cs, p c = false) : trim p cs = cs := by
  rw [trim, dropWhile_eq_self h, dropWhile_eq_self fun c hc => h c (List.mem_reverse.mp hc),
    List.reverse_reverse]

theorem trim_append {pre mid post : List Char} (hpre : ∀ c ∈ pre, p c = true)
    (hmid : ∀ c ∈ mid, p c = false) (hpost : ∀ c ∈ post, p c = true) :
    trim p (pre ++ mid ++ post) = mid := by
  cases mid with
  | nil =>
    have hall : ∀ c ∈ pre ++ [] ++ post, p c = true := by
      rw [List.append_nil]
      exact List.forall_mem_append.mpr ⟨hpre, hpost⟩
    rw [trim, List.dropWhile_eq_nil_iff.mpr hall]
    rfl
  | cons c cs =>
    have hfront : (pre ++ c :: cs ++ post).dropWhile p = c :: cs ++ post := by
      rw [List.append_assoc, List.dropWhile_append_of_pos hpre, List.cons_append,
        List.dropWhile_cons, hmid c List.mem_cons_self, if_neg Bool.false_ne_true]
    rw [trim, hfront, List.reverse_append, List.dropWhile_append_of_pos (by simpa using hpost),
      dropWhile_eq_self (fun d hd => hmid d (List.mem_reverse.mp hd)), List.reverse_reverse]

theorem exists_trim (p : Char → Bool) (cs : List Char) : ∃ pre post, cs = pre ++ trim p cs ++ post ∧
    (∀ c ∈ pre, p c = true) ∧ ∀ c ∈ post, p c = true := by
  refine ⟨cs.takeWhile p, ((cs.dropWhile p).reverse.takeWhile p).reverse, ?_, ?_, ?_⟩
  · have hback : trim p cs ++ ((cs.dropWhile p).reverse.takeWhile p).reverse = cs.dropWhile p := by
      rw [trim, ← List.reverse_append, List.takeWhile_append_dropWhile, List.reverse_reverse]
    rw [List.append_assoc, hback, List.takeWhile_append_dropWhile]
  · exact fun c hc => List.mem_takeWhile_imp hc
  · exact fun c hc => List.mem_takeWhile_imp (List.mem_reverse.mp hc)

end Trim

/-! ### Digits -/

def IsDigit (base : ℕ) (c : Char) : Prop := ∃ d < base, digitValue c = some d

inductive DigitTail (base : ℕ) : List Char → Prop
  | nil : DigitTail base []
  | digit {c : Char} {cs : List Char} : IsDigit base c → DigitTail base cs →
    DigitTail base (c :: cs)
  | spaced {c : Char} {cs : List Char} : IsDigit base c → DigitTail base cs →
      DigitTail base ('_' :: c :: cs)

def Digits (base : ℕ) (cs : List Char) : Prop :=
  ∃ c tail, cs = c :: tail ∧ IsDigit base c ∧ DigitTail base tail

theorem not_isDigit_underscore (base : ℕ) : ¬ IsDigit base '_' := by
  rintro ⟨d, -, hd⟩
  have hnone : digitValue '_' = none := by decide
  cases hnone.symm.trans hd

theorem readDigit_isSome_iff {base : ℕ} {c : Char} {next : ℕ → Option ℕ} :
    (digitValue c >>= fun d => if d < base then next d else none).isSome ↔
      ∃ d < base, digitValue c = some d ∧ (next d).isSome := by
  cases hd : digitValue c with
  | none => simp
  | some d =>
    by_cases hlt : d < base
    · simp [hlt]
    · simp [hlt]

theorem digitsFrom_isSome_iff {base acc : ℕ} {cs : List Char} :
    (digitsFrom base acc cs).isSome ↔ DigitTail base cs := by
  induction acc, cs using digitsFrom.induct base with
  | case1 acc => exact ⟨fun _ => .nil, fun _ => rfl⟩
  | case2 acc c cs ih =>
    rw [digitsFrom, readDigit_isSome_iff]
    constructor
    · rintro ⟨d, hlt, hd, h⟩
      exact .spaced ⟨d, hlt, hd⟩ ((ih d).mp h)
    · intro h
      cases h with
      | digit hc _ => exact absurd hc (not_isDigit_underscore base)
      | spaced hc h =>
        obtain ⟨d, hlt, hd⟩ := hc
        exact ⟨d, hlt, hd, (ih d).mpr h⟩
  | case3 acc c cs hne ih =>
    rw [digitsFrom, readDigit_isSome_iff]
    · constructor
      · rintro ⟨d, hlt, hd, h⟩
        exact .digit ⟨d, hlt, hd⟩ ((ih d).mp h)
      · intro h
        cases h with
        | digit hc h =>
          obtain ⟨d, hlt, hd⟩ := hc
          exact ⟨d, hlt, hd, (ih d).mpr h⟩
        | spaced => exact (hne _ _ rfl rfl).elim
    · exact hne

theorem digits_isSome_iff {base : ℕ} {cs : List Char} : (digits base cs).isSome ↔
    Digits base cs := by
  cases cs with
  | nil =>
    refine ⟨fun h => (by cases h), ?_⟩
    rintro ⟨c, tail, h, -⟩
    cases h
  | cons c cs =>
    rw [digits, readDigit_isSome_iff]
    constructor
    · rintro ⟨d, hlt, hd, h⟩
      exact ⟨c, cs, rfl, ⟨d, hlt, hd⟩, digitsFrom_isSome_iff.mp h⟩
    · rintro ⟨_, _, ⟨⟩, ⟨d, hlt, hd⟩, htail⟩
      exact ⟨d, hlt, hd, digitsFrom_isSome_iff.mpr htail⟩

/-! ### Literals -/

def signs : List (List Char) := [[], ['+'], ['-']]

def hexMarks : List (List Char) := [[], ['0', 'x'], ['0', 'X'], ['0', 'x', '_'], ['0', 'X', '_']]

/-- A sign, for base 16 a mark, and digits, between blanks; a digit of any script stands for the
ASCII one. -/
def Literal (base : ℕ) (cs : List Char) : Prop :=
  ∃ pre sign mark body post, cs.map asciiDigit = pre ++ (sign ++ (mark ++ body)) ++ post ∧
    (∀ c ∈ pre, isBlank c = true) ∧ (∀ c ∈ post, isBlank c = true) ∧ sign ∈ signs ∧
    (mark = [] ∨ base = 16 ∧ mark ∈ hexMarks) ∧ Digits base body

theorem exists_dropHexMark (cs : List Char) : ∃ mark ∈ hexMarks, cs = mark ++ dropHexMark cs := by
  unfold dropHexMark
  split <;> simp [hexMarks]

theorem exists_sign {base : ℕ} {text : String} (h : (int text base).isSome) :
    ∃ sign ∈ signs, ∃ cs, trim isBlank (text.toList.map asciiDigit) = sign ++ cs ∧
      (digits base (if base = 16 then dropHexMark cs else cs)).isSome := by
  unfold int at h
  dsimp only at h
  split at h
  · rename_i cs hcs
    rw [Option.isSome_map] at h
    exact ⟨['-'], by simp [signs], cs, hcs, h⟩
  · rename_i cs hcs
    rw [Option.isSome_map] at h
    exact ⟨['+'], by simp [signs], cs, hcs, h⟩
  · rw [Option.isSome_map] at h
    exact ⟨[], by simp [signs], _, rfl, h⟩

theorem literal_of_int {base : ℕ} {text : String} (h : (int text base).isSome) :
    Literal base text.toList := by
  obtain ⟨sign, hsign, cs, htrim, hdigits⟩ := exists_sign h
  obtain ⟨pre, post, hcs, hpre, hpost⟩ := exists_trim isBlank (text.toList.map asciiDigit)
  rw [htrim] at hcs
  rw [digits_isSome_iff] at hdigits
  split_ifs at hdigits with hbase
  · obtain ⟨mark, hmark, hdrop⟩ := exists_dropHexMark cs
    rw [hdrop] at hcs
    exact ⟨pre, sign, mark, _, post, hcs, hpre, hpost, hsign, .inr ⟨hbase, hmark⟩, hdigits⟩
  · exact ⟨pre, sign, [], cs, post, hcs, hpre, hpost, hsign, .inl rfl, hdigits⟩

def blanks : List Char :=
  ['\t', '\n', '\x0b', '\x0c', '\r', ' ', '\u0085', '\u00a0', '\u1680', '\u2000', '\u2001',
   '\u2002', '\u2003', '\u2004', '\u2005', '\u2006', '\u2007', '\u2008', '\u2009', '\u200a',
   '\u2028', '\u2029', '\u202f', '\u205f', '\u3000']

theorem mem_blanks {c : Char} (h : isBlank c = true) : c ∈ blanks := by
  have hc : c.toNat ∈ blanks.map Char.toNat := by
    simp [isBlank, isSpace] at h
    simp [blanks]
    omega
  obtain ⟨b, hb, heq⟩ := List.mem_map.mp hc
  exact Char.toNat_inj.mp heq ▸ hb

theorem IsDigit.isBlank {base : ℕ} {c : Char} (h : IsDigit base c) : isBlank c = false := by
  refine Bool.eq_false_iff.mpr fun hblank => ?_
  obtain ⟨d, -, hd⟩ := h
  have hnone : blanks.all (fun b => digitValue b = none) = true := by decide +kernel
  have hc : digitValue c = none := by simpa using List.all_eq_true.mp hnone c (mem_blanks hblank)
  cases hc.symm.trans hd

theorem DigitTail.mem {base : ℕ} {cs : List Char} (h : DigitTail base cs) :
    ∀ c ∈ cs, c = '_' ∨ IsDigit base c := by
  induction h with
  | nil => exact fun c hc => (by cases hc)
  | digit hc _ ih => exact List.forall_mem_cons.mpr ⟨.inr hc, ih⟩
  | spaced hc _ ih =>
    exact List.forall_mem_cons.mpr ⟨.inl rfl, List.forall_mem_cons.mpr ⟨.inr hc, ih⟩⟩

theorem Digits.mem {base : ℕ} {cs : List Char} (h : Digits base cs) :
    ∀ c ∈ cs, c = '_' ∨ IsDigit base c := by
  obtain ⟨c, tail, rfl, hc, htail⟩ := h
  exact List.forall_mem_cons.mpr ⟨.inr hc, htail.mem⟩

theorem Digits.isBlank {base : ℕ} {cs : List Char} (h : Digits base cs) :
    ∀ c ∈ cs, isBlank c = false := by
  intro c hc
  rcases h.mem c hc with rfl | hdigit
  · decide
  · exact hdigit.isBlank

theorem signs_isBlank : ∀ sign ∈ signs, ∀ c ∈ sign, isBlank c = false := by
  have hall : (signs.all fun sign => sign.all fun c => !isBlank c) = true := by decide
  simpa using hall

theorem hexMarks_isBlank : ∀ mark ∈ hexMarks, ∀ c ∈ mark, isBlank c = false := by
  have hall : (hexMarks.all fun mark => mark.all fun c => !isBlank c) = true := by decide
  simpa using hall

theorem Digits.head_ne {base : ℕ} {c : Char} {cs : List Char} (h : Digits base (c :: cs)) {d : Char}
    (hd : digitValue d = none) : c ≠ d := by
  rintro rfl
  obtain ⟨_, _, ⟨⟩, ⟨n, -, hn⟩, -⟩ := h
  cases hd.symm.trans hn

theorem dropHexMark_append {mark body : List Char} (hmark : mark ∈ hexMarks)
    (hbody : Digits 16 body) :
    dropHexMark (mark ++ body) = body := by
  obtain ⟨c, tail, rfl, hc, htail⟩ := id hbody
  have hunderscore : c ≠ '_' := hbody.head_ne (by decide)
  have hx : ∀ x, x = 'x' ∨ x = 'X' → ∀ cs, tail ≠ x :: cs := by
    rintro x hx cs rfl
    cases htail with
    | digit hdigit _ =>
      obtain ⟨n, hlt, hn⟩ := hdigit
      rcases hx with rfl | rfl
      · have hvalue : digitValue 'x' = some 33 := by decide
        cases hvalue.symm.trans hn
        omega
      · have hvalue : digitValue 'X' = some 33 := by decide
        cases hvalue.symm.trans hn
        omega
    | spaced => simp at hx
  simp only [hexMarks, List.mem_cons, List.not_mem_nil, or_false] at hmark
  rcases hmark with rfl | rfl | rfl | rfl | rfl
  · unfold dropHexMark
    split <;> simp_all
  · unfold dropHexMark
    split <;> simp_all
  · unfold dropHexMark
    split <;> simp_all
  · rfl
  · rfl

theorem ne_sign_cons {base : ℕ} {mark body : List Char} (hmark : mark ∈ hexMarks)
    (hbody : Digits base body) {sign : Char} (hsign : digitValue sign = none) (cs : List Char) :
    mark ++ body ≠ sign :: cs := by
  intro heq
  have hzero : sign ≠ '0' := by
    rintro rfl
    have hvalue : digitValue '0' = some 0 := by decide
    cases hvalue.symm.trans hsign
  simp only [hexMarks, List.mem_cons, List.not_mem_nil, or_false] at hmark
  rcases hmark with rfl | rfl | rfl | rfl | rfl
  · subst heq
    exact hbody.head_ne hsign rfl
  all_goals exact hzero (List.cons.inj heq).1.symm

theorem int_of_literal {base : ℕ} {text : String} (h : Literal base text.toList) :
    (int text base).isSome := by
  obtain ⟨pre, sign, mark, body, post, hcs, hpre, hpost, hsign, hmark, hbody⟩ := h
  have hmem : mark ∈ hexMarks := by
    rcases hmark with rfl | ⟨-, hmark⟩
    · exact List.mem_cons_self
    · exact hmark
  have htrim : trim isBlank (text.toList.map asciiDigit) = sign ++ (mark ++ body) := by
    rw [hcs]
    exact trim_append hpre (List.forall_mem_append.mpr ⟨signs_isBlank _ hsign,
      List.forall_mem_append.mpr ⟨hexMarks_isBlank _ hmem, hbody.isBlank⟩⟩) hpost
  have hdigits : (digits base (if base = 16 then dropHexMark (mark ++ body) else mark ++
      body)).isSome := by
    rw [digits_isSome_iff]
    split_ifs with hbase
    · subst hbase
      rwa [dropHexMark_append hmem hbody]
    · rcases hmark with rfl | ⟨hbase', -⟩
      · exact hbody
      · exact absurd hbase' hbase
  unfold int
  extract_lets unsigned
  rw [htrim]
  simp only [signs, List.mem_cons, List.not_mem_nil, or_false] at hsign
  rcases hsign with rfl | rfl | rfl
  · split
    · exact absurd ‹_› (ne_sign_cons hmem hbody (by decide) _)
    · exact absurd ‹_› (ne_sign_cons hmem hbody (by decide) _)
    · exact Option.isSome_map.trans hdigits
  · exact Option.isSome_map.trans hdigits
  · exact Option.isSome_map.trans hdigits

/-- `int` returns on the literals and raises on every other text. -/
theorem int_isSome_iff {base : ℕ} {text : String} :
    (int text base).isSome ↔ Literal base text.toList :=
  ⟨literal_of_int, int_of_literal⟩

theorem Literal.notMem {base : ℕ} {cs : List Char} (h : Literal base cs) {c : Char}
    (hascii : asciiDigit c = c) (hblank : isBlank c = false) (hdigit : digitValue c = none)
    (hmark : c ∉ ['+', '-', '0', 'x', 'X', '_']) : c ∉ cs := by
  intro hc
  have hmem : c ∈ cs.map asciiDigit := List.mem_map.mpr ⟨c, hc, hascii⟩
  obtain ⟨pre, sign, mark, body, post, hcs, hpre, hpost, hsign, hmarks, hbody⟩ := h
  rw [hcs, List.mem_append, List.mem_append, List.mem_append, List.mem_append] at hmem
  have hnot : ∀ front ∈ signs ++ hexMarks, c ∉ front := by
    have hall : ∀ front ∈ signs ++ hexMarks, front ⊆ ['+', '-', '0', 'x', 'X', '_'] := by decide
    exact fun front hfront hin => hmark (hall front hfront hin)
  rcases hmem with (hmem | hmem | hmem | hmem) | hmem
  · cases hblank.symm.trans (hpre c hmem)
  · exact hnot sign (List.mem_append_left _ hsign) hmem
  · refine hnot mark (List.mem_append_right _ ?_) hmem
    rcases hmarks with rfl | ⟨-, hmarks⟩
    · exact List.mem_cons_self
    · exact hmarks
  · rcases hbody.mem c hmem with rfl | ⟨d, -, hd⟩
    · simp at hmark
    · cases hdigit.symm.trans hd
  · cases hblank.symm.trans (hpost c hmem)

theorem Literal.ne_nil {base : ℕ} {cs : List Char} (h : Literal base cs) : cs ≠ [] := by
  rintro rfl
  obtain ⟨pre, sign, mark, _, post, hcs, -, -, -, -, c, tail, rfl, -⟩ := h
  simp at hcs

/-! ### Plain hexadecimal digits -/

def hexDigits : List Char :=
  ['0', '1', '2', '3', '4', '5', '6', '7', '8', '9', 'a', 'b', 'c', 'd', 'e', 'f', 'A', 'B', 'C',
   'D', 'E', 'F']

def PlainHex (cs : List Char) : Prop := cs ≠ [] ∧ ∀ c ∈ cs, c ∈ hexDigits

def hexValue (cs : List Char) : ℕ := cs.foldl (fun acc c => acc * 16 + (digitValue c).getD 0) 0

theorem hexDigits_asciiDigit {c : Char} (h : c ∈ hexDigits) : asciiDigit c = c := by
  have hall : (hexDigits.all fun c => asciiDigit c = c) = true := by decide
  simpa using List.all_eq_true.mp hall c h

theorem hexDigits_digitValue {c : Char} (h : c ∈ hexDigits) : ∃ d < 16, digitValue c = some d := by
  have hall : (hexDigits.all fun c => (digitValue c).any (· < 16)) = true := by decide
  simpa [Option.any_eq_true, and_comm] using List.all_eq_true.mp hall c h

theorem hexDigits_getD {c : Char} (h : c ∈ hexDigits) : (digitValue c).getD 0 < 16 := by
  obtain ⟨d, hlt, hd⟩ := hexDigits_digitValue h
  rwa [hd, Option.getD_some]

theorem digitsFrom_plain {acc : ℕ} {cs : List Char} (h : ∀ c ∈ cs, c ∈ hexDigits) :
    digitsFrom 16 acc cs = some (cs.foldl (fun acc c => acc * 16 + (digitValue c).getD 0) acc) := by
  induction cs generalizing acc with
  | nil => rfl
  | cons c cs ih =>
    obtain ⟨hc, hcs⟩ := List.forall_mem_cons.mp h
    obtain ⟨d, hlt, hd⟩ := hexDigits_digitValue hc
    rw [digitsFrom, hd]
    · simp only [Option.bind_eq_bind, Option.bind_some, if_pos hlt, ih hcs, List.foldl_cons, hd,
        Option.getD_some]
    · rintro _ _ rfl -
      exact absurd hc (by decide)

theorem PlainHex.digits {cs : List Char} (h : PlainHex cs) : digits 16 cs = some (hexValue cs) := by
  obtain ⟨hne, hcs⟩ := h
  obtain ⟨c, cs, rfl⟩ := List.exists_cons_of_ne_nil hne
  obtain ⟨hc, hcs⟩ := List.forall_mem_cons.mp hcs
  obtain ⟨d, hlt, hd⟩ := hexDigits_digitValue hc
  rw [Python.digits, hd]
  simp only [Option.bind_eq_bind, Option.bind_some, if_pos hlt, digitsFrom_plain hcs, hexValue,
    List.foldl_cons, hd, Option.getD_some, Nat.zero_mul, Nat.zero_add]

theorem hexValue_concat (cs : List Char) (c : Char) :
    hexValue (cs ++ [c]) = hexValue cs * 16 + (digitValue c).getD 0 := by
  rw [hexValue, List.foldl_append]
  rfl

theorem hexValue_lt {cs : List Char} (h : ∀ c ∈ cs, c ∈ hexDigits) :
    hexValue cs < 16 ^ cs.length := by
  induction cs using List.reverseRecOn with
  | nil => decide
  | append_singleton cs c ih =>
    obtain ⟨hcs, hc⟩ := List.forall_mem_append.mp h
    have hlt := hexDigits_getD (hc c (List.mem_singleton_self c))
    have hle := ih hcs
    rw [hexValue_concat, List.length_append, List.length_singleton, pow_succ]
    omega

theorem PlainHex.int {cs : List Char} (h : PlainHex cs) :
    int (String.ofList cs) 16 = some (hexValue cs : ℤ) := by
  have hdigits : Digits 16 cs := digits_isSome_iff.mp (by rw [h.digits]; rfl)
  have hascii : cs.map asciiDigit = cs :=
    (List.map_congr_left fun c hc => hexDigits_asciiDigit (h.2 c hc)).trans (List.map_id cs)
  have hmark : dropHexMark cs = cs := dropHexMark_append List.mem_cons_self hdigits
  unfold Python.int
  extract_lets unsigned
  have hunsigned : unsigned cs = some (hexValue cs) := by
    change Python.digits 16 (dropHexMark cs) = _
    rw [hmark, h.digits]
  rw [String.toList_ofList, hascii, trim_eq_self hdigits.isBlank]
  split
  · exact absurd rfl (ne_sign_cons List.mem_cons_self hdigits (by decide) _)
  · exact absurd rfl (ne_sign_cons List.mem_cons_self hdigits (by decide) _)
  · rw [hunsigned, Option.map_some]

/-! ### The format code `X` -/

theorem digitChar_toUpper {d : ℕ} (h : d < 16) :
    (Nat.digitChar d).toUpper ∈ hexDigits ∧ digitValue (Nat.digitChar d).toUpper = some d := by
  have hall : ∀ d ∈ List.range 16,
      (Nat.digitChar d).toUpper ∈ hexDigits ∧ digitValue (Nat.digitChar d).toUpper = some d := by
    decide
  exact hall d (List.mem_range.mpr h)

theorem toList_hexUpper (n : ℕ) : (hexUpper n).toList = (Nat.toDigits 16 n).map Char.toUpper := by
  rw [hexUpper, String.toList_ofList]

theorem toList_hexUpper_of_lt {d : ℕ} (h : d < 16) :
    (hexUpper d).toList = [(Nat.digitChar d).toUpper] := by
  rw [toList_hexUpper, Nat.toDigits_of_lt_base h]
  rfl

theorem toList_hexUpper_concat {n d : ℕ} (hn : 0 < n) (hd : d < 16) :
    (hexUpper (16 * n + d)).toList = (hexUpper n).toList ++ [(Nat.digitChar d).toUpper] := by
  rw [toList_hexUpper, toList_hexUpper, ← Nat.toDigits_append_toDigits (by decide) hn hd,
    List.map_append, Nat.toDigits_of_lt_base hd]
  rfl

theorem hexUpper_plain (n : ℕ) : PlainHex (hexUpper n).toList := by
  induction n using Nat.base_induction 16 (by decide) with
  | single d hd =>
    rw [toList_hexUpper_of_lt hd]
    exact ⟨List.cons_ne_nil _ _, List.forall_mem_singleton.mpr (digitChar_toUpper hd).1⟩
  | digit n d hd hn ih =>
    rw [toList_hexUpper_concat hn hd]
    exact ⟨List.append_ne_nil_of_left_ne_nil ih.1 _,
      List.forall_mem_append.mpr ⟨ih.2, List.forall_mem_singleton.mpr (digitChar_toUpper hd).1⟩⟩

theorem hexValue_hexUpper (n : ℕ) : hexValue (hexUpper n).toList = n := by
  induction n using Nat.base_induction 16 (by decide) with
  | single d hd =>
    rw [toList_hexUpper_of_lt hd, hexValue, List.foldl_cons, (digitChar_toUpper hd).2]
    simp
  | digit n d hd hn ih =>
    rw [toList_hexUpper_concat hn hd, hexValue_concat, ih, (digitChar_toUpper hd).2,
      Option.getD_some, mul_comm]

theorem int_hexUpper (n : ℕ) : int (hexUpper n) 16 = some (n : ℤ) := by
  have hplain := (hexUpper_plain n).int
  rwa [String.ofList_toList, hexValue_hexUpper] at hplain

end Python
