import Mathlib.Data.List.Basic

/-! The tokens of SQL text with placeholders, as an automaton that walks the characters once, and
rules for text put together piece by piece: where a break stands between two pieces, the tokens of
the whole are those of the one and then those of the other. -/

namespace Lexer

/-- Words are keywords, plain names and numbers; `mark` is the placeholder `%s`. -/
inductive Token
  | word (text : String)
  | quoted (name : String)
  | mark
  | symbol (c : Char)
  deriving DecidableEq

def isBlank (c : Char) : Bool := c = ' ' || c = '\n' || c = '\t' || c = '\r'

def isWordChar (c : Char) : Bool := c.isAlphanum || c = '_'

/-- `closing`: behind a quote within a quoted name, which ends it or is half of a doubled one. -/
inductive Mode
  | between
  | word (cs : List Char)
  | quoted (cs : List Char)
  | closing (cs : List Char)
  | percent

def enter (c : Char) : List Token × Mode :=
  if isBlank c then ([], .between)
  else if isWordChar c then ([], .word [c])
  else if c = '"' then ([], .quoted [])
  else if c = '%' then ([], .percent)
  else ([.symbol c], .between)

def close (t : Token) (c : Char) : List Token × Mode := (t :: (enter c).1, (enter c).2)

def next : Mode → Char → List Token × Mode
  | .between, c => enter c
  | .word cs, c =>
    if isWordChar c then ([], .word (cs ++ [c])) else close (.word (String.ofList cs)) c
  | .quoted cs, c => if c = '"' then ([], .closing cs) else ([], .quoted (cs ++ [c]))
  | .closing cs, c =>
    if c = '"' then ([], .quoted (cs ++ [c])) else close (.quoted (String.ofList cs)) c
  | .percent, c => if c = 's' then ([.mark], .between) else close (.symbol '%') c

def finish : Mode → Option (List Token)
  | .between => some []
  | .word cs => some [.word (String.ofList cs)]
  | .quoted _ => none
  | .closing cs => some [.quoted (String.ofList cs)]
  | .percent => some [.symbol '%']

def scan : Mode → List Char → Option (List Token)
  | m, [] => finish m
  | m, c :: cs => (scan (next m c).2 cs).map ((next m c).1 ++ ·)

def tokens (text : String) : Option (List Token) := scan .between text.toList

/-! ### Breaks -/

/-- Ends every token but a quoted name, and opens none. -/
def isBreak (c : Char) : Bool := !isWordChar c && c ≠ '"' && c ≠ '%'

def Starts (text : String) : Prop := text.toList.head?.any isBreak = true

def Ends (text : String) : Prop := text.toList.getLast?.any isBreak = true

instance : DecidablePred Starts := fun text =>
  inferInstanceAs (Decidable (text.toList.head?.any isBreak = true))

instance : DecidablePred Ends := fun text =>
  inferInstanceAs (Decidable (text.toList.getLast?.any isBreak = true))

theorem starts_iff {text : String} :
    Starts text ↔ ∃ c cs, text.toList = c :: cs ∧ isBreak c = true := by
  rw [Starts]
  cases text.toList with
  | nil => simp
  | cons c cs => simp

theorem ends_iff {text : String} :
    Ends text ↔ ∃ cs c, text.toList = cs ++ [c] ∧ isBreak c = true := by
  rw [Ends]
  rcases List.eq_nil_or_concat text.toList with h | ⟨cs, c, h⟩
  · simp [h]
  · simp [h, List.append_singleton_inj]

theorem Ends.append {s t : String} (h : Ends t) : Ends (s ++ t) := by
  obtain ⟨cs, c, ht, hc⟩ := ends_iff.mp h
  exact ends_iff.mpr ⟨s.toList ++ cs, c, by rw [String.toList_append, ht, List.append_assoc], hc⟩

theorem enter_break {c : Char} (h : isBreak c = true) : (enter c).2 = .between := by
  simp only [isBreak, Bool.and_eq_true, Bool.not_eq_true', decide_eq_true_eq] at h
  obtain ⟨⟨hword, hquote⟩, hpercent⟩ := h
  simp only [enter, hword, hquote, hpercent]
  split <;> rfl

theorem scan_break {m : Mode} {ts : List Token} {c : Char} (hm : finish m = some ts)
    (hc : isBreak c = true) (cs : List Char) :
    scan m (c :: cs) = (scan .between (c :: cs)).map (ts ++ ·) := by
  have henter := enter_break hc
  simp only [isBreak, Bool.and_eq_true, Bool.not_eq_true', decide_eq_true_eq] at hc
  obtain ⟨⟨hword, hquote⟩, -⟩ := hc
  have hmark : c ≠ 's' := by
    rintro rfl
    cases hword
  rw [scan, scan, Option.map_map]
  cases m with
  | quoted => cases hm
  | between =>
    cases hm
    rfl
  | word | closing | percent =>
    cases hm
    simp only [next, hword, hquote, hmark, if_false, close, henter]
    rfl

theorem scan_append_of_starts {m : Mode} {cs ds : List Char} {ts : List Token} {c : Char}
    (h : scan m cs = some ts) (hc : isBreak c = true) :
    scan m (cs ++ c :: ds) = (scan .between (c :: ds)).map (ts ++ ·) := by
  induction cs generalizing m ts with
  | nil => exact scan_break h hc ds
  | cons d cs ih =>
    obtain ⟨us, hus, rfl⟩ := Option.map_eq_some_iff.mp h
    rw [List.cons_append, scan, ih hus, Option.map_map]
    congr 1
    funext vs
    exact (List.append_assoc _ _ _).symm

theorem scan_append_of_ends {m : Mode} {cs ds : List Char} {ts : List Token} {c : Char}
    (h : scan m (cs ++ [c]) = some ts) (hc : isBreak c = true) :
    scan m (cs ++ c :: ds) = (scan .between ds).map (ts ++ ·) := by
  induction cs generalizing m ts with
  | nil =>
    obtain ⟨us, hus, rfl⟩ := Option.map_eq_some_iff.mp h
    have henter := enter_break hc
    simp only [isBreak, Bool.and_eq_true, Bool.not_eq_true', decide_eq_true_eq] at hc
    obtain ⟨⟨hword, hquote⟩, -⟩ := hc
    have hmark : c ≠ 's' := by
      rintro rfl
      cases hword
    have hnext : (next m c).2 = .between := by
      cases m with
      | quoted cs =>
        rw [scan, next, if_neg hquote] at hus
        cases hus
      | between => exact henter
      | word | closing | percent =>
        simp only [next, hword, hquote, hmark, if_false, close, henter, Bool.false_eq_true]
    rw [hnext] at hus
    cases hus
    rw [List.nil_append, scan, hnext, List.append_nil]
  | cons d cs ih =>
    obtain ⟨us, hus, rfl⟩ := Option.map_eq_some_iff.mp h
    rw [List.cons_append, scan, ih hus, Option.map_map]
    congr 1
    funext vs
    exact (List.append_assoc _ _ _).symm

/-! ### Pieces of text -/

theorem tokens_append_of_starts {s t : String} {ts us : List Token} (hs : tokens s = some ts)
    (ht : tokens t = some us) (h : Starts t) : tokens (s ++ t) = some (ts ++ us) := by
  obtain ⟨c, ds, hlist, hc⟩ := starts_iff.mp h
  rw [tokens, hlist] at ht
  rw [tokens, String.toList_append, hlist, scan_append_of_starts hs hc, ht]
  rfl

theorem tokens_append_of_ends {s t : String} {ts us : List Token} (hs : tokens s = some ts)
    (ht : tokens t = some us) (h : Ends s) : tokens (s ++ t) = some (ts ++ us) := by
  obtain ⟨cs, c, hlist, hc⟩ := ends_iff.mp h
  rw [tokens, hlist] at hs
  rw [tokens, String.toList_append, hlist, List.append_assoc]
  change scan .between (cs ++ c :: t.toList) = _
  rw [scan_append_of_ends hs hc]
  change (tokens t).map _ = _
  rw [ht]
  rfl

theorem tokens_between {s mid t : String} {ts ms us : List Token} (hs : tokens s = some ts)
    (hmid : tokens mid = some ms) (ht : tokens t = some us) (hstarts : Starts mid)
    (hends : Ends mid) : tokens (s ++ mid ++ t) = some (ts ++ ms ++ us) :=
  tokens_append_of_ends (tokens_append_of_starts hs hmid hstarts) ht hends.append

theorem scan_quoted {cs name : List Char} (h : '"' ∉ name) :
    scan (.quoted cs) (name ++ ['"']) = some [.quoted (String.ofList (cs ++ name))] := by
  induction name generalizing cs with
  | nil =>
    rw [List.append_nil]
    rfl
  | cons c name ih =>
    obtain ⟨hc, hname⟩ := not_or.mp (List.mem_cons.not.mp h)
    rw [List.cons_append, scan, next, if_neg (Ne.symm hc)]
    dsimp only
    rw [ih hname, List.append_assoc]
    rfl

theorem tokens_quoted {name : String} (h : '"' ∉ name.toList) :
    tokens ("\"" ++ name ++ "\"") = some [.quoted name] := by
  have hlist : ("\"" ++ name ++ "\"").toList = '"' :: (name.toList ++ ['"']) := by
    rw [String.toList_append, String.toList_append]
    rfl
  have hquoted : scan (.quoted []) (name.toList ++ ['"']) = some [.quoted name] := by
    rw [scan_quoted h, List.nil_append, String.ofList_toList]
  rw [tokens, hlist]
  change (scan (.quoted []) (name.toList ++ ['"'])).map _ = _
  rw [hquoted]
  rfl

theorem tokens_intercalate {α : Type} {sep : String} {mid : List Token}
    (hsep : tokens sep = some mid) (hstarts : Starts sep) (hends : Ends sep) {text : α → String}
    {read : α → List Token} {xs : List α} (h : ∀ x ∈ xs, tokens (text x) = some (read x)) :
    tokens (sep.intercalate (xs.map text)) = some (mid.intercalate (xs.map read)) := by
  induction xs with
  | nil => rfl
  | cons x xs ih =>
    obtain ⟨hx, hxs⟩ := List.forall_mem_cons.mp h
    by_cases hnil : xs = []
    · subst hnil
      rw [List.map_singleton, List.map_singleton, String.intercalate_singleton,
        List.intercalate_singleton]
      exact hx
    · have htext : xs.map text ≠ [] := List.map_eq_nil_iff.not.mpr hnil
      have hread : xs.map read ≠ [] := List.map_eq_nil_iff.not.mpr hnil
      rw [List.map_cons, List.map_cons, String.intercalate_cons_of_ne_nil htext,
        List.intercalate_cons_of_ne_nil hread]
      exact tokens_between hx hsep (ih hxs) hstarts hends

/-! ### Lists -/

def words (ws : List String) : List Token := ws.map .word

def commas (xs : List (List Token)) : List Token := [.symbol ','].intercalate xs

def enclosed (xs : List (List Token)) : List Token := [.symbol '('] ++ (commas xs ++ [.symbol ')'])

/-! ### Placeholders -/

/-- How many parameters the text takes, from within a conversion or not: `%s` is filled with one,
`%%` is a percent sign, and no other conversion is known. -/
def conversionsIn : Bool → List Char → Option ℕ
  | false, [] => some 0
  | true, [] => none
  | false, c :: cs => if c = '%' then conversionsIn true cs else conversionsIn false cs
  | true, c :: cs =>
    if c = 's' then (conversionsIn false cs).map (· + 1)
    else if c = '%' then conversionsIn false cs else none

def conversions (text : String) : Option ℕ := conversionsIn false text.toList

theorem conversionsIn_append {within : Bool} {cs ds : List Char} {m n : ℕ}
    (hcs : conversionsIn within cs = some m) (hds : conversionsIn false ds = some n) :
    conversionsIn within (cs ++ ds) = some (m + n) := by
  induction cs generalizing within m with
  | nil =>
    cases within with
    | true => cases hcs
    | false =>
      cases hcs
      rw [List.nil_append, Nat.zero_add, hds]
  | cons c cs ih =>
    rw [List.cons_append]
    cases within with
    | false =>
      rw [conversionsIn] at hcs ⊢
      split_ifs at hcs ⊢ <;> exact ih hcs
    | true =>
      rw [conversionsIn] at hcs ⊢
      split_ifs at hcs ⊢
      · obtain ⟨k, hk, rfl⟩ := Option.map_eq_some_iff.mp hcs
        rw [ih hk, Option.map_some]
        congr 1
        omega
      · exact ih hcs

theorem conversions_append {s t : String} {m n : ℕ} (hs : conversions s = some m)
    (ht : conversions t = some n) : conversions (s ++ t) = some (m + n) := by
  rw [conversions, String.toList_append]
  exact conversionsIn_append hs ht

theorem conversions_eq_zero {text : String} (h : '%' ∉ text.toList) :
    conversions text = some 0 := by
  rw [conversions]
  generalize text.toList = cs at h
  induction cs with
  | nil => rfl
  | cons c cs ih =>
    obtain ⟨hc, hcs⟩ := not_or.mp (List.mem_cons.not.mp h)
    rw [conversionsIn, if_neg (Ne.symm hc)]
    exact ih hcs

theorem conversions_intercalate {α : Type} {sep : String} (hsep : conversions sep = some 0)
    {text : α → String} {n : ℕ} {xs : List α} (h : ∀ x ∈ xs, conversions (text x) = some n) :
    conversions (sep.intercalate (xs.map text)) = some (xs.length * n) := by
  induction xs with
  | nil =>
    rw [List.length_nil, Nat.zero_mul]
    rfl
  | cons x xs ih =>
    obtain ⟨hx, hxs⟩ := List.forall_mem_cons.mp h
    by_cases hnil : xs = []
    · subst hnil
      rw [List.map_singleton, String.intercalate_singleton, List.length_singleton, Nat.one_mul]
      exact hx
    · have htext : xs.map text ≠ [] := List.map_eq_nil_iff.not.mpr hnil
      have hall := conversions_append (conversions_append hx hsep) (ih hxs)
      rw [List.map_cons, String.intercalate_cons_of_ne_nil htext, hall, List.length_cons]
      rw [Nat.add_zero, Nat.succ_mul, Nat.add_comm]

end Lexer
