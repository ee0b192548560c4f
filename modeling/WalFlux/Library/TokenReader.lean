import WalFlux.Library.Lexer
import Mathlib.Data.List.Basic

/-! Readers of token lists, and what they read of lists of items with commas between them. -/

namespace Lexer

abbrev Reader := StateT (List Token) Option

variable {α β γ : Type}

def Reads (p : Reader α) (ts : List Token) (a : α) : Prop := ∀ rest, p (ts ++ rest) = some (a, rest)

def whole (p : Reader α) (ts : List Token) : Option α :=
  match p ts with
  | some (a, []) => some a
  | _ => none

def expect (ts : List Token) : Reader Unit := fun us =>
  if ts <+: us then some ((), us.drop ts.length) else none

theorem Reads.pure (a : α) : Reads (pure a) [] a := fun _ => rfl

theorem Reads.bind {p : Reader α} {q : α → Reader β} {ts us : List Token} {a : α} {b : β}
    (hp : Reads p ts a) (hq : Reads (q a) us b) : Reads (p >>= q) (ts ++ us) b := by
  intro rest
  change (p (ts ++ us ++ rest)).bind (fun r => q r.1 r.2) = some (b, rest)
  rw [List.append_assoc, hp]
  exact hq rest

theorem Reads.map {p : Reader α} {ts : List Token} {a : α} (h : Reads p ts a) (f : α → β) :
    Reads (p >>= fun a => Pure.pure (f a)) ts (f a) := by
  intro rest
  change (p (ts ++ rest)).bind _ = _
  rw [h]
  rfl

theorem reads_expect (ts : List Token) : Reads (expect ts) ts () := by
  intro rest
  rw [expect, if_pos (List.prefix_append ts rest), List.drop_left]

theorem orElse_left {p q : Reader α} {ts : List Token} {r : α × List Token} (h : p ts = some r) :
    (p <|> q) ts = some r := by
  change ((p ts) <|> (q ts)) = _
  rw [h]
  rfl

theorem Reads.orElse_left {p q : Reader α} {ts : List Token} {a : α} (h : Reads p ts a) :
    Reads (p <|> q) ts a := fun rest => Lexer.orElse_left (h rest)

theorem Reads.orElse_right {p q : Reader α} {ts : List Token} {a : α}
    (hp : ∀ rest, p (ts ++ rest) = none) (hq : Reads q ts a) : Reads (p <|> q) ts a := by
  intro rest
  change ((p (ts ++ rest)) <|> (q (ts ++ rest))) = _
  rw [hp, hq]
  rfl

theorem whole_eq_some {p : Reader α} {ts : List Token} {a : α} :
    Lexer.whole p ts = some a ↔ p ts = some (a, []) := by
  rw [Lexer.whole]
  split
  · simp [*]
  · rename_i hnot
    simp only [reduceCtorEq, false_iff]
    exact fun h => hnot a h

theorem whole_orElse {p q : Reader α} {ts : List Token} (hp : p ts = none) :
    Lexer.whole (p <|> q) ts = Lexer.whole q ts := by
  have hrun : (p <|> q) ts = q ts := by
    change ((p ts) <|> (q ts)) = _
    rw [hp]
    rfl
  rw [Lexer.whole, hrun, Lexer.whole]

theorem whole_bind {p : Reader α} {q : α → Reader β} {ts us : List Token} {a : α}
    (hp : Reads p ts a) : Lexer.whole (p >>= q) (ts ++ us) = Lexer.whole (q a) us := by
  have hrun : (p >>= q) (ts ++ us) = q a us := by
    change (p (ts ++ us)).bind (fun r => q r.1 r.2) = _
    rw [hp]
    rfl
  rw [Lexer.whole, hrun, Lexer.whole]

theorem Reads.whole {p : Reader α} {ts : List Token} {a : α} (h : Reads p ts a) :
    whole p ts = some a := by
  have hnil := h []
  rw [List.append_nil] at hnil
  rw [Lexer.whole, hnil]

/-! ### Items -/

def depthAfter (t : Token) (depth : ℕ) : ℕ :=
  if t = .symbol '(' then depth + 1 else if t = .symbol ')' then depth - 1 else depth

/-- The items up to a token at which the list stops, split at the commas outside of parentheses. -/
def items (stop : Token → Bool) : ℕ → List Token → List Token → List (List Token) × List Token
  | _, item, [] => ([item], [])
  | depth, item, t :: ts =>
    if depth = 0 ∧ stop t = true then ([item], t :: ts)
    else if depth = 0 ∧ t = .symbol ',' then
      (item :: (items stop 0 [] ts).1, (items stop 0 [] ts).2)
    else items stop (depthAfter t depth) (item ++ [t]) ts

def inOne (stop : Token → Bool) : ℕ → List Token → Bool
  | depth, [] => depth = 0
  | depth, t :: ts =>
    !(depth = 0 && (stop t || t = .symbol ',')) && inOne stop (depthAfter t depth) ts

theorem items_inOne {stop : Token → Bool} {depth : ℕ} {ts : List Token}
    (h : inOne stop depth ts = true) (item rest : List Token) :
    items stop depth item (ts ++ rest) = items stop 0 (item ++ ts) rest := by
  induction ts generalizing depth item with
  | nil =>
    have hzero : depth = 0 := of_decide_eq_true h
    rw [hzero, List.nil_append, List.append_nil]
  | cons t ts ih =>
    rw [inOne, Bool.and_eq_true] at h
    obtain ⟨hhere, hlater⟩ := h
    have hstop : ¬ (depth = 0 ∧ stop t = true) := by
      rintro ⟨hzero, hstop⟩
      simp [hzero, hstop] at hhere
    have hcomma : ¬ (depth = 0 ∧ t = .symbol ',') := by
      rintro ⟨hzero, hcomma⟩
      simp [hzero, hcomma] at hhere
    rw [List.cons_append, items, if_neg hstop, if_neg hcomma, ih hlater, List.append_assoc]
    rfl

def Stops (stop : Token → Bool) (rest : List Token) : Prop :=
  rest = [] ∨ ∃ t ts, rest = t :: ts ∧ stop t = true

theorem items_stops {stop : Token → Bool} {rest : List Token} (h : Stops stop rest)
    (item : List Token) : items stop 0 item rest = ([item], rest) := by
  obtain rfl | ⟨t, ts, rfl, ht⟩ := h
  · rfl
  · rw [items, if_pos ⟨rfl, ht⟩]

theorem items_intercalate {stop : Token → Bool} {xs : List (List Token)} (hne : xs ≠ [])
    (hxs : ∀ x ∈ xs, inOne stop 0 x = true) (hcomma : stop (.symbol ',') = false)
    {rest : List Token} (hrest : Stops stop rest) :
    items stop 0 [] (commas xs ++ rest) = (xs, rest) := by
  induction xs with
  | nil => exact absurd rfl hne
  | cons x xs ih =>
    obtain ⟨hx, hxs⟩ := List.forall_mem_cons.mp hxs
    by_cases hnil : xs = []
    · rw [hnil, commas, List.intercalate_singleton, items_inOne hx, items_stops hrest]
      rfl
    · have hstop : ¬ (0 = 0 ∧ stop (.symbol ',') = true) := by simp [hcomma]
      rw [commas, List.intercalate_cons_of_ne_nil hnil, List.append_assoc, List.append_assoc,
        items_inOne hx]
      change items stop 0 _ (.symbol ',' :: (commas xs ++ rest)) = _
      rw [items, if_neg hstop, if_pos ⟨rfl, rfl⟩, ih hnil hxs]
      rfl

/-! ### Lists -/

def list (stop : Token → Bool) (p : Reader α) : Reader (List α) := fun ts =>
  ((items stop 0 [] ts).1.mapM (whole p)).map fun as => (as, (items stop 0 [] ts).2)

def listUntil (t : Token) (p : Reader α) : Reader (List α) := do
  let as ← list (· = t) p
  expect [t]
  return as

def parens (p : Reader α) : Reader (List α) := do
  expect [.symbol '(']
  listUntil (.symbol ')') p

structure ReadsItems (stop : Token → Bool) (p : Reader α) (xs : List β) (text : β → List Token)
    (value : β → α) : Prop where
  ne_nil : xs ≠ []
  reads : ∀ x ∈ xs, whole p (text x) = some (value x)
  inOne : ∀ x ∈ xs, inOne stop 0 (text x) = true

variable {p : Reader α} {xs : List β} {text : β → List Token} {value : β → α}

theorem mapM_whole (h : ∀ x ∈ xs, whole p (text x) = some (value x)) :
    (xs.map text).mapM (whole p) = some (xs.map value) := by
  induction xs with
  | nil => rfl
  | cons x xs ih =>
    obtain ⟨hx, hxs⟩ := List.forall_mem_cons.mp h
    rw [List.map_cons, List.mapM_cons, hx, ih hxs]
    rfl

theorem list_intercalate {stop : Token → Bool} (h : ReadsItems stop p xs text value)
    (hcomma : stop (.symbol ',') = false) {rest : List Token} (hrest : Stops stop rest) :
    list stop p (commas (xs.map text) ++ rest) = some (xs.map value, rest) := by
  have hitems := items_intercalate (List.map_eq_nil_iff.not.mpr h.ne_nil)
    (List.forall_mem_map.mpr h.inOne) hcomma hrest
  rw [list, hitems, mapM_whole h.reads]
  rfl

theorem whole_list (h : ReadsItems (fun _ => false) p xs text value) (f : List α → γ) :
    Lexer.whole (list (fun _ => false) p >>= fun as => Pure.pure (f as)) (commas (xs.map text)) =
      some (f (xs.map value)) := by
  have hlist := list_intercalate h rfl (.inl rfl)
  rw [List.append_nil] at hlist
  have hrun : (list (fun _ => false) p >>= fun as => Pure.pure (f as)) (commas (xs.map text)) =
      some (f (xs.map value), []) := by
    change (list (fun _ => false) p _).bind _ = _
    rw [hlist]
    rfl
  rw [Lexer.whole, hrun]

theorem Reads.listUntil {t : Token} (h : ReadsItems (· = t) p xs text value)
    (ht : t ≠ .symbol ',') :
    Reads (listUntil t p) (commas (xs.map text) ++ [t]) (xs.map value) := by
  intro rest
  have hrest : Stops (· = t) ([t] ++ rest) := .inr ⟨t, rest, rfl, decide_eq_true rfl⟩
  have hlist := list_intercalate h (decide_eq_false (Ne.symm ht)) hrest
  rw [List.append_assoc]
  change (list (· = t) p _).bind _ = _
  rw [hlist]
  change ((expect [t] ([t] ++ rest)).bind _ : Option _) = _
  rw [reads_expect]
  rfl

theorem Reads.parens (h : ReadsItems (· = .symbol ')') p xs text value) :
    Reads (parens p) (enclosed (xs.map text)) (xs.map value) :=
  (reads_expect _).bind (Reads.listUntil h (by decide))

end Lexer
