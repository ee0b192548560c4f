import WalFlux.Library.Cursor

/-! Raw scans beside readers. A scan walks the same bytes without interpreting them and lists the
raw fields it passes; a reader `Follows` it when it fails outside its documented errors exactly
if one of those fields is unclean. -/

namespace Cursor

/-- The fields passed, and the value with the offset after it unless the layout ends early. -/
def Scan (φ α : Type) := List UInt8 → ℤ → List φ × Option (α × ℤ)

namespace Scan

variable {φ α β : Type}

def bind (s : Scan φ α) (t : α → Scan φ β) : Scan φ β := fun buf pos =>
  match s buf pos with
  | (fs, none) => (fs, none)
  | (fs, some (a, next)) => (fs ++ (t a buf next).1, (t a buf next).2)

instance : Monad (Scan φ) where
  pure a := fun _ pos => ([], some (a, pos))
  bind := bind

def stop : Scan φ α := fun _ _ => ([], none)

def field (f : φ) : Scan φ Unit := fun _ pos => ([f], some ((), pos))

def times (s : Scan φ α) : ℕ → Scan φ Unit
  | 0 => pure ()
  | n + 1 => do
    let _ ← s
    times s n

end Scan

variable {κ ε φ α β γ δ : Type} {clean : φ → Prop} {documented : ε → Prop}

structure Follows (clean : φ → Prop) (documented : ε → Prop) (p : Reader κ ε α) (s : Scan φ γ)
    (g : α → γ) : Prop where
  ends : ∀ r fs, s r.buf r.pos = (fs, none) → (∀ f ∈ fs, clean f) →
    ∃ e, p r = .error e ∧ documented e
  reads : ∀ r fs c next, s r.buf r.pos = (fs, some (c, next)) → (∀ f ∈ fs, clean f) →
    ∃ a, g a = c ∧ p r = .ok (a, { r with pos := next })
  escapes : ∀ r, ∀ f ∈ (s r.buf r.pos).1, ¬ clean f → ∃ e, p r = .error e ∧ ¬ documented e

theorem Follows.pure (a : α) (g : α → γ) :
    Follows clean documented (pure a : Reader κ ε α) (pure (g a)) g where
  ends r fs h := by cases h
  reads r fs c next h _ := by
    cases h
    exact ⟨a, rfl, rfl⟩
  escapes r f hf := by cases hf

theorem Follows.stop {p : Reader κ ε α} {g : α → γ}
    (h : ∀ r, ∃ e, p r = .error e ∧ documented e) :
    Follows clean documented p Scan.stop g where
  ends r _ _ _ := h r
  reads r fs c next hs := by cases hs
  escapes r f hf := by cases hf

theorem Follows.bind {p : Reader κ ε α} {s : Scan φ γ} {g : α → γ} {q : α → Reader κ ε β}
    {t : γ → Scan φ δ} {h : β → δ} (hp : Follows clean documented p s g)
    (hq : ∀ a, Follows clean documented (q a) (t (g a)) h) :
    Follows clean documented (p >>= q) (s >>= t) h where
  ends r fs hs hc := by
    change Scan.bind s t r.buf r.pos = _ at hs
    change ∃ e, (p r >>= fun x => q x.1 x.2) = _ ∧ _
    unfold Scan.bind at hs
    split at hs
    · next fs' hs' =>
      cases hs
      obtain ⟨e, he, hd⟩ := hp.ends r _ hs' hc
      exact ⟨e, by rw [he]; rfl, hd⟩
    · next fs' c next hs' =>
      obtain ⟨hfs, ht⟩ := Prod.mk.inj hs
      subst hfs
      obtain ⟨a, rfl, ha⟩ := hp.reads r fs' c next hs' fun f hf => hc f (List.mem_append_left _ hf)
      obtain ⟨e, he, hd⟩ := (hq a).ends { r with pos := next } _ (Prod.ext rfl ht)
        fun f hf => hc f (List.mem_append_right _ hf)
      exact ⟨e, by rw [ha]; exact he, hd⟩
  reads r fs c next hs hc := by
    change Scan.bind s t r.buf r.pos = _ at hs
    change ∃ a, _ ∧ (p r >>= fun x => q x.1 x.2) = _
    unfold Scan.bind at hs
    split at hs
    · cases hs
    · next fs' d mid hs' =>
      obtain ⟨hfs, ht⟩ := Prod.mk.inj hs
      subst hfs
      obtain ⟨a, rfl, ha⟩ := hp.reads r fs' d mid hs' fun f hf => hc f (List.mem_append_left _ hf)
      obtain ⟨b, hb, hqb⟩ := (hq a).reads { r with pos := mid } _ c next (Prod.ext rfl ht)
        fun f hf => hc f (List.mem_append_right _ hf)
      exact ⟨b, hb, by rw [ha]; exact hqb⟩
  escapes r f hf hu := by
    change f ∈ (Scan.bind s t r.buf r.pos).1 at hf
    change ∃ e, (p r >>= fun x => q x.1 x.2) = _ ∧ _
    -- the bad field may be one of the first reader, which then never comes to the second
    by_cases hfirst : ∀ f ∈ (s r.buf r.pos).1, clean f
    · unfold Scan.bind at hf
      split at hf
      · next fs' hs' => exact absurd (hfirst f (by rw [hs']; exact hf)) hu
      · next fs' c next hs' =>
        rw [hs'] at hfirst
        rcases List.mem_append.mp hf with hf | hf
        · exact absurd (hfirst f hf) hu
        · obtain ⟨a, rfl, ha⟩ := hp.reads r fs' c next hs' hfirst
          obtain ⟨e, he, hd⟩ := (hq a).escapes { r with pos := next } f hf hu
          exact ⟨e, by rw [ha]; exact he, hd⟩
    · obtain ⟨f', hf', hu'⟩ : ∃ f ∈ (s r.buf r.pos).1, ¬ clean f := by simpa using hfirst
      obtain ⟨e, he, hd⟩ := hp.escapes r f' hf' hu'
      exact ⟨e, by rw [he]; rfl, hd⟩

theorem Follows.bind_pure {p : Reader κ ε α} {s : Scan φ γ} {g : α → γ} {h : β → γ} (f : α → β)
    (hp : Follows clean documented p s g) (hf : ∀ a, h (f a) = g a) :
    Follows clean documented (p >>= fun a => Pure.pure (f a)) s h where
  ends r fs hs hc := by
    obtain ⟨e, he, hd⟩ := hp.ends r fs hs hc
    refine ⟨e, ?_, hd⟩
    change (p r >>= fun x => Except.ok (f x.1, x.2)) = _
    rw [he]
    rfl
  reads r fs c next hs hc := by
    obtain ⟨a, ha, hpa⟩ := hp.reads r fs c next hs hc
    refine ⟨f a, (hf a).trans ha, ?_⟩
    change (p r >>= fun x => Except.ok (f x.1, x.2)) = _
    rw [hpa]
    rfl
  escapes r x hx hu := by
    obtain ⟨e, he, hd⟩ := hp.escapes r x hx hu
    refine ⟨e, ?_, hd⟩
    change (p r >>= fun x => Except.ok (f x.1, x.2)) = _
    rw [he]
    rfl

theorem Follows.times {p : Reader κ ε α} {s : Scan φ γ} {g : α → γ}
    (h : Follows clean documented p s g) (n : ℕ) :
    Follows clean documented (times p n) (Scan.times s n) fun _ => () := by
  induction n with
  | zero => exact Follows.pure [] fun _ => ()
  | succ n ih => exact h.bind fun a => ih.bind_pure _ fun _ => rfl

theorem Follows.documented_iff {p : Reader κ ε α} {s : Scan φ γ} {g : α → γ}
    (h : Follows clean documented p s g) (r : Cursor κ) :
    (∀ e, p r = .error e → documented e) ↔ ∀ f ∈ (s r.buf r.pos).1, clean f := by
  constructor
  · intro hd f hf
    by_contra hu
    obtain ⟨e, he, hn⟩ := h.escapes r f hf hu
    exact hn (hd e he)
  · intro hc e he
    rcases hs : s r.buf r.pos with ⟨fs, _ | ⟨c, next⟩⟩
    · rw [hs] at hc
      obtain ⟨e', he', hd⟩ := h.ends r fs hs hc
      rw [he'] at he
      cases he
      exact hd
    · rw [hs] at hc
      obtain ⟨a, -, ha⟩ := h.reads r fs c next hs hc
      rw [ha] at he
      cases he

end Cursor
