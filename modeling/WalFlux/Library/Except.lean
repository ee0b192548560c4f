import Mathlib

/-! Computations that return or raise: inversion of the successful runs, two runs side by side, and
lists in step. -/

namespace Except

universe u

variable {ε : Type*} {α β : Type u}

theorem bind_eq_ok {x : Except ε α} {f : α → Except ε β} {b : β} :
    (x >>= f) = .ok b ↔ ∃ a, x = .ok a ∧ f a = .ok b := by
  cases x with
  | error e => exact ⟨nofun, fun ⟨_, h, _⟩ => nomatch h⟩
  | ok a => exact ⟨fun h => ⟨a, rfl, h⟩, fun ⟨_, ha, h⟩ => by cases ha; exact h⟩

theorem map_eq_ok {x : Except ε α} {f : α → β} {b : β} :
    x.map f = .ok b ↔ ∃ a, x = .ok a ∧ f a = b := by
  cases x <;> simp [Except.map]

theorem pure_eq_ok {a b : α} : (pure a : Except ε α) = .ok b ↔ a = b := by
  exact ⟨fun h => by cases h; rfl, fun h => by cases h; rfl⟩

theorem toOption_eq_some {x : Except ε α} {a : α} : x.toOption = some a ↔ x = .ok a := by
  cases x <;> simp [Except.toOption]

theorem exists_of_isOk {x : Except ε α} (h : x.isOk = true) : ∃ a, x = .ok a := by
  cases x with
  | error e => cases h
  | ok a => exact ⟨a, rfl⟩

theorem mapM_eq_ok {f : α → Except ε β} {l : List α} {r : List β} :
    l.mapM f = .ok r ↔ List.Forall₂ (fun a b => f a = .ok b) l r := by
  induction l generalizing r with
  | nil =>
    rw [List.mapM_nil, pure_eq_ok, List.forall₂_nil_left_iff]
    exact eq_comm
  | cons a l ih =>
    rw [List.mapM_cons, bind_eq_ok, List.forall₂_cons_left_iff]
    constructor
    · rintro ⟨b, hb, h⟩
      obtain ⟨bs, hbs, h⟩ := bind_eq_ok.mp h
      exact ⟨b, bs, hb, ih.mp hbs, (pure_eq_ok.mp h).symm⟩
    · rintro ⟨b, bs, hb, hbs, rfl⟩
      exact ⟨b, hb, bind_eq_ok.mpr ⟨bs, ih.mpr hbs, rfl⟩⟩

theorem exists_mapM_eq_ok {f : α → Except ε β} {l : List α} (h : ∀ a ∈ l, ∃ b, f a = .ok b) :
    ∃ r, l.mapM f = .ok r := by
  induction l with
  | nil => exact ⟨[], rfl⟩
  | cons a l ih =>
    obtain ⟨⟨b, hb⟩, h⟩ := List.forall_mem_cons.mp h
    obtain ⟨r, hr⟩ := ih h
    rw [mapM_eq_ok] at hr
    exact ⟨b :: r, mapM_eq_ok.mpr (.cons hb hr)⟩

theorem foldlM_append_eq_ok {f : β → α → Except ε β} {b c : β} {l₁ l₂ : List α} :
    (l₁ ++ l₂).foldlM f b = .ok c ↔ ∃ d, l₁.foldlM f b = .ok d ∧ l₂.foldlM f d = .ok c := by
  rw [List.foldlM_append, bind_eq_ok]

/-- What the start has and every step keeps, a run has for the items it went through. -/
theorem foldlM_induction {P : List α → β → Prop} {f : β → α → Except ε β} {l : List α} {b c : β}
    (h : l.foldlM f b = .ok c) (h0 : P [] b)
    (hstep : ∀ pre a x y, P pre x → f x a = .ok y → P (pre ++ [a]) y) : P l c := by
  induction l using List.reverseRecOn generalizing c with
  | nil =>
    cases h
    exact h0
  | append_singleton l a ih =>
    obtain ⟨x, hx, h⟩ := foldlM_append_eq_ok.mp h
    rw [List.foldlM_cons, bind_eq_ok] at h
    obtain ⟨y, hy, h⟩ := h
    rw [List.foldlM_nil, pure_eq_ok] at h
    exact h ▸ hstep l a x y (ih hx) hy

/-- Both raise the same error, or both return related values. -/
inductive Rel {α β : Type*} (R : α → β → Prop) : Except ε α → Except ε β → Prop
  | ok {a : α} {b : β} : R a b → Rel R (.ok a) (.ok b)
  | error (e : ε) : Rel R (.error e) (.error e)

namespace Rel

variable {α' β' : Type u} {R : α → β → Prop} {S : α' → β' → Prop} {x : Except ε α} {y : Except ε β}

theorem bind {f : α → Except ε α'} {g : β → Except ε β'} (h : Rel R x y)
    (hfg : ∀ a b, R a b → Rel S (f a) (g b)) : Rel S (x >>= f) (y >>= g) := by
  cases h with
  | ok hab => exact hfg _ _ hab
  | error e => exact .error e

theorem mono {R' : α → β → Prop} (h : Rel R x y) (hR : ∀ a b, R a b → R' a b) : Rel R' x y := by
  cases h with
  | ok hab => exact .ok (hR _ _ hab)
  | error e => exact .error e

theorem map_eq {γ : Type*} {f : α → γ} {g : β → γ} (h : Rel R x y)
    (hfg : ∀ a b, R a b → f a = g b) :
    x.map f = y.map g := by
  cases h with
  | ok hab => exact congrArg Except.ok (hfg _ _ hab)
  | error e => rfl

theorem map_eq_right {f : α → β} (h : Rel R x y) (hf : ∀ a b, R a b → f a = b) : x.map f = y := by
  cases h with
  | ok hab => exact congrArg Except.ok (hf _ _ hab)
  | error e => rfl

theorem mapM {T : α' → β' → Prop} {f : α' → Except ε α} {g : β' → Except ε β} {l : List α'}
    {r : List β'} (h : List.Forall₂ T l r) (hfg : ∀ a b, T a b → Rel R (f a) (g b)) :
    Rel (List.Forall₂ R) (l.mapM f) (r.mapM g) := by
  induction h with
  | nil => exact .ok .nil
  | cons hab h ih =>
    rw [List.mapM_cons, List.mapM_cons]
    exact (hfg _ _ hab).bind fun a b hab => ih.bind fun as bs habs => .ok (.cons hab habs)

theorem foldlM {T : α' → β' → Prop} {f : α → α' → Except ε α} {g : β → β' → Except ε β}
    {l : List α'} {r : List β'} (h : List.Forall₂ T l r)
    (hstep : ∀ a b x y, R a b → T x y → Rel R (f a x) (g b y)) {a : α} {b : β} (hab : R a b) :
    Rel R (l.foldlM f a) (r.foldlM g b) := by
  induction h generalizing a b with
  | nil => exact .ok hab
  | cons hxy h ih =>
    rw [List.foldlM_cons, List.foldlM_cons]
    exact (hstep _ _ _ _ hab hxy).bind fun a b hab => ih hab

end Rel

theorem rel_refl {α : Type*} (x : Except ε α) : Rel Eq x x := by
  cases x with
  | ok a => exact .ok rfl
  | error e => exact .error e

end Except

namespace List.Forall₂

variable {α β γ : Type*} {R : α → β → Prop} {l : List α} {r : List β}

theorem map_eq_iff {f : α → γ} {g : β → γ} :
    l.map f = r.map g ↔ Forall₂ (fun a b => f a = g b) l r := by
  rw [← forall₂_eq_eq_eq, forall₂_map_left_iff, forall₂_map_right_iff]

theorem map_eq {f : α → γ} {g : β → γ} (h : Forall₂ R l r) (hfg : ∀ a b, R a b → f a = g b) :
    l.map f = r.map g :=
  map_eq_iff.mpr (h.imp hfg)

theorem exists_of_mem_left (h : Forall₂ R l r) {a : α} (ha : a ∈ l) : ∃ b ∈ r, R a b := by
  induction h with
  | nil => cases ha
  | cons hab _ ih =>
    rcases mem_cons.mp ha with rfl | ha
    · exact ⟨_, mem_cons_self, hab⟩
    · obtain ⟨b, hb, hab⟩ := ih ha
      exact ⟨b, mem_cons_of_mem _ hb, hab⟩

theorem exists_of_mem_right (h : Forall₂ R l r) {b : β} (hb : b ∈ r) : ∃ a ∈ l, R a b :=
  h.flip.exists_of_mem_left hb

theorem exists_zip_flatMap {δ : Type*} {f : α → List γ} {g : β → List δ} (h : Forall₂ R l r)
    (hlen : ∀ a b, R a b → (f a).length = (g b).length) {a : α} (ha : a ∈ l) :
    ∃ b, R a b ∧ (f a).zip (g b) ⊆ (l.flatMap f).zip (r.flatMap g) := by
  induction h with
  | nil => cases ha
  | cons hab _ ih =>
    rw [flatMap_cons, flatMap_cons, zip_append (hlen _ _ hab)]
    rcases mem_cons.mp ha with rfl | ha
    · exact ⟨_, hab, subset_append_left _ _⟩
    · obtain ⟨b, hb, hsub⟩ := ih ha
      exact ⟨b, hb, fun p hp => subset_append_right _ _ (hsub hp)⟩

end List.Forall₂

theorem List.flatMap_eq_iff {α β : Type*} {l : List α} {f g : α → List β}
    (h : ∀ a ∈ l, (f a).length = (g a).length) :
    l.flatMap f = l.flatMap g ↔ ∀ a ∈ l, f a = g a := by
  induction l with
  | nil => simp
  | cons a l ih =>
    obtain ⟨ha, hl⟩ := List.forall_mem_cons.mp h
    rw [List.flatMap_cons, List.flatMap_cons, List.forall_mem_cons, ← ih hl]
    exact ⟨fun e => List.append_inj e ha, fun e => by rw [e.1, e.2]⟩
