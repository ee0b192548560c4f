import WalFlux.Library.Scan

/-! Readers that return only what the bytes they pass encode. The scan beside the reader lists the
runs the cursor passes and the fields it is steered by; while those fields are good, the runs follow
on each other and hold an encoding of the value. -/

namespace Cursor

inductive Passed (φ : Type)
  | run (src dst : ℤ)
  | field (f : φ)
  deriving DecidableEq

def Path {φ : Type} : List (Passed φ) → ℤ → ℤ → Prop
  | [], i, j => i = j
  | .run src dst :: ps, i, j => src = i ∧ i ≤ dst ∧ Path ps dst j
  | .field _ :: ps, i, j => Path ps i j

theorem Path.append {φ : Type} {ps qs : List (Passed φ)} {i j k : ℤ} (hp : Path ps i j)
    (hq : Path qs j k) : Path (ps ++ qs) i k := by
  induction ps generalizing i with
  | nil => exact hp ▸ hq
  | cons p ps ih =>
    cases p with
    | run src dst => exact ⟨hp.1, hp.2.1, ih hp.2.2⟩
    | field f => exact ih hp

variable {κ ε φ α β γ δ : Type} {good : φ → Prop}

def Passed.Good (good : φ → Prop) : Passed φ → Prop
  | .run _ _ => True
  | .field f => good f

/-- Wherever the reader starts, a value it returns is encoded by the bytes between its two cursors,
and the scan has walked over just these. -/
def Accepts (good : φ → Prop) (p : Reader κ ε α) (s : Scan (Passed φ) γ) (g : α → γ)
    (enc : α → List UInt8 → Prop) : Prop :=
  ∀ pre rest k a r, p ⟨pre ++ rest, k, pre.length⟩ = .ok (a, r) →
    (∀ f ∈ (s (pre ++ rest) pre.length).1, f.Good good) →
    ∃ bs rest', rest = bs ++ rest' ∧ enc a bs ∧
      r = ⟨pre ++ rest, k, (pre.length : ℤ) + bs.length⟩ ∧
      (s (pre ++ rest) pre.length).2 = some (g a, (pre.length : ℤ) + bs.length) ∧
      Path (s (pre ++ rest) pre.length).1 pre.length ((pre.length : ℤ) + bs.length)

theorem Accepts.pure (a : α) (g : α → γ) :
    Accepts good (pure a : Reader κ ε α) (pure (g a)) g fun b bs => b = a ∧ bs = [] := by
  intro pre rest k b r h _
  cases h
  have hpos : (pre.length : ℤ) + ([] : List UInt8).length = pre.length := add_zero _
  refine ⟨[], rest, rfl, ⟨rfl, rfl⟩, ?_, ?_, ?_⟩
  · rw [hpos]
  · rw [hpos]
    rfl
  · rw [hpos]
    rfl

theorem Accepts.imp {p : Reader κ ε α} {s : Scan (Passed φ) γ} {g : α → γ}
    {enc enc' : α → List UInt8 → Prop} (h : Accepts good p s g enc)
    (himp : ∀ a bs, enc a bs → enc' a bs) : Accepts good p s g enc' := by
  intro pre rest k a r hr hgood
  obtain ⟨bs, rest', hrest, henc, hpath⟩ := h pre rest k a r hr hgood
  exact ⟨bs, rest', hrest, himp a bs henc, hpath⟩

theorem Accepts.error {p : Reader κ ε α} {s : Scan (Passed φ) γ} {g : α → γ}
    {enc : α → List UInt8 → Prop} (h : ∀ r, ∃ e, p r = .error e) : Accepts good p s g enc := by
  intro pre rest k a r hr
  obtain ⟨e, he⟩ := h ⟨pre ++ rest, k, pre.length⟩
  cases he.symm.trans hr

theorem Accepts.field {p : Reader κ ε α} {s : Scan (Passed φ) γ} {g : α → γ}
    {enc : α → List UInt8 → Prop} (f : φ) (h : good f → Accepts good p s g enc) :
    Accepts good p (Scan.field (.field f) >>= fun _ => s) g enc := by
  intro pre rest k a r hr hgood
  have hfields : (Scan.bind (Scan.field (.field f)) (fun _ => s) (pre ++ rest) pre.length).1 =
      .field f :: (s (pre ++ rest) pre.length).1 := rfl
  change ∀ x ∈ (Scan.bind (Scan.field (.field f)) (fun _ => s) (pre ++ rest) pre.length).1, _
    at hgood
  rw [hfields, List.forall_mem_cons] at hgood
  exact h hgood.1 pre rest k a r hr hgood.2

theorem Accepts.bind {p : Reader κ ε α} {s : Scan (Passed φ) γ} {g : α → γ}
    {enc : α → List UInt8 → Prop} {q : α → Reader κ ε β} {t : γ → Scan (Passed φ) δ} {h : β → δ}
    {e : α → β → List UInt8 → Prop} (hp : Accepts good p s g enc)
    (hq : ∀ a, Accepts good (q a) (t (g a)) h (e a)) :
    Accepts good (p >>= q) (s >>= t) h fun b bs =>
      ∃ a bs₁ bs₂, bs = bs₁ ++ bs₂ ∧ enc a bs₁ ∧ e a b bs₂ := by
  intro pre rest k b r hr hgood
  change (p _ >>= fun x => q x.1 x.2) = _ at hr
  change ∀ f ∈ (Scan.bind s t (pre ++ rest) pre.length).1, _ at hgood
  change ∃ bs rest', _ ∧ _ ∧ _ ∧ (Scan.bind s t (pre ++ rest) pre.length).2 = _ ∧
    Path (Scan.bind s t (pre ++ rest) pre.length).1 _ _
  cases hfirst : p ⟨pre ++ rest, k, pre.length⟩ with
  | error err =>
    rw [hfirst] at hr
    cases hr
  | ok x =>
    obtain ⟨a, r₁⟩ := x
    rw [hfirst] at hr
    have hgood₁ : ∀ f ∈ (s (pre ++ rest) pre.length).1, f.Good good := by
      intro f hf
      refine hgood f ?_
      unfold Scan.bind
      split
      · next hs =>
        rw [hs] at hf
        exact hf
      · next hs =>
        rw [hs] at hf
        exact List.mem_append_left _ hf
    obtain ⟨bs, rest₁, rfl, henc, rfl, hend, hpath⟩ := hp pre rest k a r₁ hfirst hgood₁
    -- the second reader starts where the first one stopped
    have hbind : Scan.bind s t (pre ++ (bs ++ rest₁)) pre.length =
        ((s (pre ++ (bs ++ rest₁)) pre.length).1 ++
          (t (g a) (pre ++ (bs ++ rest₁)) ((pre.length : ℤ) + bs.length)).1,
        (t (g a) (pre ++ (bs ++ rest₁)) ((pre.length : ℤ) + bs.length)).2) := by
      unfold Scan.bind
      split
      · next hs =>
        rw [hs] at hend
        cases hend
      · next hs =>
        rw [hs] at hend
        cases hend
        rw [hs]
    rw [hbind] at hgood ⊢
    have hq := hq a (pre ++ bs) rest₁ k b r
    rw [List.append_assoc, List.length_append, Nat.cast_add] at hq
    obtain ⟨bs₂, rest₂, rfl, henc₂, rfl, hend₂, hpath₂⟩ :=
      hq hr fun f hf => hgood f (List.mem_append_right _ hf)
    refine ⟨bs ++ bs₂, rest₂, (List.append_assoc ..).symm, ⟨a, bs, bs₂, rfl, henc, henc₂⟩, ?_⟩
    rw [List.length_append, Nat.cast_add, ← add_assoc]
    exact ⟨rfl, hend₂, hpath.append hpath₂⟩

theorem Scan.bind_pure {ψ : Type} (s : Scan ψ α) : (s >>= Pure.pure) = s := by
  funext buf pos
  change Scan.bind s Pure.pure buf pos = s buf pos
  unfold Scan.bind
  split
  · next hs => exact hs.symm
  · next fs a next hs =>
    rw [hs]
    exact Prod.ext (List.append_nil fs) rfl

theorem Accepts.map {p : Reader κ ε α} {s : Scan (Passed φ) γ} {g : α → γ}
    {enc : α → List UInt8 → Prop} {h : β → γ} (hp : Accepts good p s g enc) (f : α → β)
    (hf : ∀ a, h (f a) = g a) :
    Accepts good (p >>= fun a => Pure.pure (f a)) s h fun b bs => ∃ a, b = f a ∧ enc a bs := by
  rw [← Scan.bind_pure s]
  refine (hp.bind fun a => hf a ▸ Accepts.pure (f a) h).imp ?_
  rintro _ _ ⟨a, bs, _, rfl, henc, rfl, rfl⟩
  rw [List.append_nil]
  exact ⟨a, rfl, henc⟩

theorem Accepts.times {p : Reader κ ε α} {s : Scan (Passed φ) γ} {g : α → γ}
    {enc : α → List UInt8 → Prop} (hp : Accepts good p s g enc) (n : ℕ) :
    Accepts good (times p n) (Scan.times s n) (fun _ => ()) fun as bs =>
      as.length = n ∧ ∃ parts, List.Forall₂ enc as parts ∧ bs = parts.flatten := by
  induction n with
  | zero =>
    refine (Accepts.pure [] fun _ => ()).imp ?_
    rintro _ _ ⟨rfl, rfl⟩
    exact ⟨rfl, [], .nil, rfl⟩
  | succ n ih =>
    refine (hp.bind fun a => ih.map (a :: ·) fun _ => rfl).imp ?_
    rintro _ _ ⟨a, bs, _, rfl, henc, as, rfl, hlen, parts, hparts, rfl⟩
    exact ⟨congrArg (· + 1) hlen, bs :: parts, .cons henc hparts, rfl⟩

end Cursor
