import WalFlux.Library.Python

/-! Reading a byte buffer front to back through a cursor. A reader `Consumes` a run of
bytes when it yields its value and steps exactly over them wherever they stand. -/

structure Cursor (κ : Type) where
  buf : List UInt8
  kind : κ
  pos : ℤ

namespace Cursor

variable {κ ε α β : Type}

abbrev Reader (κ ε : Type) := StateT (Cursor κ) (Except ε)

def Consumes (k : κ) (p : Reader κ ε α) (bs : List UInt8) (a : α) : Prop :=
  ∀ pre rest : List UInt8, p ⟨pre ++ bs ++ rest, k, pre.length⟩ =
    .ok (a, ⟨pre ++ bs ++ rest, k, (pre.length : ℤ) + bs.length⟩)

theorem Consumes.pure (k : κ) (a : α) : Consumes k (pure a : Reader κ ε α) [] a := by
  intro pre rest
  simp only [List.append_nil, List.length_nil, Nat.cast_zero, add_zero]
  rfl

theorem Consumes.bind {k : κ} {p : Reader κ ε α} {f : α → Reader κ ε β} {bs cs : List UInt8}
    {a : α} {b : β} (hp : Consumes k p bs a) (hf : Consumes k (f a) cs b) :
    Consumes k (p >>= f) (bs ++ cs) b := by
  intro pre rest
  have h1 := hp pre (cs ++ rest)
  have h2 := hf (pre ++ bs) rest
  simp only [List.append_assoc, List.length_append, Nat.cast_add] at h1 h2 ⊢
  change (p _ >>= fun r => f r.1 r.2) = _
  rw [h1]
  change f a _ = _
  rw [h2, add_assoc]

theorem Consumes.bind_nil {k : κ} {p : Reader κ ε α} {f : α → Reader κ ε β} {bs : List UInt8}
    {a : α} {b : β} (hp : Consumes k p bs a) (hf : Consumes k (f a) [] b) :
    Consumes k (p >>= f) bs b := by
  have := hp.bind hf
  rwa [List.append_nil] at this

theorem Consumes.map {k : κ} {p : Reader κ ε α} {bs : List UInt8} {a : α} (f : α → β)
    (hp : Consumes k p bs a) : Consumes k (f <$> p) bs (f a) := by
  intro pre rest
  have h := hp pre rest
  change (p _ >>= fun r => Except.ok (f r.1, r.2)) = _
  rw [h]
  rfl

/-- `for _ in range(n)`, collecting what each pass returns. -/
def times (p : Reader κ ε α) : ℕ → Reader κ ε (List α)
  | 0 => Pure.pure []
  | n + 1 => do
    let a ← p
    let as ← times p n
    Pure.pure (a :: as)

theorem Consumes.times {k : κ} {p : Reader κ ε α} {e : β → List UInt8} {d : β → α}
    (xs : List β) (h : ∀ x ∈ xs, Consumes k p (e x) (d x)) :
    Consumes k (times p xs.length) (xs.flatMap e) (xs.map d) := by
  induction xs with
  | nil => exact Consumes.pure k []
  | cons x xs ih =>
    have ht := ih fun y hy => h y (List.mem_cons_of_mem _ hy)
    rw [List.length_cons, Cursor.times, List.flatMap_cons, List.map_cons]
    refine (h x List.mem_cons_self).bind ?_
    exact ht.bind_nil (Consumes.pure k _)

end Cursor
