import Mathlib

/-! Insertion-ordered dictionaries. A key is found by `==` with the stored key on the left, and
storing to a key already present keeps that key and its place. -/

namespace Python

abbrev Dict (κ α : Type*) := List (κ × α)

namespace Dict

variable {κ α β : Type*} [BEq κ]

def get? : Dict κ α → κ → Option α
  | [], _ => none
  | (k', v) :: d, k => if k' == k then some v else get? d k

def set : Dict κ α → κ → α → Dict κ α
  | [], k, v => [(k, v)]
  | (k', w) :: d, k, v => if k' == k then (k', v) :: d else (k', w) :: set d k v

def ofList (items : List (κ × α)) : Dict κ α := items.foldl (fun d p => set d p.1 p.2) []

/-- `d.setdefault(k, []).append(x)` -/
def push : Dict κ (List α) → κ → α → Dict κ (List α)
  | [], k, x => [(k, [x])]
  | (k', xs) :: d, k, x => if k' == k then (k', xs ++ [x]) :: d else (k', xs) :: push d k x

def keys (d : Dict κ α) : List κ := d.map Prod.fst

theorem get?_map (d : Dict κ α) (f : α → β) (k : κ) :
    get? (d.map fun p => (p.1, f p.2)) k = (get? d k).map f := by
  induction d with
  | nil => rfl
  | cons p d ih =>
    rw [List.map_cons, get?, get?, ih]
    split_ifs <;> rfl

theorem set_ne_nil (d : Dict κ α) (k : κ) (v : α) : set d k v ≠ [] := by
  cases d with
  | nil => exact List.cons_ne_nil _ _
  | cons p d =>
    rw [set]
    split_ifs <;> exact List.cons_ne_nil _ _

theorem set_map (d : Dict κ α) (f : α → β) (k : κ) (v : α) :
    set (d.map fun p => (p.1, f p.2)) k (f v) = (set d k v).map fun p => (p.1, f p.2) := by
  induction d with
  | nil => rfl
  | cons p d ih =>
    rw [List.map_cons, set, set, ih]
    split_ifs <;> rfl

theorem forall_mem_set {P : κ → α → Prop} {d : Dict κ α} {k : κ} {v : α}
    (hd : ∀ p ∈ d, P p.1 p.2) (hk : P k v) (hv : ∀ p ∈ d, (p.1 == k) = true → P p.1 v) :
    ∀ p ∈ set d k v, P p.1 p.2 := by
  induction d with
  | nil => simpa [set] using hk
  | cons q d ih =>
    obtain ⟨hq, hd⟩ := List.forall_mem_cons.mp hd
    obtain ⟨hvq, hv⟩ := List.forall_mem_cons.mp hv
    rw [set]
    split_ifs with hqk
    · exact List.forall_mem_cons.mpr ⟨hvq hqk, hd⟩
    · exact List.forall_mem_cons.mpr ⟨hq, ih hd hv⟩

theorem forall_mem_ofList {P : κ → α → Prop} {items : List (κ × α)} (h : ∀ p ∈ items, P p.1 p.2)
    (hbeq : ∀ k k' v, P k v → (k' == k) = true → P k' v) : ∀ p ∈ ofList items, P p.1 p.2 := by
  rw [ofList]
  induction items using List.reverseRecOn with
  | nil => exact fun p hp => (by cases hp)
  | append_singleton items q ih =>
    rw [List.forall_mem_append, List.forall_mem_singleton] at h
    rw [List.foldl_append]
    exact forall_mem_set (ih h.1) h.2 fun p _ hp => hbeq _ _ _ h.2 hp

/-! ### Reading after storing -/

section Lawful

variable [LawfulBEq κ]

theorem get?_set_self (d : Dict κ α) (k : κ) (v : α) : get? (set d k v) k = some v := by
  induction d with
  | nil => simp [set, get?]
  | cons p d ih =>
    rcases p with ⟨k', w⟩
    by_cases h : k' = k
    · simp [set, get?, h]
    · simp [set, get?, h, ih]

theorem get?_set_ne (d : Dict κ α) {k k' : κ} (v : α) (h : k ≠ k') :
    get? (set d k v) k' = get? d k' := by
  induction d with
  | nil => simp [set, get?, h]
  | cons p d ih =>
    rcases p with ⟨j, w⟩
    by_cases hj : j = k
    · simp [set, get?, hj, h]
    · rw [set, if_neg (by simpa using hj), get?, get?, ih]

theorem get?_set (d : Dict κ α) (k k' : κ) (v : α) [DecidableEq κ] :
    get? (set d k v) k' = if k = k' then some v else get? d k' := by
  split_ifs with h
  · rw [← h, get?_set_self]
  · exact get?_set_ne d v h

theorem get?_eq_some_of_mem {d : Dict κ α} (hd : (keys d).Nodup) {k : κ} {v : α}
    (h : (k, v) ∈ d) : get? d k = some v := by
  induction d with
  | nil => cases h
  | cons p d ih =>
    rcases p with ⟨j, w⟩
    rw [keys, List.map_cons, List.nodup_cons] at hd
    rcases List.mem_cons.mp h with h | h
    · cases h
      simp [get?]
    · have hj : j ≠ k := fun e => hd.1 (e ▸ List.mem_map.mpr ⟨(k, v), h, rfl⟩)
      simp [get?, hj, ih hd.2 h]

theorem mem_of_get?_eq_some {d : Dict κ α} {k : κ} {v : α} (h : get? d k = some v) :
    (k, v) ∈ d := by
  induction d with
  | nil => cases h
  | cons p d ih =>
    rcases p with ⟨j, w⟩
    by_cases hj : j = k
    · simp only [get?, hj, beq_self_eq_true, if_true, Option.some.injEq] at h
      rw [hj, h]
      exact List.mem_cons_self
    · simp only [get?, beq_iff_eq, hj, if_false] at h
      exact List.mem_cons_of_mem _ (ih h)

theorem get?_eq_none_iff {d : Dict κ α} {k : κ} : get? d k = none ↔ k ∉ keys d := by
  induction d with
  | nil => simp [get?, keys]
  | cons p d ih =>
    by_cases h : p.1 = k
    · simp [get?, keys, h]
    · rw [get?, if_neg (by simpa using h), ih, keys, keys, List.map_cons, List.mem_cons, not_or]
      exact ⟨fun hk => ⟨fun e => h e.symm, hk⟩, fun hk => hk.2⟩

theorem set_of_not_mem {d : Dict κ α} {k : κ} (h : k ∉ keys d) (v : α) :
    set d k v = d ++ [(k, v)] := by
  induction d with
  | nil => rfl
  | cons p d ih =>
    rw [keys, List.map_cons, List.mem_cons, not_or] at h
    rw [set, if_neg (by simpa using fun e => h.1 e.symm), ih h.2, List.cons_append]

theorem keys_set_of_mem {d : Dict κ α} {k : κ} (h : k ∈ keys d) (v : α) :
    keys (set d k v) = keys d := by
  induction d with
  | nil => cases h
  | cons p d ih =>
    by_cases hp : p.1 = k
    · simp [set, keys, hp]
    · have hk : k ∈ keys d := (List.mem_cons.mp h).resolve_left fun e => hp e.symm
      have := ih hk
      rw [set, if_neg (by simpa using hp), keys, List.map_cons, ← keys, this, keys, keys,
        List.map_cons]

theorem nodup_keys_set {d : Dict κ α} (h : (keys d).Nodup) (k : κ) (v : α) :
    (keys (set d k v)).Nodup := by
  by_cases hk : k ∈ keys d
  · rwa [keys_set_of_mem hk]
  · rw [set_of_not_mem hk, keys, List.map_append, ← keys]
    refine List.nodup_append.mpr ⟨h, List.nodup_singleton k, fun a ha b hb hab => hk ?_⟩
    rwa [← show b = k from List.mem_singleton.mp hb, ← hab]

theorem nodup_keys_ofList (items : List (κ × α)) : (keys (ofList items)).Nodup := by
  rw [ofList]
  induction items using List.reverseRecOn with
  | nil => exact List.nodup_nil
  | append_singleton items q ih =>
    rw [List.foldl_append]
    exact nodup_keys_set ih _ _

theorem ofList_eq {items : List (κ × α)} (h : (items.map Prod.fst).Nodup) :
    ofList items = items := by
  suffices ∀ d : Dict κ α, (keys d ++ items.map Prod.fst).Nodup →
      items.foldl (fun d p => set d p.1 p.2) d = d ++ items from this [] (by simpa [keys] using h)
  clear h
  induction items with
  | nil => simp
  | cons p items ih =>
    intro d hd
    have hp : p.1 ∉ keys d := by
      intro hmem
      exact (List.nodup_append.mp hd).2.2 _ hmem _ List.mem_cons_self rfl
    rw [List.foldl_cons, set_of_not_mem hp, ih]
    · simp
    · simpa [keys, List.append_assoc] using hd

end Lawful

/-! ### Two dictionaries in step -/

def Match (R : α → β → Prop) (d : Dict κ α) (e : Dict κ β) : Prop :=
  List.Forall₂ (fun p q => p.1 = q.1 ∧ R p.2 q.2) d e

variable {R : α → β → Prop} {d : Dict κ α} {e : Dict κ β}

theorem Match.set (h : Match R d e) (k : κ) {v : α} {w : β} (hv : R v w) :
    Match R (set d k v) (set e k w) := by
  induction h with
  | nil => exact .cons ⟨rfl, hv⟩ .nil
  | cons hpq h ih =>
    rename_i p q d e
    rcases p with ⟨j, v'⟩
    rcases q with ⟨j', w'⟩
    obtain ⟨rfl, hR⟩ := hpq
    by_cases hj : (j == k) = true
    · rw [Dict.set, Dict.set, if_pos hj, if_pos hj]
      exact .cons ⟨rfl, hv⟩ h
    · rw [Dict.set, Dict.set, if_neg hj, if_neg hj]
      exact .cons ⟨rfl, hR⟩ ih

theorem Match.of_set {S : α → β → Prop} (h : Match S d e) (k : κ) {v : α} {w : β}
    (hR : Match R (Dict.set d k v) (Dict.set e k w)) : R v w := by
  induction h with
  | nil =>
    cases hR with
    | cons hvw _ => exact hvw.2
  | cons hpq h ih =>
    rename_i p q d e
    rcases p with ⟨j, v'⟩
    rcases q with ⟨j', w'⟩
    obtain ⟨rfl, -⟩ := hpq
    by_cases hj : (j == k) = true
    · rw [Dict.set, Dict.set, if_pos hj, if_pos hj] at hR
      cases hR with
      | cons hvw _ => exact hvw.2
    · rw [Dict.set, Dict.set, if_neg hj, if_neg hj] at hR
      cases hR with
      | cons _ hR => exact ih hR

theorem Match.getD (h : Match R d e) (k : κ) {v : α} {w : β} (hv : R v w) :
    R ((get? d k).getD v) ((get? e k).getD w) := by
  induction h with
  | nil => exact hv
  | cons hpq h ih =>
    rename_i p q d e
    rcases p with ⟨j, v'⟩
    rcases q with ⟨j', w'⟩
    obtain ⟨rfl, hR⟩ := hpq
    by_cases hj : (j == k) = true
    · rw [get?, get?, if_pos hj, if_pos hj]
      exact hR
    · rw [get?, get?, if_neg hj, if_neg hj]
      exact ih

section Rekeyed

variable {κ' : Type*} [BEq κ'] {S : κ → κ' → Prop} {e' : Dict κ' β} {k : κ} {k' : κ'}

def Rekeyed (S : κ → κ' → Prop) (R : α → β → Prop) (d : Dict κ α) (e : Dict κ' β) : Prop :=
  List.Forall₂ (fun p q => S p.1 q.1 ∧ R p.2 q.2) d e

theorem Rekeyed.get? {e' : Dict κ' α} (h : Rekeyed S Eq d e')
    (hk : ∀ j j', S j j' → (j == k) = (j' == k')) : get? d k = get? e' k' := by
  induction h with
  | nil => rfl
  | cons hpq h ih =>
    rename_i p q d e
    rcases p with ⟨j, v⟩
    rcases q with ⟨j', v'⟩
    obtain ⟨hS, rfl⟩ := hpq
    rw [Dict.get?, Dict.get?, hk j j' hS, ih]

omit [BEq κ] [BEq κ'] in
theorem Rekeyed.mono {S' : κ → κ' → Prop} (h : Rekeyed S R d e') (hS : ∀ j j', S j j' → S' j j') :
    Rekeyed S' R d e' := h.imp fun _ _ hp => ⟨hS _ _ hp.1, hp.2⟩

theorem Rekeyed.set {S' : κ → κ' → Prop} (h : Rekeyed S R d e')
    (hk : ∀ j j', S j j' → (j == k) = (j' == k')) (hS : ∀ j j', S j j' → S' j j') (hkk : S' k k')
    {v : α} {w : β} (hv : R v w) : Rekeyed S' R (set d k v) (set e' k' w) := by
  induction h with
  | nil => exact .cons ⟨hkk, hv⟩ .nil
  | cons hpq h ih =>
    rename_i p q d e
    rcases p with ⟨j, v'⟩
    rcases q with ⟨j', w'⟩
    obtain ⟨hj, hR⟩ := hpq
    rw [Dict.set, Dict.set, hk j j' hj]
    split_ifs
    · exact .cons ⟨hS j j' hj, hv⟩ (Rekeyed.mono h hS)
    · exact .cons ⟨hS j j' hj, hR⟩ ih

end Rekeyed

/-! ### Lists gathered under keys -/

theorem push_eq_set (d : Dict κ (List α)) (k : κ) (x : α) :
    push d k x = set d k ((get? d k).getD [] ++ [x]) := by
  induction d with
  | nil => rfl
  | cons p d ih =>
    rcases p with ⟨j, xs⟩
    by_cases hj : (j == k) = true
    · rw [push, get?, set, if_pos hj, if_pos hj, if_pos hj, Option.getD_some]
    · rw [push, get?, set, if_neg hj, if_neg hj, if_neg hj, ih]

theorem get?_push [LawfulBEq κ] [DecidableEq κ] (d : Dict κ (List α)) (k k' : κ) (x : α) :
    (get? (push d k x) k').getD [] = (get? d k').getD [] ++ if k = k' then [x] else [] := by
  rw [push_eq_set, get?_set]
  split_ifs with h
  · rw [h, Option.getD_some]
  · rw [List.append_nil]

theorem get?_foldl_push [LawfulBEq κ] [DecidableEq κ] (key : α → κ) (items : List α) (k : κ) :
    (get? (items.foldl (fun d x => push d (key x) x) []) k).getD [] =
      items.filter fun x => key x = k := by
  induction items using List.reverseRecOn with
  | nil => rfl
  | append_singleton items x ih =>
    rw [List.foldl_append, List.foldl_cons, List.foldl_nil, get?_push, ih, List.filter_append]
    by_cases h : key x = k <;> simp [h]

theorem forall_mem_push {P : κ → α → Prop} {d : Dict κ (List α)} {k : κ} {x : α}
    (hd : ∀ p ∈ d, ∀ y ∈ p.2, P p.1 y) (hk : P k x)
    (hx : ∀ p ∈ d, (p.1 == k) = true → P p.1 x) : ∀ p ∈ push d k x, ∀ y ∈ p.2, P p.1 y := by
  induction d with
  | nil => simpa [push] using hk
  | cons q d ih =>
    rcases q with ⟨j, xs⟩
    obtain ⟨hj, hd⟩ := List.forall_mem_cons.mp hd
    obtain ⟨hxj, hx⟩ := List.forall_mem_cons.mp hx
    by_cases hjk : (j == k) = true
    · rw [push, if_pos hjk]
      refine List.forall_mem_cons.mpr ⟨fun y hy => ?_, hd⟩
      rcases List.mem_append.mp hy with hy | hy
      · exact hj y hy
      · exact List.mem_singleton.mp hy ▸ hxj hjk
    · rw [push, if_neg hjk]
      exact List.forall_mem_cons.mpr ⟨hj, ih hd hx⟩

theorem forall_key_push {P : κ → Prop} {d : Dict κ (List α)} {k : κ} (x : α)
    (hd : ∀ p ∈ d, P p.1) (hk : P k) : ∀ p ∈ push d k x, P p.1 := by
  induction d with
  | nil => simpa [push] using hk
  | cons q d ih =>
    rcases q with ⟨j, xs⟩
    obtain ⟨hj, hd⟩ := List.forall_mem_cons.mp hd
    rw [push]
    split_ifs
    · exact List.forall_mem_cons.mpr ⟨hj, hd⟩
    · exact List.forall_mem_cons.mpr ⟨hj, ih hd⟩

theorem sum_push {M : Type*} [AddCommMonoid M] (f : α → M) (d : Dict κ (List α)) (k : κ) (x : α) :
    ((push d k x).map fun p => (p.2.map f).sum).sum =
      (d.map fun p => (p.2.map f).sum).sum + f x := by
  induction d with
  | nil => simp [push]
  | cons q d ih =>
    rcases q with ⟨j, xs⟩
    by_cases hj : (j == k) = true
    · rw [push, if_pos hj]
      simp only [List.map_cons, List.sum_cons, List.map_append, List.sum_append, List.map_nil,
        List.sum_nil, add_zero]
      exact add_right_comm _ _ _
    · rw [push, if_neg hj, List.map_cons, List.sum_cons, ih, List.map_cons,
        List.sum_cons, add_assoc]

end Dict

end Python
