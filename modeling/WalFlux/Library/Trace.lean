import Mathlib.Data.List.Induction

/-! Runs of a system that steps on labels, through states that all satisfy a condition. -/

namespace Trace

variable {σ α : Type*} {step : σ → α → Option σ} {ok ok' : σ → Prop}

/-- The labels lead from `s` to the last state, and every state entered satisfies `ok`. -/
inductive Leads (step : σ → α → Option σ) (ok : σ → Prop) (s : σ) : List α → σ → Prop
  | refl : Leads step ok s [] s
  | snoc {labels : List α} {t u : σ} {a : α} :
      Leads step ok s labels t → step t a = some u → ok u → Leads step ok s (labels ++ [a]) u

namespace Leads

variable {s t u : σ} {labels : List α}

theorem ok_last (h : Leads step ok s labels t) (hs : ok s) : ok t := by
  cases h with
  | refl => exact hs
  | snoc _ _ hok => exact hok

/-- The rule of runs, for what relates the labels so far to the state. -/
theorem induction {P : List α → σ → Prop} (h : Leads step ok s labels t) (hs : ok s) (h0 : P [] s)
    (hstep : ∀ labels t a u, ok t → P labels t → step t a = some u → ok u → P (labels ++ [a]) u) :
    P labels t := by
  induction h with
  | refl => exact h0
  | snoc hrun hnext hok ih => exact hstep _ _ _ _ (hrun.ok_last hs) ih hnext hok

theorem invariant {P : σ → Prop} (h : Leads step ok s labels t) (hs : ok s) (h0 : P s)
    (hstep : ∀ t a u, ok t → P t → step t a = some u → ok u → P u) : P t :=
  h.induction (P := fun _ t => P t) hs h0 fun _ t a u => hstep t a u

theorem mono (h : Leads step ok s labels t) (himp : ∀ u, ok u → ok' u) :
    Leads step ok' s labels t := by
  induction h with
  | refl => exact .refl
  | snoc _ hnext hok ih => exact .snoc ih hnext (himp _ hok)

/-- What each label of a kind uses up of a bounded supply occurs boundedly often. -/
theorem count_add_le (p : α → Bool) (supply : σ → ℕ) {P : σ → Prop}
    (h : Leads step ok s labels t) (hs : ok s) (h0 : P s)
    (hstep : ∀ t a u, ok t → P t → step t a = some u → ok u →
      P u ∧ supply u + (if p a then 1 else 0) ≤ supply t) :
    labels.countP p + supply t ≤ supply s := by
  refine (h.induction (P := fun labels t => P t ∧ labels.countP p + supply t ≤ supply s) hs
    ⟨h0, by simp⟩ ?_).2
  rintro labels t a u hok ⟨hP, hle⟩ hnext hok'
  obtain ⟨hP', hless⟩ := hstep t a u hok hP hnext hok'
  refine ⟨hP', ?_⟩
  rw [List.countP_append, List.countP_singleton]
  omega

end Leads

def exec (step : σ → α → Option σ) (ok : σ → Prop) [DecidablePred ok] (s : σ) (labels : List α) :
    Option σ :=
  labels.foldlM (fun t a => (step t a).filter fun u => ok u) s

theorem leads_of_exec [DecidablePred ok] {s t : σ} {labels : List α}
    (h : exec step ok s labels = some t) : Leads step ok s labels t := by
  induction labels using List.reverseRecOn generalizing t with
  | nil =>
    cases h
    exact .refl
  | append_singleton labels a ih =>
    rw [exec, List.foldlM_append, Option.bind_eq_bind, Option.bind_eq_some_iff] at h
    obtain ⟨u, hu, h⟩ := h
    rw [List.foldlM_cons, Option.bind_eq_bind, Option.bind_eq_some_iff] at h
    obtain ⟨v, hv, h⟩ := h
    cases h
    obtain ⟨hstep, hok⟩ := Option.filter_eq_some_iff.mp hv
    exact .snoc (ih hu) hstep (of_decide_eq_true hok)

end Trace
