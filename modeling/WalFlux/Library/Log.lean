import Mathlib

/-! Logs: entries at strictly increasing positions, cut at positions. -/

namespace Log

variable {α : Type*} (pos : α → ℕ)

def Increasing (log : List α) : Prop := log.Pairwise fun a b => pos a < pos b

def upTo (log : List α) (p : ℕ) : List α := log.filter fun a => pos a ≤ p

def between (log : List α) (lo hi : ℕ) : List α := log.filter fun a => lo < pos a ∧ pos a ≤ hi

variable {pos} {log : List α} {a : α} {p lo mid hi : ℕ}

theorem between_eq_nil_of_forall (h : ∀ a ∈ log, lo < pos a → hi < pos a) :
    between pos log lo hi = [] := by
  rw [between, List.filter_eq_nil_iff]
  intro a ha hcut
  obtain ⟨hlo, hhi⟩ := of_decide_eq_true hcut
  exact absurd hhi (not_le.mpr (h a ha hlo))

theorem between_eq_nil (h : hi ≤ lo) : between pos log lo hi = [] :=
  between_eq_nil_of_forall fun _ _ hlo => h.trans_lt hlo

theorem mem_between : a ∈ between pos log lo hi ↔ a ∈ log ∧ lo < pos a ∧ pos a ≤ hi := by
  rw [between, List.mem_filter, decide_eq_true_iff]

theorem upTo_eq_nil (h : ∀ a ∈ log, p < pos a) : upTo pos log p = [] := by
  rw [upTo, List.filter_eq_nil_iff]
  intro a ha
  have hlt := h a ha
  simpa using hlt

theorem Increasing.forall_lt (h : Increasing pos (a :: log)) (ha : p < pos a) :
    ∀ b ∈ a :: log, p < pos b := by
  intro b hb
  rcases List.mem_cons.mp hb with rfl | hb
  · exact ha
  · exact ha.trans ((List.pairwise_cons.mp h).1 b hb)

theorem upTo_eq_between_append (h : Increasing pos log) (hle : lo ≤ hi) :
    upTo pos log hi = upTo pos log lo ++ between pos log lo hi := by
  induction log with
  | nil => rfl
  | cons a log ih =>
    by_cases hlo : pos a ≤ lo
    · have hhi : pos a ≤ hi := hlo.trans hle
      have ih := ih (List.pairwise_cons.mp h).2
      simp only [upTo, between] at ih ⊢
      rw [List.filter_cons_of_pos (by simpa using hhi),
        List.filter_cons_of_pos (by simpa using hlo),
        List.filter_cons_of_neg (by simp; omega), ih, List.cons_append]
    · have habove := h.forall_lt (not_le.mp hlo)
      rw [upTo_eq_nil habove, List.nil_append]
      refine List.filter_congr fun b hb => ?_
      have hb := habove b hb
      simp [hb]

theorem upTo_prefix (h : Increasing pos log) : upTo pos log p <+: log := by
  induction log with
  | nil => exact List.prefix_rfl
  | cons a log ih =>
    by_cases hp : pos a ≤ p
    · rw [upTo, List.filter_cons_of_pos (by simpa using hp)]
      exact List.cons_prefix_cons.mpr ⟨rfl, ih (List.pairwise_cons.mp h).2⟩
    · rw [upTo_eq_nil (h.forall_lt (not_le.mp hp))]
      exact List.nil_prefix

theorem between_append (h : Increasing pos log) (hlo : lo ≤ mid) (hhi : mid ≤ hi) :
    between pos log lo hi = between pos log lo mid ++ between pos log mid hi := by
  have hsplit := upTo_eq_between_append h hhi
  rw [upTo_eq_between_append h hlo, upTo_eq_between_append h (hlo.trans hhi), List.append_assoc,
    List.append_cancel_left_eq] at hsplit
  exact hsplit

theorem upTo_eq_self (h : ∀ a ∈ log, pos a ≤ p) : upTo pos log p = log :=
  List.filter_eq_self.mpr fun a ha => decide_eq_true (h a ha)

theorem between_of_find? (h : Increasing pos log) (ha : log.find? (fun a => p < pos a) = some a) :
    p < pos a ∧ a ∈ log ∧ between pos log p (pos a) = [a] := by
  obtain ⟨hp, pre, post, rfl, hpre⟩ := List.find?_eq_some_iff_append.mp ha
  have hp := of_decide_eq_true hp
  refine ⟨hp, by simp, ?_⟩
  obtain ⟨-, hpost, hlt⟩ := List.pairwise_append.mp h
  obtain ⟨hpost, -⟩ := List.pairwise_cons.mp hpost
  have hnone : between pos pre p (pos a) = [] :=
    between_eq_nil_of_forall fun b hb hlt => absurd hlt (by simpa using hpre b hb)
  have hnone' : between pos post p (pos a) = [] :=
    between_eq_nil_of_forall fun b hb _ => hpost b hb
  rw [between] at hnone hnone' ⊢
  rw [List.filter_append, hnone, List.filter_cons_of_pos (by simpa using hp), hnone']
  rfl

theorem between_next (h : Increasing pos log) (ha : log.find? (fun a => p < pos a) = some a)
    (lo : ℕ) :
    between pos log lo (pos a) = between pos log lo p ++ if lo < pos a then [a] else [] := by
  obtain ⟨hp, -, hnext⟩ := between_of_find? h ha
  split_ifs with hlo
  · by_cases hle : lo ≤ p
    · rw [between_append h hle hp.le, hnext]
    · rw [between_eq_nil (not_le.mp hle).le, List.nil_append]
      rw [between_append h (not_le.mp hle).le hlo.le] at hnext
      cases hcut : between pos log p lo with
      | nil => rwa [hcut, List.nil_append] at hnext
      | cons b cut =>
        rw [hcut, List.cons_append, List.cons.injEq] at hnext
        have hb : b ∈ between pos log p lo := hcut ▸ List.mem_cons_self
        rw [hnext.1] at hb
        exact absurd (mem_between.mp hb).2.2 (not_le.mpr hlo)
  · rw [between_eq_nil (not_lt.mp hlo), between_eq_nil (hp.le.trans (not_lt.mp hlo)),
      List.append_nil]

theorem after_cons {rest : List α} (h : Increasing pos log)
    (hafter : log.filter (fun b => p < pos b) = a :: rest) :
    log.find? (fun b => p < pos b) = some a ∧ log.filter (fun b => pos a < pos b) = rest := by
  have hmem : a ∈ log.filter fun b => p < pos b := hafter ▸ List.mem_cons_self
  have hp : p < pos a := of_decide_eq_true (List.mem_filter.mp hmem).2
  have hsorted : (a :: rest).Pairwise fun a b => pos a < pos b :=
    hafter ▸ h.sublist List.filter_sublist
  refine ⟨by rw [← List.head?_filter, hafter]; rfl, ?_⟩
  have hsub : log.filter (fun b => pos a < pos b) =
      (log.filter fun b => p < pos b).filter fun b => pos a < pos b := by
    rw [List.filter_filter]
    refine List.filter_congr fun b _ => ?_
    by_cases hb : pos a < pos b
    · simp [hb, hp.trans hb]
    · simp [hb]
  rw [hsub, hafter, List.filter_cons_of_neg (by simp)]
  refine List.filter_eq_self.mpr fun b hb => ?_
  exact decide_eq_true ((List.pairwise_cons.mp hsorted).1 b hb)

theorem upTo_concat_of_lt (h : p < pos a) : upTo pos (log ++ [a]) p = upTo pos log p := by
  rw [upTo, upTo, List.filter_append, List.filter_cons_of_neg (by simpa using h), List.filter_nil,
    List.append_nil]

theorem between_concat_of_lt (h : hi < pos a) :
    between pos (log ++ [a]) lo hi = between pos log lo hi := by
  have hneg : ¬ (lo < pos a ∧ pos a ≤ hi) := by omega
  rw [between, between, List.filter_append, List.filter_cons_of_neg (by simpa using hneg),
    List.filter_nil, List.append_nil]

theorem increasing_concat (h : Increasing pos log) (ha : ∀ b ∈ log, pos b < pos a) :
    Increasing pos (log ++ [a]) :=
  List.pairwise_append.mpr ⟨h, List.pairwise_singleton _ _, fun b hb _ hc =>
    List.mem_singleton.mp hc ▸ ha b hb⟩

theorem between_of_getLast? (h : Increasing pos log)
    (ha : (between pos log lo hi).getLast? = some a) :
    lo < pos a ∧ between pos log lo (pos a) = between pos log lo hi ∧
      between pos log (pos a) hi = [] := by
  obtain ⟨-, hlo, hhi⟩ := mem_between.mp (List.mem_of_getLast? ha)
  have hsplit := between_append h hlo.le hhi
  have hnil : between pos log (pos a) hi = [] := by
    rw [List.eq_nil_iff_forall_not_mem]
    intro b hb
    have hlast : (between pos log (pos a) hi).getLast? = some a := by
      rw [hsplit, List.getLast?_append] at ha
      cases hcut : (between pos log (pos a) hi).getLast? with
      | none =>
        rw [List.getLast?_eq_none_iff.mp hcut] at hb
        cases hb
      | some c =>
        rw [hcut, Option.some_or] at ha
        exact ha
    have := (mem_between.mp (List.mem_of_getLast? hlast)).2.1
    omega
  refine ⟨hlo, ?_, hnil⟩
  rw [hsplit, hnil, List.append_nil]

end Log
