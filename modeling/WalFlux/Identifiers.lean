import WalFlux.Common

/-! The language of identifiers, and what the pattern lets through beyond it. -/

namespace WalFlux

/-- The words of `[a-z_][a-z0-9_]*`. -/
def Word (name : String) : Prop :=
  ∃ c cs, name.toList = c :: cs ∧ identStart c = true ∧ ∀ d ∈ cs, identChar d = true

def EndsInNewline (name : String) : Prop := ['\n'] <:+ name.toList

instance : DecidablePred EndsInNewline := fun name =>
  inferInstanceAs (Decidable (['\n'] <:+ name.toList))

theorem endsInNewline_append (name : String) : EndsInNewline (name ++ "\n") := by
  rw [EndsInNewline, String.toList_append]
  exact List.suffix_append _ _

theorem identChar_of_start {c : Char} (h : identStart c = true) : identChar c = true := by
  rw [identChar, h, Bool.true_or]

theorem not_identChar_newline : identChar '\n' = false := by decide

theorem identTail_cons {c : Char} {cs : List Char} (hc : identChar c = true) :
    identTail (c :: cs) = identTail cs := by
  rw [identTail, hc, Bool.true_and]
  rintro rfl -
  cases not_identChar_newline.symm.trans hc

theorem identTail_append {cs ds : List Char} (hcs : ∀ c ∈ cs, identChar c = true) :
    identTail (cs ++ ds) = identTail ds := by
  induction cs with
  | nil => rfl
  | cons c cs ih =>
    obtain ⟨hc, hcs⟩ := List.forall_mem_cons.mp hcs
    rw [List.cons_append, identTail_cons hc, ih hcs]

theorem identTail_iff {cs : List Char} : identTail cs = true ↔
    (∀ c ∈ cs, identChar c = true) ∨ ∃ ds, cs = ds ++ ['\n'] ∧ ∀ c ∈ ds, identChar c = true := by
  constructor
  · intro h
    induction cs using identTail.induct with
    | case1 => exact .inl fun c hc => by cases hc
    | case2 => exact .inr ⟨[], rfl, fun c hc => by cases hc⟩
    | case3 c cs hne ih =>
      rw [identTail, Bool.and_eq_true] at h
      · obtain ⟨hc, hcs⟩ := h
        rcases ih hcs with hcs | ⟨ds, rfl, hds⟩
        · exact .inl (List.forall_mem_cons.mpr ⟨hc, hcs⟩)
        · exact .inr ⟨c :: ds, rfl, List.forall_mem_cons.mpr ⟨hc, hds⟩⟩
      · exact hne
  · rintro (hcs | ⟨ds, rfl, hds⟩)
    · rw [← List.append_nil cs, identTail_append hcs]
      rfl
    · rw [identTail_append hds]
      rfl

theorem identRe_eq {name : String} {c : Char} {cs : List Char} (h : name.toList = c :: cs) :
    identRe name = (identStart c && identTail cs) := by
  rw [identRe, h]

theorem identRe_toList {name : String} (h : identRe name = true) :
    ∃ c cs, name.toList = c :: cs ∧ identStart c = true ∧ identTail cs = true := by
  cases hname : name.toList with
  | nil =>
    rw [identRe, hname] at h
    cases h
  | cons c cs =>
    rw [identRe_eq hname, Bool.and_eq_true] at h
    exact ⟨c, cs, rfl, h⟩

theorem Word.identRe {name : String} (h : Word name) : identRe name = true := by
  obtain ⟨c, cs, hname, hc, hcs⟩ := h
  rw [identRe_eq hname, hc, identTail_iff.mpr (.inl hcs)]
  rfl

/-- The pattern accepts the words, and the words followed by one line feed. -/
theorem identRe_iff {name : String} :
    identRe name = true ↔ Word name ∨ ∃ w, Word w ∧ name = w ++ "\n" := by
  constructor
  · intro h
    obtain ⟨c, cs, hname, hc, hcs⟩ := identRe_toList h
    rcases identTail_iff.mp hcs with hcs | ⟨ds, rfl, hds⟩
    · exact .inl ⟨c, cs, hname, hc, hcs⟩
    · refine .inr ⟨String.ofList (c :: ds), ⟨c, ds, String.toList_ofList, hc, hds⟩, ?_⟩
      refine String.toList_injective ?_
      rw [hname, String.toList_append, String.toList_ofList]
      rfl
  · rintro (h | ⟨w, ⟨c, cs, hw, hc, hcs⟩, rfl⟩)
    · exact h.identRe
    · have hname : (w ++ "\n").toList = c :: (cs ++ ['\n']) := by
        rw [String.toList_append, hw]
        rfl
      rw [identRe_eq hname, hc, identTail_iff.mpr (.inr ⟨cs, rfl, hcs⟩)]
      rfl

theorem Word.not_endsInNewline {name : String} (h : Word name) : ¬ EndsInNewline name := by
  obtain ⟨c, cs, hname, hc, hcs⟩ := h
  intro hend
  have hmem : '\n' ∈ c :: cs := hname ▸ hend.subset (List.mem_singleton_self _)
  have hall : ∀ d ∈ c :: cs, identChar d = true :=
    List.forall_mem_cons.mpr ⟨identChar_of_start hc, hcs⟩
  cases not_identChar_newline.symm.trans (hall _ hmem)

theorem word_iff {name : String} (h : identRe name = true) : Word name ↔ ¬ EndsInNewline name := by
  refine ⟨Word.not_endsInNewline, fun hend => ?_⟩
  rcases identRe_iff.mp h with hw | ⟨w, -, rfl⟩
  · exact hw
  · exact absurd (endsInNewline_append w) hend

theorem Word.append {name suffix : String} (h : Word name)
    (hsuffix : ∀ c ∈ suffix.toList, identChar c = true) : Word (name ++ suffix) := by
  obtain ⟨c, cs, hname, hc, hcs⟩ := h
  refine ⟨c, cs ++ suffix.toList, ?_, hc, List.forall_mem_append.mpr ⟨hcs, hsuffix⟩⟩
  rw [String.toList_append, hname]
  rfl

theorem identRe_append_iff {name suffix : String} (h : identRe name = true)
    (hne : suffix.toList ≠ []) (hsuffix : ∀ c ∈ suffix.toList, identChar c = true) :
    identRe (name ++ suffix) = true ↔ ¬ EndsInNewline name := by
  rw [← word_iff h]
  constructor
  · intro happ
    rcases identRe_iff.mp h with hw | ⟨w, ⟨c, cs, hw, hc, hcs⟩, rfl⟩
    · exact hw
    · have hname : (w ++ "\n" ++ suffix).toList = c :: (cs ++ '\n' :: suffix.toList) := by
        rw [String.toList_append, String.toList_append, hw, List.append_assoc]
        rfl
      rw [identRe_eq hname, hc, Bool.true_and, identTail_append hcs] at happ
      obtain ⟨d, ds, hd⟩ := List.exists_cons_of_ne_nil hne
      rw [hd, identTail, not_identChar_newline] at happ
      · cases happ
      · exact fun _ hds => by cases hds
  · exact fun hw => (hw.append hsuffix).identRe

end WalFlux
