import ApiHeader.Text.Casing

/-!
# What spelling keeps of a phrase

Pascal case runs the words of a phrase together. A blank between two phrases leaves no
trace in it (`pascalCase_append_blank`), and what is spelled has no blank left
(`isBlank_of_mem_pascalChars`).
-/

set_option autoImplicit false
set_option relaxedAutoImplicit false

namespace ApiHeader.Text

theorem toList_append_singleton (first second : String) (divider : Char) :
    (first ++ .singleton divider ++ second).toList =
      first.toList ++ divider :: second.toList := by
  simp

/-- Two phrases with a blank between them are spelled one after the other. -/
theorem pascalCase_append_blank {blank : Char} (hblank : isBlank blank = true)
    (first second : String) :
    pascalCase (first ++ .singleton blank ++ second) = pascalCase first ++ pascalCase second := by
  rw [pascalCase, toList_append_singleton, pascalChars_append_cons _ _ hblank,
    String.ofList_append]
  rfl

theorem pascalCase_append_space (first second : String) :
    pascalCase (first ++ " " ++ second) = pascalCase first ++ pascalCase second := by
  have hspace : isBlank ' ' = true := rfl
  exact pascalCase_append_blank hspace first second

/-! ### Blanks -/

/-- What stands in a piece of a list that is split stands in the list, and is no divider. -/
theorem mem_and_eq_false_of_mem_splitOnP {α : Type} {p : α → Bool} {as piece : List α}
    (hpiece : piece ∈ as.splitOnP p) {a : α} (ha : a ∈ piece) : a ∈ as ∧ p a = false := by
  induction as generalizing piece with
  | nil =>
    rw [List.splitOnP_nil, List.mem_singleton] at hpiece
    rw [hpiece] at ha
    cases ha
  | cons first rest ih =>
    have hrest (h : a ∈ rest ∧ p a = false) : a ∈ first :: rest ∧ p a = false :=
      ⟨List.mem_cons_of_mem first h.1, h.2⟩
    rw [List.splitOnP_cons_eq_if_modifyHead] at hpiece
    split at hpiece
    · rcases List.mem_cons.mp hpiece with rfl | hpiece
      · cases ha
      · exact hrest (ih hpiece ha)
    · rename_i hfirst
      obtain ⟨head, tail, hsplit⟩ := List.exists_cons_of_ne_nil (List.splitOnP_ne_nil p rest)
      rw [hsplit, List.modifyHead_cons] at hpiece
      rcases List.mem_cons.mp hpiece with rfl | hpiece
      · rcases List.mem_cons.mp ha with rfl | ha
        · exact ⟨List.mem_cons_self, by simpa using hfirst⟩
        · exact hrest (ih (hsplit ▸ List.mem_cons_self) ha)
      · exact hrest (ih (hsplit ▸ List.mem_cons_of_mem head hpiece) ha)

theorem mem_of_mem_words {cs word : List Char} (hword : word ∈ words cs) {c : Char}
    (hc : c ∈ word) : c ∈ cs :=
  (mem_and_eq_false_of_mem_splitOnP (List.mem_filter.mp hword).1 hc).1

theorem isBlank_of_mem_words {cs word : List Char} (hword : word ∈ words cs) {c : Char}
    (hc : c ∈ word) : isBlank c = false :=
  (mem_and_eq_false_of_mem_splitOnP (List.mem_filter.mp hword).1 hc).2

/-- A small letter has its capital 32 codes before it, and all else is left alone. -/
theorem toNat_toUpper (c : Char) : c.toUpper.toNat =
    if 97 ≤ c.toNat ∧ c.toNat ≤ 122 then c.toNat - 32 else c.toNat := by
  unfold Char.toUpper
  split
  · rename_i hsmall
    have hlow : 97 ≤ c.toNat := hsmall.1
    have hhigh : c.toNat ≤ 122 := hsmall.2
    have hshift : ('A'.val - 'a'.val).toNat = 2 ^ 32 - 32 := rfl
    rw [if_pos ⟨hlow, hhigh⟩]
    change (c.val + ('A'.val - 'a'.val)).toNat = c.toNat - 32
    rw [UInt32.toNat_add, hshift]
    change (c.toNat + (2 ^ 32 - 32)) % 2 ^ 32 = c.toNat - 32
    omega
  · rename_i hother
    exact (if_neg hother).symm

/-- Neither a small letter nor a capital one is a blank. -/
theorem isBlank_toUpper (c : Char) : isBlank c.toUpper = isBlank c := by
  have hletter {d : Char} (hlow : 65 ≤ d.toNat) (hhigh : d.toNat ≤ 122) : isBlank d = false := by
    simp [isBlank]
    omega
  have hcode := toNat_toUpper c
  split at hcode
  · rw [hletter (by omega) (by omega), hletter (by omega) (by omega)]
  · rw [Char.toNat_inj.mp hcode]

/-- Whatever is spelled in Pascal case has no blank. -/
theorem isBlank_of_mem_pascalChars {cs : List Char} {c : Char} (hc : c ∈ pascalChars cs) :
    isBlank c = false := by
  obtain ⟨word, hword, hc⟩ := List.mem_flatMap.mp hc
  cases word with
  | nil => cases hc
  | cons first rest =>
    rcases List.mem_cons.mp hc with rfl | hc
    · rw [isBlank_toUpper]
      exact isBlank_of_mem_words hword List.mem_cons_self
    · exact isBlank_of_mem_words hword (List.mem_cons_of_mem first hc)

end ApiHeader.Text
