import ApiHeader.Proofs.ByteOrder
import ApiHeader.Settings
import Mathlib.Data.List.DropRight
import Mathlib.Data.List.Perm.Basic

/-!
# Lists of excluded tags

Which tags a command line excludes is written in lists that commas divide. A tag of the
set is what is left of a part between commas without the blanks around it, unless
nothing is left (`mem_ofLists_iff`), and this alone decides what the set is
(`eq_of_forall_mem_iff`). So it does not matter how often and in which order the lists
are given, nor whether they are joined by commas (`tag_lists_merge`).
-/

set_option autoImplicit false
set_option relaxedAutoImplicit false

namespace ApiHeader

/-! ### Blanks around a text -/

namespace Text

/-- The second text is the first without the blanks at its two ends. -/
def TrimsTo (s t : String) : Prop :=
  ∃ front back : String, s = front ++ t ++ back ∧
    (∀ c ∈ front.toList, isBlank c = true) ∧ (∀ c ∈ back.toList, isBlank c = true) ∧
    (∀ c ∈ t.toList.head?, isBlank c = false) ∧ ∀ c ∈ t.toList.getLast?, isBlank c = false

theorem toList_trim (s : String) :
    (trim s).toList = (s.toList.dropWhile isBlank).rdropWhile isBlank :=
  String.toList_ofList

theorem trimsTo_trim (s : String) : TrimsTo s (trim s) := by
  refine ⟨.ofList (s.toList.takeWhile isBlank),
    .ofList ((s.toList.dropWhile isBlank).rtakeWhile isBlank), ?_, ?_, ?_, ?_, ?_⟩
  · rw [← String.toList_inj, String.toList_append, String.toList_append, toList_trim,
      String.toList_ofList, String.toList_ofList, List.append_assoc,
      List.rdropWhile_append_rtakeWhile, List.takeWhile_append_dropWhile]
  · intro c hc
    rw [String.toList_ofList] at hc
    exact List.mem_takeWhile_imp hc
  · intro c hc
    rw [String.toList_ofList] at hc
    exact List.mem_rtakeWhile_imp hc
  · intro c hc
    rw [toList_trim] at hc
    obtain ⟨rest, hrest⟩ := List.rdropWhile_prefix isBlank (s.toList.dropWhile isBlank)
    have hhead : c ∈ (s.toList.dropWhile isBlank).head? := by
      rw [← hrest]
      exact List.mem_head?_append_of_mem_head? hc
    have hnot := List.head?_dropWhile_not isBlank s.toList
    rw [Option.mem_def.mp hhead] at hnot
    exact hnot
  · intro c hc
    rw [toList_trim] at hc
    obtain ⟨hne, rfl⟩ := List.mem_getLast?_eq_getLast hc
    exact Bool.eq_false_iff.mpr (List.rdropWhile_last_not _ _ hne)

theorem eq_trim_of_trimsTo {s t : String} (h : TrimsTo s t) : t = trim s := by
  obtain ⟨front, back, rfl, hfront, hback, hhead, hlast⟩ := h
  rw [← String.toList_inj, toList_trim, String.toList_append, String.toList_append,
    List.append_assoc, List.dropWhile_append_of_pos hfront]
  cases ht : t.toList with
  | nil =>
    rw [List.nil_append, List.dropWhile_eq_nil_iff.mpr hback, List.rdropWhile_nil]
  | cons first rest =>
    rw [ht] at hhead hlast
    have hfirst : isBlank first = false := hhead first rfl
    rw [List.cons_append, List.dropWhile_cons_of_neg (by simp [hfirst]), ← List.cons_append,
      List.rdropWhile, List.reverse_append, List.dropWhile_append_of_pos (by simpa using hback)]
    have hstay : (first :: rest).rdropWhile isBlank = first :: rest := by
      rw [List.rdropWhile_eq_self_iff]
      intro hne
      rw [hlast _ (List.getLast?_eq_some_getLast hne)]
      exact Bool.false_ne_true
    exact hstay.symm

theorem trimsTo_iff {s t : String} : TrimsTo s t ↔ t = trim s :=
  ⟨eq_trim_of_trimsTo, fun h ↦ h ▸ trimsTo_trim s⟩

end Text

namespace Exclusion

/-! ### Parts between commas -/

/-- A part of a list without a comma in it, which reaches from a comma or the start to a
comma or the end. -/
def IsPart (list part : String) : Prop :=
  ',' ∉ part.toList ∧ ∃ before after : String, list = before ++ part ++ after ∧
    (before = "" ∨ ∃ front : String, before = front ++ ",") ∧
    (after = "" ∨ ∃ back : String, after = "," ++ back)

theorem splitCommas_of_notMem {list : String} (h : ',' ∉ list.toList) :
    splitCommas list = [list] := by
  have hnone : ∀ c ∈ list.toList, decide (c = ',') = false := fun c hc ↦
    decide_eq_false fun heq ↦ h (heq ▸ hc)
  rw [splitCommas, List.splitOnP_eq_singleton hnone, List.map_singleton, String.ofList_toList]

/-- A comma between two lists divides them. -/
theorem splitCommas_append_comma (first second : String) :
    splitCommas (first ++ "," ++ second) = splitCommas first ++ splitCommas second := by
  have hchars : (first ++ "," ++ second).toList = first.toList ++ ',' :: second.toList := by
    simp
  have hseam : (first.toList ++ ',' :: second.toList).splitOnP (· = ',') =
      first.toList.splitOnP (· = ',') ++ second.toList.splitOnP (· = ',') :=
    List.splitOnP_append_cons _ _ (decide_eq_true rfl)
  rw [splitCommas, hchars, hseam, List.map_append]
  rfl

theorem isPart_of_mem_splitCommas {list part : String} (h : part ∈ splitCommas list) :
    IsPart list part := by
  -- By the length of the list: what stands before its first comma is a part, and what
  -- stands after it is a shorter list.
  induction hlength : list.toList.length using Nat.strong_induction_on generalizing list with
  | _ length ih =>
    by_cases hcomma : ',' ∈ list.toList
    · obtain ⟨front, back, hsplit, hfront⟩ := List.eq_append_cons_of_mem hcomma
      obtain rfl : list = .ofList front ++ "," ++ .ofList back := by
        rw [← String.toList_inj, hsplit]
        simp
      rw [splitCommas_append_comma, splitCommas_of_notMem (by simpa using hfront),
        List.singleton_append] at h
      rcases List.mem_cons.mp h with rfl | h
      · exact ⟨by simpa using hfront, "", "," ++ .ofList back, by simp [String.append_assoc],
          .inl rfl, .inr ⟨_, rfl⟩⟩
      · have hshorter : (String.ofList back).toList.length < length := by
          rw [← hlength, hsplit, String.toList_ofList, List.length_append, List.length_cons]
          omega
        obtain ⟨hpart, before, after, hback, hbefore, hafter⟩ := ih _ hshorter h rfl
        refine ⟨hpart, .ofList front ++ "," ++ before, after, ?_, .inr ?_, hafter⟩
        · rw [hback]
          simp only [String.append_assoc]
        · rcases hbefore with rfl | ⟨between, rfl⟩
          · exact ⟨.ofList front, by simp⟩
          · exact ⟨.ofList front ++ "," ++ between, by simp only [String.append_assoc]⟩
    · rw [splitCommas_of_notMem hcomma, List.mem_singleton] at h
      subst h
      exact ⟨hcomma, "", "", by simp, .inl rfl, .inl rfl⟩

theorem mem_splitCommas_of_isPart {list part : String} (h : IsPart list part) :
    part ∈ splitCommas list := by
  obtain ⟨hpart, before, after, rfl, hbefore, hafter⟩ := h
  have hbehind : part ∈ splitCommas (part ++ after) := by
    rcases hafter with rfl | ⟨back, rfl⟩
    · rw [String.append_empty, splitCommas_of_notMem hpart]
      exact List.mem_singleton_self part
    · rw [← String.append_assoc, splitCommas_append_comma, splitCommas_of_notMem hpart]
      exact List.mem_cons_self
  rw [String.append_assoc]
  rcases hbefore with rfl | ⟨front, rfl⟩
  · rwa [String.empty_append]
  · rw [splitCommas_append_comma]
    exact List.mem_append_right _ hbehind

theorem mem_splitCommas_iff {list part : String} : part ∈ splitCommas list ↔ IsPart list part :=
  ⟨isPart_of_mem_splitCommas, mem_splitCommas_of_isPart⟩

/-! ### The set of tags -/

/-- A set is what it has: the order of its tags leaves no choice. -/
theorem eq_of_forall_mem_iff {e f : Exclusion} (h : ∀ tag, tag ∈ e.tags ↔ tag ∈ f.tags) :
    e = f := by
  have hnodup (g : Exclusion) : g.tags.Nodup := g.sorted.imp String.ne_of_lt
  have hperm := (List.perm_ext_iff_of_nodup (hnodup e) (hnodup f)).mpr h
  have htags : e.tags = f.tags :=
    hperm.eq_of_pairwise (fun _ _ _ _ hlt hgt ↦ absurd hgt (String.lt_asymm hlt)) e.sorted f.sorted
  cases e
  cases f
  cases htags
  rfl

theorem mem_insert_iff {e : Exclusion} {part tag : Tag} :
    tag ∈ (e.insert part).tags ↔ (tag ≠ "" ∧ Text.TrimsTo part tag) ∨ tag ∈ e.tags := by
  rw [insert, Text.trimsTo_iff]
  split
  · rename_i hempty
    rw [hempty]
    simp
  · rename_i hsome
    rw [mem_place]
    refine or_congr_left ⟨fun htag ↦ ⟨?_, htag⟩, And.right⟩
    rwa [htag]

theorem mem_foldl_insert_iff {parts : List Tag} {e : Exclusion} {tag : Tag} :
    tag ∈ (parts.foldl insert e).tags ↔
      (tag ≠ "" ∧ ∃ part ∈ parts, Text.TrimsTo part tag) ∨ tag ∈ e.tags := by
  induction parts generalizing e with
  | nil => simp
  | cons part parts ih =>
    rw [List.foldl_cons, ih, mem_insert_iff, List.exists_mem_cons_iff, or_left_comm, ← or_assoc,
      ← and_or_left]

theorem mem_ofLists_iff {lists : List String} {tag : Tag} :
    tag ∈ (ofLists lists).tags ↔
      tag ≠ "" ∧ ∃ list ∈ lists, ∃ part, IsPart list part ∧ Text.TrimsTo part tag := by
  rw [ofLists, mem_foldl_insert_iff, empty, or_iff_left List.not_mem_nil]
  refine and_congr_right fun _ ↦ ?_
  simp only [List.mem_flatMap, mem_splitCommas_iff]
  constructor
  · rintro ⟨part, ⟨list, hlist, hpart⟩, htrims⟩
    exact ⟨list, hlist, part, hpart, htrims⟩
  · rintro ⟨list, hlist, part, hpart, htrims⟩
    exact ⟨part, ⟨list, hlist, hpart⟩, htrims⟩

/-- The set depends on the parts of all lists together, not on which list has them. -/
theorem ofLists_eq_of_parts {lists others : List String}
    (h : ∀ part, part ∈ lists.flatMap splitCommas ↔ part ∈ others.flatMap splitCommas) :
    ofLists lists = ofLists others := by
  refine eq_of_forall_mem_iff fun tag ↦ ?_
  rw [ofLists, ofLists, mem_foldl_insert_iff, mem_foldl_insert_iff]
  simp only [h]

theorem ofLists_eq_of_mem_iff {lists others : List String}
    (h : ∀ list, list ∈ lists ↔ list ∈ others) : ofLists lists = ofLists others :=
  ofLists_eq_of_parts fun part ↦ by simp only [List.mem_flatMap, h]

/-- The excluded tags are the parts between commas without the blanks around them, those
that are not empty. It does not matter how often and in which order the lists are given,
and two lists can be joined by a comma. The tags are in the order of their bytes. -/
theorem tag_lists_merge :
    (∀ (lists : List String) (tag : Tag), tag ∈ (ofLists lists).tags ↔
      tag ≠ "" ∧ ∃ list ∈ lists, ∃ part, IsPart list part ∧ Text.TrimsTo part tag) ∧
    (∀ lists others : List String, (∀ list, list ∈ lists ↔ list ∈ others) →
      ofLists lists = ofLists others) ∧
    (∀ (front between back : List String) (first second : String),
      ofLists (front ++ first :: between ++ second :: back) =
        ofLists (front ++ (first ++ "," ++ second) :: between ++ back)) ∧
    ∀ lists : List String,
      (ofLists lists).tags.Pairwise fun first second ↦ Text.bytes first < Text.bytes second := by
  refine ⟨fun lists tag ↦ mem_ofLists_iff, fun lists others hsame ↦ ofLists_eq_of_mem_iff hsame,
    ?_, ?_⟩
  · intro front between back first second
    refine ofLists_eq_of_parts fun part ↦ ?_
    simp only [List.flatMap_append, List.flatMap_cons, splitCommas_append_comma, List.mem_append]
    tauto
  · intro lists
    exact (ofLists lists).sorted.imp Text.bytes_lt_iff.mpr

/-- Blanks, empty parts, repeated lists and commas at the ends leave no trace. -/
theorem native_tags_merge :
    "native" ∈ (ofLists ["dawn,\u3000native ", ",,"]).tags ∧
      ofLists [",,", "dawn,\u3000native ", ",,"] = ofLists ["dawn,\u3000native ", ",,"] ∧
      (ofLists ["dawn,\u3000native ", ",,"]).tags = ["dawn", "native"] := by
  refine ⟨?_, tag_lists_merge.2.1 _ _ fun list ↦ ?_, by decide +kernel⟩
  · have hpart : IsPart "dawn,\u3000native " "\u3000native " :=
      ⟨by decide +kernel, "dawn,", "", rfl, .inr ⟨"dawn", rfl⟩, .inl rfl⟩
    have htrims : Text.TrimsTo "\u3000native " "native" :=
      Text.trimsTo_iff.mpr (by decide +kernel)
    exact (tag_lists_merge.1 _ _).mpr
      ⟨by decide +kernel, _, List.mem_cons_self, _, hpart, htrims⟩
  · simp only [List.mem_cons, List.not_mem_nil, or_false]
    tauto

end Exclusion

end ApiHeader
