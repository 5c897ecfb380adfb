import ApiHeader.Proofs.Casing
import ApiHeader.Proofs.Thinning
import Mathlib.Algebra.Group.Nat.Defs

/-!
# The numbers of values

A value of an enumeration has the number that it is given, or else counts on from the
last value before it that is given one, or from the start (`NumberedAt`); the count goes
on through values that are left out and starts over after `2 ^ 64`. An enumeration is
written in lines, one for each value that is kept, in order, and one that ends them;
each line tells the number of its value in hexadecimal digits
(`enumeration_text_numbered`).
-/

set_option autoImplicit false
set_option relaxedAutoImplicit false

namespace ApiHeader

namespace Text

/-! ### Hexadecimal digits -/

/-- The number that hexadecimal digits stand for, after those read before. -/
def hexValueFrom? (start : Nat) (digits : List Char) : Option Nat :=
  digits.foldlM (fun value digit ↦ (hexDigit? digit).map (16 * value + ·)) start

theorem hexValueFrom?_append (start : Nat) (first second : List Char) :
    hexValueFrom? start (first ++ second) =
      (hexValueFrom? start first).bind (hexValueFrom? · second) :=
  List.foldlM_append

theorem hexValueFrom?_singleton (start : Nat) (digit : Char) :
    hexValueFrom? start [digit] = (hexDigit? digit).map (16 * start + ·) := by
  simp [hexValueFrom?]

theorem hexDigit?_toUpper_digitChar :
    ∀ digit < 16, hexDigit? digit.digitChar.toUpper = some digit := by
  decide

theorem toUpper_digitChar_mem :
    ∀ digit < 16, digit.digitChar.toUpper ∈ "0123456789ABCDEF".toList := by
  decide

/-- The digits of a number, last one split off. -/
theorem hexLower_eq (n : Nat) : hexLower n =
    (if n < 16 then [] else hexLower (n / 16)) ++ [(n % 16).digitChar] := by
  rw [hexLower, hexLower]
  split
  · rename_i hsmall
    rw [Nat.toDigits_of_lt_base hsmall, Nat.mod_eq_of_lt hsmall, List.nil_append]
  · rename_i hlarge
    exact Nat.toDigits_of_base_le (by decide) (Nat.not_lt.mp hlarge)

theorem hexValueFrom?_map_hexLower (n : Nat) :
    hexValueFrom? 0 ((hexLower n).map Char.toUpper) = some n := by
  induction n using Nat.strong_induction_on with
  | _ n ih =>
    have hdigit := hexDigit?_toUpper_digitChar (n % 16) (Nat.mod_lt n (by decide))
    have hfront : hexValueFrom? 0
        ((if n < 16 then [] else hexLower (n / 16)).map Char.toUpper) = some (n / 16) := by
      split
      · rename_i hsmall
        rw [Nat.div_eq_of_lt hsmall]
        rfl
      · exact ih (n / 16) (by omega)
    rw [hexLower_eq, List.map_append, hexValueFrom?_append, hfront, Option.bind_some,
      List.map_singleton, hexValueFrom?_singleton, hdigit, Option.map_some, Nat.div_add_mod]

theorem mem_of_mem_map_hexLower {n : Nat} {c : Char} (hc : c ∈ (hexLower n).map Char.toUpper) :
    c ∈ "0123456789ABCDEF".toList := by
  induction n using Nat.strong_induction_on with
  | _ n ih =>
    rw [hexLower_eq, List.map_append, List.mem_append] at hc
    rcases hc with hc | hc
    · split at hc
      · cases hc
      · exact ih (n / 16) (by omega) hc
    · rw [List.map_singleton, List.mem_singleton] at hc
      exact hc ▸ toUpper_digitChar_mem (n % 16) (Nat.mod_lt n (by decide))

theorem hexValueFrom?_replicate (count : Nat) :
    hexValueFrom? 0 (List.replicate count '0') = some 0 := by
  induction count with
  | zero => rfl
  | succ count ih => exact ih

/-- Whatever is written in hexadecimal digits is read as it was. -/
theorem hexValueFrom?_hexUpper (width n : Nat) : hexValueFrom? 0 (hexUpper width n) = some n := by
  rw [hexUpper, List.leftpad, hexValueFrom?_append, hexValueFrom?_replicate, Option.bind_some,
    hexValueFrom?_map_hexLower]

theorem mem_of_mem_hexUpper {width n : Nat} {c : Char} (hc : c ∈ hexUpper width n) :
    c ∈ "0123456789ABCDEF".toList := by
  rw [hexUpper, List.leftpad, List.mem_append] at hc
  rcases hc with hc | hc
  · rw [List.eq_of_mem_replicate hc]
    decide
  · exact mem_of_mem_map_hexLower hc

theorem le_length_hexUpper (width n : Nat) : width ≤ (hexUpper width n).length := by
  rw [hexUpper, List.length_leftpad]
  exact Nat.le_max_left ..

end Text

namespace Schema

/-! ### Numbers -/

/-- The number that the value at a place is given, if there is one. -/
def given? (items : List EnumItem) (place : Nat) : Option UInt64 :=
  items[place]?.bind EnumItem.number

/-- The number of the value at a place: its own, or counted on from the last one given
before it, or counted from the start. -/
inductive NumberedAt (items : List EnumItem) (place : Nat) (number : UInt64) : Prop where
  | given (hown : given? items place = some number)
  | counted {earlier : Nat} {base : UInt64} (hearlier : earlier < place)
      (hbase : given? items earlier = some base)
      (hnone : ∀ between, earlier < between → between ≤ place → given? items between = none)
      (hnumber : number.toNat = (base.toNat + (place - earlier)) % 2 ^ 64)
  | first (hnone : ∀ between, between ≤ place → given? items between = none)
      (hnumber : number.toNat = place % 2 ^ 64)

variable {items : List EnumItem} {place : Nat} {number : UInt64}

/-- Two counts go on from the same place, the last that is given a number. -/
theorem le_of_given?_eq_none {first second : Nat} {base : UInt64} (hsecond : second < place)
    (hbase : given? items second = some base)
    (hnone : ∀ between, first < between → between ≤ place → given? items between = none) :
    second ≤ first := by
  by_contra hlater
  have habsent := hnone second (by omega) (by omega)
  rw [hbase] at habsent
  cases habsent

theorem NumberedAt.unique {other : UInt64} (hnumber : NumberedAt items place number)
    (hother : NumberedAt items place other) : number = other := by
  cases hnumber with
  | given hown =>
    cases hother with
    | given hown' => exact Option.some.inj (hown.symm.trans hown')
    | counted hearlier _ hnone _ =>
      rw [hnone place hearlier le_rfl] at hown
      cases hown
    | first hnone _ =>
      rw [hnone place le_rfl] at hown
      cases hown
  | @counted earlier base hearlier hbase hnone hcount =>
    cases hother with
    | given hown =>
      rw [hnone place hearlier le_rfl] at hown
      cases hown
    | @counted earlier' base' hearlier' hbase' hnone' hcount' =>
      obtain rfl : earlier = earlier' := Nat.le_antisymm
        (le_of_given?_eq_none hearlier hbase hnone') (le_of_given?_eq_none hearlier' hbase' hnone)
      obtain rfl : base = base' := Option.some.inj (hbase.symm.trans hbase')
      exact UInt64.toNat_inj.mp (hcount.trans hcount'.symm)
    | first hnone' _ =>
      rw [hnone' earlier hearlier.le] at hbase
      cases hbase
  | first hnone hcount =>
    cases hother with
    | given hown =>
      rw [hnone place le_rfl] at hown
      cases hown
    | counted hearlier hbase _ _ =>
      rw [hnone _ hearlier.le] at hbase
      cases hbase
    | first _ hcount' => exact UInt64.toNat_inj.mp (hcount.trans hcount'.symm)

theorem numberedAt_zero {item : EnumItem} (hitem : items[0]? = some item) :
    NumberedAt items 0 (item.number.getD 0) := by
  have hown : given? items 0 = item.number := by rw [given?, hitem, Option.bind_some]
  cases hnumber : item.number with
  | some number => exact .given (hown.trans hnumber)
  | none =>
    refine .first (fun between hbetween ↦ ?_) rfl
    rw [Nat.le_zero.mp hbetween, hown, hnumber]

/-- The next value has the number that it is given, or one more. -/
theorem NumberedAt.succ {item : EnumItem} (hnumber : NumberedAt items place number)
    (hitem : items[place + 1]? = some item) :
    NumberedAt items (place + 1) (item.number.getD (number + 1)) := by
  have hown : given? items (place + 1) = item.number := by rw [given?, hitem, Option.bind_some]
  cases hgiven : item.number with
  | some next => exact .given (hown.trans hgiven)
  | none =>
    have hcount : (number + 1).toNat = (number.toNat + 1) % 2 ^ 64 := UInt64.toNat_add number 1
    have habsent := hown.trans hgiven
    cases hnumber with
    | given hbase =>
      refine .counted (Nat.lt_succ_self place) hbase (fun between hlow hhigh ↦ ?_) ?_
      · rwa [Nat.le_antisymm hhigh hlow]
      · rw [Option.getD_none, hcount, Nat.add_sub_cancel_left]
    | @counted earlier base hearlier hbase hnone hnumber =>
      refine .counted (Nat.lt_succ_of_lt hearlier) hbase (fun between hlow hhigh ↦ ?_) ?_
      · rcases Nat.le_succ_iff.mp hhigh with hhigh | rfl
        · exact hnone between hlow hhigh
        · exact habsent
      · rw [Option.getD_none, hcount, hnumber]
        omega
    | first hnone hnumber =>
      refine .first (fun between hhigh ↦ ?_) ?_
      · rcases Nat.le_succ_iff.mp hhigh with hhigh | rfl
        · exact hnone between hhigh
        · exact habsent
      · rw [Option.getD_none, hcount, hnumber]
        omega

theorem getElem?_numberItems_zero {next : UInt64} {item : EnumItem}
    (h : (numberItems next items)[0]? = some (item, number)) :
    items[0]? = some item ∧ number = item.number.getD next := by
  cases items with
  | nil => cases h
  | cons first rest =>
    obtain ⟨rfl, rfl⟩ := Prod.mk.inj (Option.some.inj h)
    exact ⟨rfl, rfl⟩

/-- The number of a value follows from that of the value before it. -/
theorem getElem?_numberItems_succ {next : UInt64} {item : EnumItem}
    (h : (numberItems next items)[place + 1]? = some (item, number)) :
    items[place + 1]? = some item ∧ ∃ before previous,
      (numberItems next items)[place]? = some (before, previous) ∧
        number = item.number.getD (previous + 1) := by
  induction items generalizing next place with
  | nil => cases h
  | cons first rest ih =>
    rw [numberItems, List.getElem?_cons_succ] at h
    rw [List.getElem?_cons_succ]
    cases place with
    | zero =>
      obtain ⟨hitem, hnumber⟩ := getElem?_numberItems_zero h
      exact ⟨hitem, first, _, rfl, hnumber⟩
    | succ place => exact ih h

/-- Each value has its number. -/
theorem numberedAt_of_getElem? {item : EnumItem}
    (h : (numberItems 0 items)[place]? = some (item, number)) : NumberedAt items place number := by
  induction place generalizing item number with
  | zero =>
    obtain ⟨hitem, rfl⟩ := getElem?_numberItems_zero h
    exact numberedAt_zero hitem
  | succ place ih =>
    obtain ⟨hitem, before, previous, hbefore, rfl⟩ := getElem?_numberItems_succ h
    exact (ih hbefore).succ hitem

/-- The values stand in order, each with the only number it can have. -/
theorem getElem?_numberItems_eq_some_iff {item : EnumItem} :
    (numberItems 0 items)[place]? = some (item, number) ↔
      items[place]? = some item ∧ NumberedAt items place number := by
  have hfst : items[place]? = (numberItems 0 items)[place]?.map Prod.fst := by
    rw [← List.getElem?_map, map_fst_numberItems]
  constructor
  · intro h
    refine ⟨?_, numberedAt_of_getElem? h⟩
    rw [hfst, h, Option.map_some]
  · rintro ⟨hitem, hnumber⟩
    obtain ⟨⟨_, other⟩, hentry, rfl⟩ := Option.map_eq_some_iff.mp (hfst.symm.trans hitem)
    rw [hentry, hnumber.unique (numberedAt_of_getElem? hentry)]

/-! ### Lines -/

/-- The line that ends the values of an enumeration. -/
def sentinelLine (name : String) : String :=
  "    " ++ name ++ "_Force32 = 0x7FFFFFFF"

/-- The lines of an enumeration whose values have the given ones. -/
def enumerationLines (name : String) (lines : List String) : List String :=
  ("typedef enum " ++ name ++ " \x7b") ::
    (lines ++ [sentinelLine name, "\x7d " ++ name ++ ";", ""])

/-- A line tells the number of a value in capital hexadecimal digits, in at least eight. -/
def Tells (name : String) (item : EnumItem) (number : UInt64) (line : String) : Prop :=
  ∃ digits : List Char,
    line = "    " ++ name ++ "_" ++ Text.valueCase item.name ++ " = 0x" ++ .ofList digits ++ "," ∧
      8 ≤ digits.length ∧ (∀ digit ∈ digits, digit ∈ "0123456789ABCDEF".toList) ∧
      Text.hexValueFrom? 0 digits = some number.toNat

def valueLine (name : String) (entry : EnumItem × UInt64) : String :=
  "    " ++ name ++ "_" ++ Text.valueCase entry.1.name ++ " = 0x" ++
    .ofList (Text.hexUpper 8 entry.2.toNat) ++ ","

theorem tells_valueLine (name : String) (entry : EnumItem × UInt64) :
    Tells name entry.1 entry.2 (valueLine name entry) :=
  ⟨_, rfl, Text.le_length_hexUpper 8 _, fun _ ↦ Text.mem_of_mem_hexUpper,
    Text.hexValueFrom?_hexUpper 8 _⟩

/-- Only the lines of values end in a comma. -/
theorem Tells.ne_sentinelLine {name line : String} {item : EnumItem}
    (h : Tells name item number line) : line ≠ sentinelLine name := by
  obtain ⟨digits, rfl, -⟩ := h
  intro heq
  have hletter : (sentinelLine name).toList.getLast? = some 'F' := by
    rw [sentinelLine, String.toList_append, List.getLast?_append]
    rfl
  rw [← heq, String.toList_append, List.getLast?_append] at hletter
  cases hletter

theorem newline_notMem_valueCase (phrase : String) : '\n' ∉ (Text.valueCase phrase).toList := by
  intro hmem
  rw [Text.valueCase, String.toList_ofList] at hmem
  have hblank := Text.isBlank_of_mem_pascalChars hmem
  cases hblank

theorem Tells.newline_notMem {name line : String} {item : EnumItem}
    (h : Tells name item number line) (hname : '\n' ∉ name.toList) : '\n' ∉ line.toList := by
  obtain ⟨digits, rfl, -, hdigits, -⟩ := h
  have hdigit : '\n' ∉ digits := fun hmem ↦ absurd (hdigits _ hmem) (by decide)
  simp [hname, hdigit, newline_notMem_valueCase]

theorem text_eq_valueLine (name : String) (entry : EnumItem × UInt64) :
    Enumerator.text ⟨name ++ "_" ++ Text.valueCase entry.1.name, entry.2⟩ =
      valueLine name entry ++ "\n" := by
  apply String.toList_inj.mp
  simp [Enumerator.text, valueLine]

/-- An enumeration whose values are written in lines is written in lines. -/
theorem text_enumeration (typePrefix : String) {name : String} {enumerators : List Enumerator}
    {lines : List String} (h : enumerators.map Enumerator.text = lines.map (· ++ "\n")) :
    (Declaration.enumeration name enumerators).text typePrefix =
      String.join ((enumerationLines name lines).map (· ++ "\n")) := by
  have hopens : " \x7b\n" = " \x7b" ++ "\n" := rfl
  have hends : "_Force32 = 0x7FFFFFFF\n\x7d " = "_Force32 = 0x7FFFFFFF" ++ "\n" ++ "\x7d " := rfl
  have hcloses : ";\n\n" = ";" ++ "\n" ++ ("" ++ "\n") := rfl
  rw [Declaration.text_enumeration, h, hopens, hends, hcloses]
  simp only [enumerationLines, sentinelLine, List.map_cons, List.map_append, List.map_nil,
    String.join_cons, String.join_append, String.join_nil, String.append_assoc,
    String.append_empty]

theorem map_text_enumerators (settings : Settings) (name : String) (items : List EnumItem) :
    (enumerators settings name items).map Enumerator.text =
      (((numberItems 0 items).filter fun entry ↦ settings.keeps entry.1.tags).map
        (valueLine name)).map (· ++ "\n") := by
  rw [enumerators, List.map_map, List.map_map]
  exact List.map_congr_left fun entry _ ↦ text_eq_valueLine name entry

theorem newline_notMem_enumerationLines {name : String} {lines : List String}
    (hname : '\n' ∉ name.toList) (hlines : ∀ line ∈ lines, '\n' ∉ line.toList) :
    ∀ line ∈ enumerationLines name lines, '\n' ∉ line.toList := by
  rw [enumerationLines, List.forall_mem_cons, List.forall_mem_append]
  exact ⟨by simp [hname], hlines, by simp [sentinelLine, hname]⟩

/-- Every value has one number, whatever is excluded, and an enumeration is written in
lines: one for each value that is kept, in order, that tells its number, and after them
one sentinel. -/
theorem enumeration_text_numbered (name : String) (items : List EnumItem) :
    ∃ numbered : List (EnumItem × UInt64), numbered.map Prod.fst = items ∧
      (∀ place item number, numbered[place]? = some (item, number) ↔
        items[place]? = some item ∧ NumberedAt items place number) ∧
      ∀ (settings : Settings) (typePrefix : String), ∃ lines : List String,
        List.Forall₂ (fun entry line ↦ Tells name entry.1 entry.2 line)
          (numbered.filter fun entry ↦ settings.keeps entry.1.tags) lines ∧
        sentinelLine name ∉ lines ∧
        (Declaration.enumeration name (enumerators settings name items)).text typePrefix =
          String.join ((enumerationLines name lines).map (· ++ "\n")) ∧
        ('\n' ∉ name.toList → ∀ line ∈ enumerationLines name lines, '\n' ∉ line.toList) := by
  refine ⟨numberItems 0 items, map_fst_numberItems 0 items,
    fun _ _ _ ↦ getElem?_numberItems_eq_some_iff, fun settings typePrefix ↦ ?_⟩
  have htells (line : String) (hline : line ∈ ((numberItems 0 items).filter fun entry ↦
      settings.keeps entry.1.tags).map (valueLine name)) :
      ∃ item number, Tells name item number line := by
    obtain ⟨entry, -, rfl⟩ := List.mem_map.mp hline
    exact ⟨_, _, tells_valueLine name entry⟩
  refine ⟨_, ?_, ?_, text_enumeration typePrefix (map_text_enumerators settings name items), ?_⟩
  · rw [List.forall₂_map_right_iff, List.forall₂_same]
    exact fun entry _ ↦ tells_valueLine name entry
  · intro hsentinel
    obtain ⟨_, _, htold⟩ := htells _ hsentinel
    exact htold.ne_sentinelLine rfl
  · intro hname
    refine newline_notMem_enumerationLines hname fun line hline ↦ ?_
    obtain ⟨_, _, htold⟩ := htells line hline
    exact htold.newline_notMem hname

/-- The greatest number is given to a value with a tag, and the count goes on after it. -/
def wrapping : List EnumItem :=
  [⟨"first", none, []⟩, ⟨"last", some 0xFFFFFFFFFFFFFFFF, ["internal"]⟩,
    ⟨"wrapped-around", none, []⟩]

/-- The value in the middle is left out, and the one after it starts over. -/
theorem wrapping_starts_over :
    ∃ numbered : List (EnumItem × UInt64), numbered.map Prod.fst = wrapping ∧
      numbered[2]? = some (⟨"wrapped-around", none, []⟩, 0) ∧ ∃ lines : List String,
        lines.length = 2 ∧ (∀ line ∈ enumerationLines "WGPUMode" lines, '\n' ∉ line.toList) ∧
        (Declaration.enumeration "WGPUMode" (enumerators
          (Settings.standard.withExclusion ⟨["internal"], by decide⟩) "WGPUMode" wrapping)).text
            "WGPU" = String.join ((enumerationLines "WGPUMode" lines).map (· ++ "\n")) := by
  obtain ⟨numbered, hfst, hnumbers, hlines⟩ := enumeration_text_numbered "WGPUMode" wrapping
  have hcounted : NumberedAt wrapping 2 0 := by
    refine .counted (show 1 < 2 by decide) rfl (fun between hlow hhigh ↦ ?_) (by decide)
    rw [Nat.le_antisymm hhigh hlow]
    rfl
  obtain ⟨lines, htold, -, htext, hplain⟩ :=
    hlines (Settings.standard.withExclusion ⟨["internal"], by decide⟩) "WGPU"
  refine ⟨numbered, hfst, (hnumbers 2 _ 0).mpr ⟨rfl, hcounted⟩, lines, ?_,
    hplain (by decide), htext⟩
  calc
    lines.length
    _ = ((numbered.map Prod.fst).filter fun item ↦
        (Settings.standard.withExclusion ⟨["internal"], by decide⟩).keeps item.tags).length := by
      rw [← htold.length_eq, List.filter_map, List.length_map]
      rfl
    _ = 2 := by
      rw [hfst]
      decide

end Schema

end ApiHeader
