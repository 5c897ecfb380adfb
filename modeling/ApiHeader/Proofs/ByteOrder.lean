import Mathlib.Algebra.Group.Nat.Defs
import Mathlib.Data.Nat.Basic

/-!
# The order of texts by their bytes

Texts are ordered character by character, and in UTF-8 this is the order of their bytes
(`bytes_lt_iff`). A character is a leading byte, which tells how many follow, and then
bytes of six bits each (`utf8EncodeChar_eq`). So the encodings of two characters already
differ where neither has ended (`utf8EncodeChar_append_lt`), and what follows them does
not matter.
-/

set_option autoImplicit false
set_option relaxedAutoImplicit false

namespace ApiHeader.Text

/-- A text in UTF-8. -/
def bytes (s : String) : List UInt8 := s.toUTF8.data.toList

theorem bytes_eq_flatMap (s : String) : bytes s = s.toList.flatMap String.utf8EncodeChar := by
  have hencode : s.toUTF8 = s.toList.utf8Encode := by
    rw [String.toUTF8_eq_toByteArray, ← String.toByteArray_ofList, String.ofList_toList]
  rw [bytes, hencode, List.utf8Encode, List.data_toByteArray]

/-! ### The bytes of one character -/

/-- The bytes after the leading one, each with six bits of the code. -/
def following (code : Nat) : Nat → List UInt8
  | 0 => []
  | count + 1 => UInt8.ofNat (code / 64 ^ count % 64 + 0x80) :: following code count

/-- How many bytes follow the leading one. -/
def followingCount (code : Nat) : Nat :=
  if code ≤ 0x7F then 0 else if code ≤ 0x7FF then 1 else if code ≤ 0xFFFF then 2 else 3

/-- What the leading byte has above the bits of the code. -/
def leadingMark : Nat → Nat
  | 0 => 0
  | 1 => 0xC0
  | 2 => 0xE0
  | _ => 0xF0

/-- The leading byte. -/
def leading (code : Nat) : Nat :=
  code / 64 ^ followingCount code + leadingMark (followingCount code)

theorem toNat_lt (c : Char) : c.toNat < 0x110000 := by
  rcases c.valid with hlow | hhigh
  · change c.toNat < 0xD800 at hlow
    omega
  · exact hhigh.2

theorem leading_lt {code : Nat} (hcode : code < 0x110000) : leading code < 256 := by
  rw [leading, followingCount]
  split_ifs <;> simp only [leadingMark] <;> omega

theorem utf8EncodeChar_eq (c : Char) : String.utf8EncodeChar c =
    UInt8.ofNat (leading c.toNat) :: following c.toNat (followingCount c.toNat) := by
  have hcode := toNat_lt c
  have hlower : c.val.toNat = c.toNat := rfl
  rw [String.utf8EncodeChar, hlower, leading, followingCount]
  -- The leading byte takes what is left of the code, so that its remainder is all of it.
  split_ifs with hone htwo hthree
  · simp [following, leadingMark]
  · have hleft : c.toNat / 64 % 0x20 = c.toNat / 64 := by omega
    simp [following, leadingMark, hleft]
  · have hleft : c.toNat / 4096 % 0x10 = c.toNat / 4096 := by omega
    simp [following, leadingMark, hleft]
  · have hleft : c.toNat / 262144 % 0x08 = c.toNat / 262144 := by omega
    simp [following, leadingMark, hleft]

/-- Codes that agree above the bits of the following bytes are told apart by these. -/
theorem following_append_lt {code other count : Nat} (hlt : code < other)
    (hsame : code / 64 ^ count = other / 64 ^ count) (rest tail : List UInt8) :
    following code count ++ rest < following other count ++ tail := by
  induction count with
  | zero => omega
  | succ count ih =>
    rw [following, following, List.cons_append, List.cons_append, List.cons_lt_cons_iff]
    have hle : code / 64 ^ count ≤ other / 64 ^ count := Nat.div_le_div_right (Nat.le_of_lt hlt)
    rw [pow_succ, ← Nat.div_div_eq_div_mul, ← Nat.div_div_eq_div_mul] at hsame
    rcases Nat.lt_or_eq_of_le hle with hbits | hbits
    · left
      rw [UInt8.lt_iff_toNat_lt, UInt8.toNat_ofNat', UInt8.toNat_ofNat']
      omega
    · right
      exact ⟨by rw [hbits], ih hbits⟩

/-- A longer encoding has a greater leading byte. -/
theorem leading_lt_of_followingCount_lt {code other : Nat} (hlt : code < other)
    (hcount : followingCount code ≠ followingCount other) : leading code < leading other := by
  unfold leading followingCount at *
  split_ifs at * <;> simp only [leadingMark] at * <;> omega

/-- The encoding of a lower character is below that of a higher one, whatever follows. -/
theorem utf8EncodeChar_append_lt {c d : Char} (hlt : c < d) (rest tail : List UInt8) :
    String.utf8EncodeChar c ++ rest < String.utf8EncodeChar d ++ tail := by
  have hcode : c.toNat < d.toNat := hlt
  have hbyte {first second : Nat} (h : first < second) (hsecond : second < 256) :
      UInt8.ofNat first < UInt8.ofNat second := by
    rw [UInt8.lt_iff_toNat_lt, UInt8.toNat_ofNat', UInt8.toNat_ofNat']
    omega
  have hleading := leading_lt (toNat_lt d)
  rw [utf8EncodeChar_eq, utf8EncodeChar_eq, List.cons_append, List.cons_append,
    List.cons_lt_cons_iff]
  by_cases hcount : followingCount c.toNat = followingCount d.toNat
  · have hle : c.toNat / 64 ^ followingCount d.toNat ≤ d.toNat / 64 ^ followingCount d.toNat :=
      Nat.div_le_div_right (Nat.le_of_lt hcode)
    rcases Nat.lt_or_eq_of_le hle with hbits | hbits
    · refine .inl (hbyte ?_ hleading)
      rw [leading, leading, hcount]
      omega
    · refine .inr ⟨by rw [leading, leading, hcount, hbits], ?_⟩
      rw [hcount]
      exact following_append_lt hcode hbits rest tail
  · exact .inl (hbyte (leading_lt_of_followingCount_lt hcode hcount) hleading)

/-! ### The bytes of a text -/

theorem flatMap_utf8EncodeChar_lt {cs ds : List Char} (hlt : cs < ds) :
    cs.flatMap String.utf8EncodeChar < ds.flatMap String.utf8EncodeChar := by
  induction hlt with
  | nil =>
    rw [List.flatMap_cons, utf8EncodeChar_eq]
    exact .nil
  | rel hlt =>
    rw [List.flatMap_cons, List.flatMap_cons]
    exact utf8EncodeChar_append_lt hlt _ _
  | cons _ ih =>
    rw [List.flatMap_cons, List.flatMap_cons]
    exact List.append_left_lt ih

/-- Texts and their bytes have the same order. -/
theorem bytes_lt_iff {s t : String} : bytes s < bytes t ↔ s < t := by
  have hmono {s t : String} (h : s < t) : bytes s < bytes t := by
    rw [bytes_eq_flatMap, bytes_eq_flatMap]
    exact flatMap_utf8EncodeChar_lt h
  refine ⟨fun hbytes ↦ ?_, hmono⟩
  by_contra hnot
  rcases Decidable.em (t < s) with hlt | hge
  · exact List.lt_asymm hbytes (hmono hlt)
  · obtain rfl := String.le_antisymm (String.not_lt.mp hge) (String.not_lt.mp hnot)
    exact List.lt_irrefl _ hbytes

end ApiHeader.Text
