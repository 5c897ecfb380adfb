import ApiHeader.Settings
import Mathlib.Data.List.Basic

/-!
# Settings made call by call

Settings are made by a sequence of calls on the standard ones (`Settings.after`), and
each has the value of the last call that writes it (`read_after`). A type prefix also
writes the guard and the export macro, whether or not these were set before: what was set
stays unless a type prefix comes after it and brings another name (`Overridden`). Apart
from that, the order of calls on different settings does not matter
(`explicit_names_stay_iff`).
-/

set_option autoImplicit false
set_option relaxedAutoImplicit false

namespace ApiHeader

/-- A call that changes settings. -/
inductive SettingChange where
  | typePrefix (value : String)
  | functionPrefix (value : String)
  | headerGuard (value : String)
  | exportName (value : String)
  | exclusion (value : Exclusion)
  | procs (value : Bool)

/-- What a call is made for. -/
inductive Setting where
  | typePrefix
  | functionPrefix
  | headerGuard
  | exportName
  | exclusion
  | procs

namespace Setting

def Value : Setting → Type
  | exclusion => Exclusion
  | procs => Bool
  | _ => String

def read : (setting : Setting) → Settings → setting.Value
  | typePrefix => Settings.typePrefix
  | functionPrefix => Settings.functionPrefix
  | headerGuard => Settings.headerGuard
  | exportName => Settings.exportName
  | exclusion => Settings.exclusion
  | procs => Settings.procs

/-- The value that a call made for the setting gives it. -/
def given? : (setting : Setting) → SettingChange → Option setting.Value
  | typePrefix, .typePrefix value => some value
  | functionPrefix, .functionPrefix value => some value
  | headerGuard, .headerGuard value => some value
  | exportName, .exportName value => some value
  | exclusion, .exclusion value => some value
  | procs, .procs value => some value
  | _, _ => none

/-- The value that a type prefix brings for another setting. -/
def brought? : (setting : Setting) → String → Option setting.Value
  | headerGuard, value => some (Text.upperCase value ++ "_H_")
  | exportName, value => some (Text.upperCase value ++ "_EXPORT")
  | _, _ => none

/-- The value that a call made for the type prefix brings for the setting. -/
def derived? (setting : Setting) (c : SettingChange) : Option setting.Value :=
  (typePrefix.given? c).bind setting.brought?

/-- What a call of either kind writes. -/
def written? (setting : Setting) (c : SettingChange) : Option setting.Value :=
  (setting.given? c).or (setting.derived? c)

end Setting

namespace Settings

def change (s : Settings) : SettingChange → Settings
  | .typePrefix value => s.withTypePrefix value
  | .functionPrefix value => s.withFunctionPrefix value
  | .headerGuard value => s.withHeaderGuard value
  | .exportName value => s.withExportName value
  | .exclusion value => s.withExclusion value
  | .procs value => s.withProcs value

/-- The settings after a sequence of calls on the standard ones. -/
def after (changes : List SettingChange) : Settings :=
  changes.foldl change standard

theorem ext_read {s t : Settings} (h : ∀ setting : Setting, setting.read s = setting.read t) :
    s = t := by
  cases s
  cases t
  cases h .typePrefix
  cases h .functionPrefix
  cases h .headerGuard
  cases h .exportName
  cases h .exclusion
  cases h .procs
  rfl

theorem read_change (s : Settings) (c : SettingChange) (setting : Setting) :
    setting.read (s.change c) = (setting.written? c).getD (setting.read s) := by
  cases setting <;> cases c <;> rfl

theorem read_foldl_change (changes : List SettingChange) (s : Settings) (setting : Setting) :
    setting.read (changes.foldl change s) =
      (changes.filterMap setting.written?).getLast?.getD (setting.read s) := by
  induction changes generalizing s with
  | nil => rfl
  | cons c changes ih =>
    rw [List.foldl_cons, ih, read_change, List.filterMap_cons]
    cases setting.written? c with
    | none => rfl
    | some value => rw [List.getLast?_cons, Option.getD_some, Option.getD_some]

/-- A setting has the value of the last call that writes it. -/
theorem read_after (changes : List SettingChange) (setting : Setting) :
    setting.read (after changes) =
      (changes.filterMap setting.written?).getLast?.getD (setting.read standard) :=
  read_foldl_change changes standard setting

end Settings

/-! ### Values that a type prefix brings -/

namespace Setting

variable {setting : Setting}

/-- The value set last by a call of its own, or else the one that the last type prefix
brings, or else the standard one. -/
def explicitFirst (setting : Setting) (changes : List SettingChange) : setting.Value :=
  ((changes.filterMap setting.given?).getLast?.or
    (changes.filterMap setting.derived?).getLast?).getD (setting.read .standard)

/-- After the last call made for the setting a type prefix comes, and the last such prefix
brings another value. -/
def Overridden (setting : Setting) (changes : List SettingChange) : Prop :=
  ∃ front c back given brought, changes = front ++ c :: back ∧ setting.given? c = some given ∧
    (∀ later ∈ back, setting.given? later = none) ∧
    (back.filterMap setting.derived?).getLast? = some brought ∧ brought ≠ given

/-- Where no call is made for a setting, type prefixes alone write it. -/
theorem filterMap_written?_of_forall {changes : List SettingChange}
    (hnone : ∀ c ∈ changes, setting.given? c = none) :
    changes.filterMap setting.written? = changes.filterMap setting.derived? := by
  refine List.filterMap_congr fun c hc ↦ ?_
  rw [written?, hnone c hc, Option.none_or]

/-- Either no call is made for a setting, or there is a last one. -/
theorem forall_eq_none_or_exists_last (setting : Setting) (changes : List SettingChange) :
    (∀ c ∈ changes, setting.given? c = none) ∨
      ∃ front c back given, changes = front ++ c :: back ∧ setting.given? c = some given ∧
        ∀ later ∈ back, setting.given? later = none := by
  induction changes with
  | nil => exact .inl (List.forall_mem_nil _)
  | cons c changes ih =>
    rcases ih with hnone | ⟨front, last, back, given, rfl, hlast, hback⟩
    · cases hgiven : setting.given? c with
      | none => exact .inl (List.forall_mem_cons.mpr ⟨hgiven, hnone⟩)
      | some given => exact .inr ⟨[], c, changes, given, rfl, hgiven, hnone⟩
    · exact .inr ⟨c :: front, last, back, given, rfl, hlast, hback⟩

/-- From the last call made for a setting on, type prefixes decide. -/
theorem read_after_of_last (front : List SettingChange) {back : List SettingChange}
    {c : SettingChange} {given : setting.Value} (hgiven : setting.given? c = some given)
    (hback : ∀ later ∈ back, setting.given? later = none) :
    setting.read (.after (front ++ c :: back)) =
        (back.filterMap setting.derived?).getLast?.getD given ∧
      setting.explicitFirst (front ++ c :: back) = given := by
  have hwritten : setting.written? c = some given := by
    rw [written?, hgiven, Option.some_or]
  have hnone : back.filterMap setting.given? = [] := List.filterMap_eq_nil_iff.mpr hback
  constructor
  · rw [Settings.read_after, List.filterMap_append, List.filterMap_cons, hwritten,
      filterMap_written?_of_forall hback]
    simp [List.getLast?_cons]
  · rw [explicitFirst, List.filterMap_append, List.filterMap_cons, hgiven, hnone,
      List.getLast?_concat, Option.some_or, Option.getD_some]

theorem read_after_eq_explicitFirst_iff (setting : Setting) (changes : List SettingChange) :
    setting.read (.after changes) = setting.explicitFirst changes ↔
      ¬ setting.Overridden changes := by
  constructor
  · rintro hread ⟨front, c, back, given, brought, rfl, hgiven, hback, hlast, hother⟩
    obtain ⟨hvalue, hfirst⟩ := read_after_of_last front hgiven hback
    rw [hvalue, hfirst, hlast] at hread
    exact hother hread
  · intro hkept
    rcases setting.forall_eq_none_or_exists_last changes with
      hnone | ⟨front, c, back, given, rfl, hgiven, hback⟩
    · rw [Settings.read_after, explicitFirst, filterMap_written?_of_forall hnone,
        List.filterMap_eq_nil_iff.mpr hnone, List.getLast?_nil, Option.none_or]
    · obtain ⟨hvalue, hfirst⟩ := read_after_of_last front hgiven hback
      rw [hvalue, hfirst]
      cases hlast : (back.filterMap setting.derived?).getLast? with
      | none => rfl
      | some brought =>
        by_contra hother
        exact hkept ⟨front, c, back, given, brought, rfl, hgiven, hback, hlast, hother⟩

end Setting

/-! ### The order of calls -/

namespace Settings

/-- Two sequences make the same calls for each setting, in the same order. -/
def SameCalls (changes others : List SettingChange) : Prop :=
  ∀ setting : Setting, changes.filterMap setting.given? = others.filterMap setting.given?

theorem SameCalls.explicitFirst_eq {changes others : List SettingChange}
    (hsame : SameCalls changes others) (setting : Setting) :
    setting.explicitFirst changes = setting.explicitFirst others := by
  have hderived (cs : List SettingChange) : cs.filterMap setting.derived? =
      (cs.filterMap Setting.typePrefix.given?).filterMap setting.brought? :=
    (List.filterMap_filterMap ..).symm
  rw [Setting.explicitFirst, Setting.explicitFirst, hderived, hderived, hsame setting,
    hsame .typePrefix]

/-- Each setting has the value of the last call that writes it, where a type prefix also
writes the guard and the export macro. It is as calls of its own, or else the last type
prefix, have set it, exactly unless a later type prefix overrides it; and unless that
happens to one, the same calls in another order make the same settings. -/
theorem explicit_names_stay_iff (changes : List SettingChange) :
    (∀ setting : Setting, setting.read (after changes) =
      (changes.filterMap setting.written?).getLast?.getD (setting.read standard)) ∧
    (∀ setting : Setting, setting.read (after changes) = setting.explicitFirst changes ↔
      ¬ setting.Overridden changes) ∧
    ∀ others, SameCalls changes others → (∀ setting : Setting, ¬ setting.Overridden changes) →
      (after changes = after others ↔ ∀ setting : Setting, ¬ setting.Overridden others) := by
  refine ⟨read_after changes, fun setting ↦ setting.read_after_eq_explicitFirst_iff changes,
    fun others hsame hkept ↦ ?_⟩
  have hread (setting : Setting) :
      setting.read (after changes) = setting.explicitFirst others := by
    rw [← hsame.explicitFirst_eq, (setting.read_after_eq_explicitFirst_iff changes).mpr
      (hkept setting)]
  simp only [← Setting.read_after_eq_explicitFirst_iff]
  constructor
  · intro heq setting
    rw [← heq, hread]
  · intro hothers
    refine ext_read fun setting ↦ ?_
    rw [hread, hothers]

/-- A guard that is set after the type prefix stays, wherever other calls stand. -/
theorem prefixed_guard_stays :
    (after [.typePrefix "Vk", .functionPrefix "vk", .headerGuard "VULKAN_CORE_H_"]).headerGuard =
        "VULKAN_CORE_H_" ∧
      after [.typePrefix "Vk", .functionPrefix "vk", .headerGuard "VULKAN_CORE_H_"] =
        after [.functionPrefix "vk", .typePrefix "Vk", .headerGuard "VULKAN_CORE_H_"] := by
  obtain ⟨-, hiff, horder⟩ := explicit_names_stay_iff
    [.typePrefix "Vk", .functionPrefix "vk", .headerGuard "VULKAN_CORE_H_"]
  obtain ⟨-, hiff', -⟩ := explicit_names_stay_iff
    [.functionPrefix "vk", .typePrefix "Vk", .headerGuard "VULKAN_CORE_H_"]
  have hkept (setting : Setting) := (hiff setting).mp (by cases setting <;> rfl)
  have hkept' (setting : Setting) := (hiff' setting).mp (by cases setting <;> rfl)
  refine ⟨(hiff .headerGuard).mpr (hkept .headerGuard),
    (horder _ (fun setting ↦ ?_) hkept).mpr hkept'⟩
  cases setting <;> rfl

/-- A guard that is set before the type prefix is lost, so that the two calls cannot be
exchanged. -/
theorem set_guard_overridden :
    (after [.headerGuard "MY_H_", .typePrefix "Gfx"]).headerGuard = "GFX_H_" ∧
      Setting.headerGuard.explicitFirst [.headerGuard "MY_H_", .typePrefix "Gfx"] = "MY_H_" ∧
      SameCalls [.headerGuard "MY_H_", .typePrefix "Gfx"]
        [.typePrefix "Gfx", .headerGuard "MY_H_"] ∧
      after [.headerGuard "MY_H_", .typePrefix "Gfx"] ≠
        after [.typePrefix "Gfx", .headerGuard "MY_H_"] := by
  refine ⟨by decide, rfl, fun setting ↦ ?_, by decide⟩
  cases setting <;> rfl

end Settings

end ApiHeader
