import ApiHeader.Document.Node
import ApiHeader.Text.Casing

/-!
# Settings

How a header is to be written: prefixes, guard, export macro, excluded tags, and
whether types of function pointers are wanted. Each `with` function changes one
of these; a new type prefix also brings a guard and an export macro.

An `Exclusion` is the set of tags whose declarations are left out of a header. Its
tags are kept in ascending order, without blanks around them; no tag is empty.
-/

set_option autoImplicit false
set_option relaxedAutoImplicit false

namespace ApiHeader

/-! ### Exclusion -/

structure Exclusion where
  tags : List Tag
  sorted : tags.Pairwise (· < ·)
  deriving DecidableEq

namespace Exclusion

def empty : Exclusion := ⟨[], .nil⟩

def isEmpty (e : Exclusion) : Bool := e.tags.isEmpty

/-- Puts a tag at its place in a list in order, unless it is there. -/
def place (tag : Tag) : List Tag → List Tag
  | [] => [tag]
  | first :: rest =>
    if tag < first then tag :: first :: rest
    else if tag = first then first :: rest
    else first :: place tag rest

@[simp] theorem mem_place {tag other : Tag} {tags : List Tag} :
    other ∈ place tag tags ↔ other = tag ∨ other ∈ tags := by
  induction tags with
  | nil => simp [place]
  | cons first rest ih =>
    unfold place
    split
    · simp
    · split
      · rename_i h
        subst h
        simp
      · simp [ih, or_left_comm]

theorem pairwise_place {tag : Tag} {tags : List Tag} (h : tags.Pairwise (· < ·)) :
    (place tag tags).Pairwise (· < ·) := by
  induction tags with
  | nil => simp [place]
  | cons first rest ih =>
    rw [List.pairwise_cons] at h
    unfold place
    split
    · rename_i hlt
      rw [List.pairwise_cons]
      refine ⟨?_, List.pairwise_cons.mpr h⟩
      intro other hother
      rcases List.mem_cons.mp hother with rfl | hother
      · exact hlt
      · exact String.lt_trans hlt (h.1 other hother)
    · split
      · exact List.pairwise_cons.mpr h
      · rename_i hlt hne
        rw [List.pairwise_cons]
        refine ⟨?_, ih h.2⟩
        intro other hother
        rcases mem_place.mp hother with rfl | hother
        · exact Decidable.byContradiction fun h' ↦
            hne (String.le_antisymm (String.not_lt.mp h') (String.not_lt.mp hlt))
        · exact h.1 other hother

/-- Adds a tag without the blanks around it; an empty one is not added. -/
def insert (e : Exclusion) (tag : Tag) : Exclusion :=
  let trimmed := Text.trim tag
  if trimmed = "" then e else ⟨place trimmed e.tags, pairwise_place e.sorted⟩

/-- The tags of a list that commas divide. -/
def splitCommas (list : String) : List Tag :=
  (list.toList.splitOnP (· = ',')).map String.ofList

def ofLists (lists : List String) : Exclusion :=
  (lists.flatMap splitCommas).foldl insert empty

/-- Something is left out when one of its tags is in the set. -/
def excludes (e : Exclusion) (tags : List Tag) : Bool :=
  tags.any (e.tags.contains ·)

end Exclusion

/-! ### Settings -/

structure Settings where
  typePrefix : String := "WGPU"
  functionPrefix : String := "wgpu"
  headerGuard : String := "WEBGPU_H_"
  exportName : String := "WGPU_EXPORT"
  exclusion : Exclusion := .empty
  procs : Bool := false
  deriving DecidableEq

namespace Settings

def standard : Settings := {}

/-- The type prefix in capitals, with which names of macros begin. -/
def upperPrefix (s : Settings) : String :=
  Text.upperCase s.typePrefix

/-- A type prefix brings a guard and an export macro of its own. -/
def withTypePrefix (s : Settings) (typePrefix : String) : Settings :=
  { s with
    typePrefix
    headerGuard := Text.upperCase typePrefix ++ "_H_"
    exportName := Text.upperCase typePrefix ++ "_EXPORT" }

def withFunctionPrefix (s : Settings) (functionPrefix : String) : Settings :=
  { s with functionPrefix }

def withHeaderGuard (s : Settings) (headerGuard : String) : Settings :=
  { s with headerGuard }

def withExportName (s : Settings) (exportName : String) : Settings :=
  { s with exportName }

def withExclusion (s : Settings) (exclusion : Exclusion) : Settings :=
  { s with exclusion }

def withProcs (s : Settings) (procs : Bool) : Settings :=
  { s with procs }

end Settings

end ApiHeader
