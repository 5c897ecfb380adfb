import ApiHeader.Proofs.Loading
import Mathlib.Data.List.Perm.Subperm
import Mathlib.Logic.Relation

/-!
# Where chains of aliases lead

`Document.expand` follows a chain of aliases and keeps those it has passed. What it keeps
is the chain from the type name on, without an alias passed twice (`Passes`), so it stops
within as many steps as the document has aliases. A chain comes to an end or runs into a
cycle (`exists_isEnd_or_loops`). In the first case expansion comes to that end and tells
whether an alias on the way points (`target_expand_of_isEnd`,
`isDirect_expand_iff_of_isEnd`); in the second it stops at an alias. So a type name
unfolds to what it is expanded to without a pointer on the way (`unfolds_iff_expand`).
-/

set_option autoImplicit false
set_option relaxedAutoImplicit false

namespace ApiHeader

namespace Document

/-! ### Following aliases -/

/-- One key is an alias for another. -/
def Follows (document : Document) (key target : Key) : Prop :=
  ∃ typedef, document.get? key = some (.typedef typedef) ∧ typedef.target = target

/-- A key whose node is not an alias. -/
def IsEnd (document : Document) (key : Key) : Prop :=
  ∀ typedef, document.get? key ≠ some (.typedef typedef)

theorem Follows.unique {document : Document} {key first second : Key}
    (hfirst : document.Follows key first) (hsecond : document.Follows key second) :
    first = second := by
  obtain ⟨typedef, hnode, rfl⟩ := hfirst
  obtain ⟨other, hother, rfl⟩ := hsecond
  rw [hnode] at hother
  obtain rfl : typedef = other := by simpa using hother
  rfl

/-- A chain of aliases that comes to an end does not come back to its start. -/
theorem not_follows_self {document : Document} {key target : Key}
    (hchain : Relation.ReflTransGen document.Follows key target) (hend : document.IsEnd target) :
    ¬ Relation.TransGen document.Follows key key := by
  induction hchain using Relation.ReflTransGen.head_induction_on with
  | refl =>
    intro hcycle
    obtain ⟨_, ⟨typedef, hnode, -⟩, -⟩ := Relation.TransGen.head'_iff.mp hcycle
    exact hend typedef hnode
  | head hstep _ ih =>
    intro hcycle
    obtain ⟨next, hnext, hback⟩ := Relation.TransGen.head'_iff.mp hcycle
    obtain rfl := hstep.unique hnext
    exact ih (Relation.TransGen.tail' hback hstep)

variable {document : Document} {type : Key}

/-- Following aliases from a type name comes to a key, past the aliases of the list, the
last one first. None of them is passed twice. -/
inductive Passes (document : Document) (type : Key) : List Key → Key → Prop where
  | start : Passes document type [] type
  | step {passed : List Key} {key target : Key} (hpasses : Passes document type passed key)
      (hfresh : key ∉ passed) (hfollows : document.Follows key target) :
      Passes document type (key :: passed) target

/-- Following aliases from a type name comes to a cycle of them. -/
def Loops (document : Document) (type : Key) : Prop :=
  ∃ key, Relation.ReflTransGen document.Follows type key ∧
    Relation.TransGen document.Follows key key

/-- The keys of all aliases. -/
def typedefKeys (document : Document) : List Key :=
  (document.entries.filter fun declared ↦ declared.2.category = .typedef).map Prod.fst

theorem mem_typedefKeys_iff {key : Key} : key ∈ document.typedefKeys ↔
    ∃ typedef, document.get? key = some (.typedef typedef) := by
  simp only [typedefKeys, List.mem_map, List.mem_filter, decide_eq_true_eq, Table.get?_eq_some_iff]
  constructor
  · rintro ⟨⟨_, node⟩, ⟨hmem, hcategory⟩, rfl⟩
    cases node <;> cases hcategory
    exact ⟨_, hmem⟩
  · rintro ⟨typedef, hmem⟩
    exact ⟨_, ⟨hmem, rfl⟩, rfl⟩

namespace Passes

variable {passed : List Key} {key other : Key}

theorem nodup (h : document.Passes type passed key) : passed.Nodup := by
  induction h with
  | start => exact List.nodup_nil
  | step _ hfresh _ ih => exact List.nodup_cons.mpr ⟨hfresh, ih⟩

theorem subset_typedefKeys (h : document.Passes type passed key) :
    passed ⊆ document.typedefKeys := by
  induction h with
  | start => exact List.nil_subset _
  | step _ _ hfollows ih =>
    obtain ⟨typedef, hnode, -⟩ := hfollows
    exact List.cons_subset.mpr ⟨mem_typedefKeys_iff.mpr ⟨typedef, hnode⟩, ih⟩

theorem reaches (h : document.Passes type passed key) :
    Relation.ReflTransGen document.Follows type key := by
  induction h with
  | start => exact .refl
  | step _ _ hfollows ih => exact ih.tail hfollows

/-- The aliases passed stand between the type name and the key. -/
theorem between (h : document.Passes type passed key) (hother : other ∈ passed) :
    Relation.ReflTransGen document.Follows type other ∧
      Relation.TransGen document.Follows other key := by
  induction h with
  | start => cases hother
  | step hpasses _ hfollows ih =>
    rcases List.mem_cons.mp hother with rfl | hother
    · exact ⟨hpasses.reaches, .single hfollows⟩
    · exact ⟨(ih hother).1, (ih hother).2.tail hfollows⟩

/-- What the type name leads to has been passed or is still to come. -/
theorem mem_or_reaches (h : document.Passes type passed key)
    (hother : Relation.ReflTransGen document.Follows type other) :
    other ∈ passed ∨ Relation.ReflTransGen document.Follows key other := by
  induction h with
  | start => exact .inr hother
  | step _ _ hfollows ih =>
    rcases ih with hpassed | hcoming
    · exact .inl (List.mem_cons_of_mem _ hpassed)
    · rcases Relation.ReflTransGen.cases_head hcoming with rfl | ⟨next, hnext, hrest⟩
      · exact .inl List.mem_cons_self
      · obtain rfl := hfollows.unique hnext
        exact .inr hrest

end Passes

/-! ### Expansion -/

/-- Expansion goes on along the chain. -/
theorem passes_expandFrom {passed : List Key} {key : Key} (isDirect : Bool)
    (h : document.Passes type passed key) :
    document.Passes type (document.expandFrom passed isDirect key).through
      (document.expandFrom passed isDirect key).target := by
  fun_induction expandFrom document passed isDirect key with
  | case1 passed isDirect key typedef hnode hpassed => exact h
  | case2 passed isDirect key typedef hnode hfresh _ ih =>
    exact ih (.step h hfresh ⟨typedef, hnode, rfl⟩)
  | case3 passed isDirect key hnode => exact h

/-- Expansion stops at the end of the chain, or when it comes back to an alias. -/
theorem isEnd_or_mem_expandFrom (passed : List Key) (isDirect : Bool) (key : Key) :
    document.IsEnd (document.expandFrom passed isDirect key).target ∨
      (document.expandFrom passed isDirect key).target ∈
        (document.expandFrom passed isDirect key).through := by
  fun_induction expandFrom document passed isDirect key with
  | case1 passed isDirect key typedef hnode hpassed => exact .inr hpassed
  | case2 passed isDirect key typedef hnode hfresh _ ih => exact ih
  | case3 passed isDirect key hnode => exact .inl hnode

/-- A key is not that of an alias that points. -/
def DirectAt (document : Document) (key : Key) : Prop :=
  ∀ typedef, document.get? key = some (.typedef typedef) → typedef.indirection = none

/-- Expansion tells whether one of the aliases passed points. -/
theorem isDirect_expandFrom_iff {passed : List Key} {isDirect : Bool} {key : Key}
    (h : isDirect = true ↔ ∀ other ∈ passed, document.DirectAt other) :
    (document.expandFrom passed isDirect key).isDirect = true ↔
      ∀ other ∈ (document.expandFrom passed isDirect key).through, document.DirectAt other := by
  fun_induction expandFrom document passed isDirect key with
  | case1 passed isDirect key typedef hnode hpassed => exact h
  | case2 passed isDirect key typedef hnode hfresh _ ih =>
    have hkey : document.DirectAt key ↔ typedef.indirection = none := by
      simp [DirectAt, hnode]
    refine ih ?_
    rw [Bool.and_eq_true, h, Option.isNone_iff_eq_none, List.forall_mem_cons, hkey, and_comm]
  | case3 passed isDirect key hnode => exact h

theorem passes_expand (document : Document) (type : Key) :
    document.Passes type (document.expand type).through (document.expand type).target :=
  passes_expandFrom true .start

theorem isEnd_or_mem_expand (document : Document) (type : Key) :
    document.IsEnd (document.expand type).target ∨
      (document.expand type).target ∈ (document.expand type).through :=
  isEnd_or_mem_expandFrom [] true type

theorem isDirect_expand_iff (document : Document) (type : Key) :
    (document.expand type).isDirect = true ↔
      ∀ other ∈ (document.expand type).through, document.DirectAt other :=
  isDirect_expandFrom_iff (by simp)

/-- There is at most one end to come to. -/
theorem IsEnd.eq_of_reaches {key other : Key} (hend : document.IsEnd key)
    (hother : Relation.ReflTransGen document.Follows key other) : key = other := by
  rcases Relation.ReflTransGen.cases_head hother with rfl | ⟨_, ⟨typedef, hnode, -⟩, -⟩
  · rfl
  · exact absurd hnode (hend typedef)

/-- A chain that runs into a cycle has no end. -/
theorem Loops.not_isEnd (hloops : document.Loops type) {target : Key}
    (hreaches : Relation.ReflTransGen document.Follows type target) : ¬ document.IsEnd target := by
  intro hend
  obtain ⟨key, hkey, hcycle⟩ := hloops
  have hunique : Relator.RightUnique document.Follows := fun _ _ _ h h' ↦ h.unique h'
  rcases Relation.ReflTransGen.total_of_right_unique hunique hreaches hkey with hafter | hbefore
  · obtain rfl := hend.eq_of_reaches hafter
    exact not_follows_self .refl hend hcycle
  · exact not_follows_self hbefore hend hcycle

/-- Expansion of a chain with an end comes to that end. -/
theorem target_expand_of_isEnd {target : Key}
    (hreaches : Relation.ReflTransGen document.Follows type target)
    (hend : document.IsEnd target) : (document.expand type).target = target := by
  have hpasses := document.passes_expand type
  have hstops : document.IsEnd (document.expand type).target := by
    rcases document.isEnd_or_mem_expand type with hstops | hback
    · exact hstops
    · obtain ⟨hbefore, hcycle⟩ := hpasses.between hback
      exact absurd hend (Loops.not_isEnd ⟨_, hbefore, hcycle⟩ hreaches)
  rcases hpasses.mem_or_reaches hreaches with hpassed | hcoming
  · obtain ⟨typedef, hnode⟩ := mem_typedefKeys_iff.mp (hpasses.subset_typedefKeys hpassed)
    exact absurd hnode (hend typedef)
  · exact hstops.eq_of_reaches hcoming

/-- The aliases passed on the way to an end are all to which the type name leads. -/
theorem mem_through_of_isEnd {target key : Key} {typedef : Typedef}
    (hreaches : Relation.ReflTransGen document.Follows type target) (hend : document.IsEnd target)
    (hkey : Relation.ReflTransGen document.Follows type key)
    (hnode : document.get? key = some (.typedef typedef)) :
    key ∈ (document.expand type).through := by
  rcases (document.passes_expand type).mem_or_reaches hkey with hpassed | hcoming
  · exact hpassed
  · rw [target_expand_of_isEnd hreaches hend] at hcoming
    obtain rfl := hend.eq_of_reaches hcoming
    exact absurd hnode (hend typedef)

/-- On the way to an end no alias points exactly if none does to which the type name
leads. -/
theorem isDirect_expand_iff_of_isEnd {target : Key}
    (hreaches : Relation.ReflTransGen document.Follows type target)
    (hend : document.IsEnd target) : (document.expand type).isDirect = true ↔
      ∀ key typedef, Relation.ReflTransGen document.Follows type key →
        document.get? key = some (.typedef typedef) → typedef.indirection = none := by
  rw [isDirect_expand_iff]
  constructor
  · intro hdirect key typedef hkey hnode
    exact hdirect key (mem_through_of_isEnd hreaches hend hkey hnode) typedef hnode
  · intro hdirect key hkey typedef hnode
    exact hdirect key typedef ((document.passes_expand type).between hkey).1 hnode

/-- A chain comes to an end or to a cycle. -/
theorem exists_isEnd_or_loops (document : Document) (type : Key) :
    (∃ target, Relation.ReflTransGen document.Follows type target ∧ document.IsEnd target) ∨
      document.Loops type := by
  have hpasses := document.passes_expand type
  rcases document.isEnd_or_mem_expand type with hend | hback
  · exact .inl ⟨_, hpasses.reaches, hend⟩
  · exact .inr ⟨_, hpasses.between hback⟩

/-! ### Types behind aliases that do not point -/

/-- A type name unfolds to another through aliases of the document none of which points,
whether or not these are in the catalogue. -/
inductive Unfolds (document : Document) : Key → Key → Prop where
  | self (key : Key) : Unfolds document key key
  | through {key target : Key} {typedef : Typedef}
      (hnode : document.get? key = some (.typedef typedef)) (hdirect : typedef.indirection = none)
      (hrest : Unfolds document typedef.target target) : Unfolds document key target

theorem Unfolds.follows {document : Document} {key target : Key}
    (hunfolds : document.Unfolds key target) :
    Relation.ReflTransGen document.Follows key target := by
  induction hunfolds with
  | self key => exact .refl
  | through hnode _ _ ih => exact .head ⟨_, hnode, rfl⟩ ih

theorem Unfolds.trans {document : Document} {first second third : Key}
    (hfirst : document.Unfolds first second) (hsecond : document.Unfolds second third) :
    document.Unfolds first third := by
  induction hfirst with
  | self key => exact hsecond
  | through hnode hdirect _ ih => exact .through hnode hdirect (ih hsecond)

theorem unfolds_of_passes {passed : List Key} {key : Key} (h : document.Passes type passed key)
    (hdirect : ∀ other ∈ passed, document.DirectAt other) : document.Unfolds type key := by
  induction h with
  | start => exact .self type
  | @step passed key target _ _ hfollows ih =>
    obtain ⟨typedef, hnode, rfl⟩ := hfollows
    obtain ⟨hkey, hpassed⟩ := List.forall_mem_cons.mp hdirect
    exact (ih hpassed).trans (.through hnode (hkey typedef hnode) (.self _))

/-- No alias points to which a type name leads that unfolds to an end. -/
theorem Unfolds.directAt {target key : Key} (h : document.Unfolds type target)
    (hend : document.IsEnd target) (hkey : Relation.ReflTransGen document.Follows type key) :
    document.DirectAt key := by
  induction h with
  | self type =>
    obtain rfl := hend.eq_of_reaches hkey
    exact fun typedef hnode ↦ absurd hnode (hend typedef)
  | @through type target typedef hnode hdirect _ ih =>
    rcases Relation.ReflTransGen.cases_head hkey with rfl | ⟨next, hnext, hrest⟩
    · intro other hother
      rw [hnode] at hother
      obtain rfl : typedef = other := by simpa using hother
      exact hdirect
    · obtain rfl := hnext.unique ⟨typedef, hnode, rfl⟩
      exact ih hend hrest

/-- A type name unfolds to what expansion comes to without a pointer on the way. -/
theorem unfolds_iff_expand {target : Key} (hend : document.IsEnd target) :
    document.Unfolds type target ↔
      (document.expand type).target = target ∧ (document.expand type).isDirect = true := by
  constructor
  · intro hunfolds
    refine ⟨target_expand_of_isEnd hunfolds.follows hend, ?_⟩
    rw [isDirect_expand_iff_of_isEnd hunfolds.follows hend]
    exact fun key typedef hkey ↦ hunfolds.directAt hend hkey typedef
  · rintro ⟨rfl, hdirect⟩
    exact unfolds_of_passes (document.passes_expand type)
      ((document.isDirect_expand_iff type).mp hdirect)

end Document

end ApiHeader
