import ApiHeader.Header.Sections
import ApiHeader.Proofs.Checks
import ApiHeader.Proofs.Loading

/-!
# Which type names resolve

`Schema.Resolves` says which type names have a meaning: those of primitives, those of
the catalogue, and those that the document declares to be foreign. Writing a type
fails exactly when its name does not resolve (`checks_resolve`), and writing a
signature when one of the names in it does not (`checks_signature`). The place where a
name is used shows in failures only (`resolve_elsewhere`).
-/

set_option autoImplicit false
set_option relaxedAutoImplicit false

namespace ApiHeader.Schema

/-- A type name is that of a primitive or of a type of the catalogue, or the document
has a native node or one of no known category for it. -/
def Resolves (schema : Schema) (type : String) : Prop :=
  (Primitive.ofName? type).isSome = true ∨ schema.catalogue.contains type = true ∨
    ∃ node, schema.document.get? type = some node ∧
      (node.category = .native ∨ node.category = .other)

/-- The fault of a place that uses a type name without a meaning. -/
def Unresolved (schema : Schema) (type context : String) (e : HeaderError) : Prop :=
  ¬ schema.Resolves type ∧ e = .unresolved type context

/-- One of the places that use type names uses one without a meaning. -/
def Misses (schema : Schema) (refers : String → String → Prop) (e : HeaderError) : Prop :=
  ∃ type context, refers type context ∧ schema.Unresolved type context e

theorem misses_or {schema : Schema} {refers other : String → String → Prop} {e : HeaderError} :
    schema.Misses (fun type context ↦ refers type context ∨ other type context) e ↔
      schema.Misses refers e ∨ schema.Misses other e := by
  simp only [Misses, or_and_right, exists_or]

theorem Misses.ne_cyclic {schema : Schema} {refers : String → String → Prop} {e : HeaderError}
    (h : schema.Misses refers e) {path : List Key} : e ≠ .cyclic path := by
  obtain ⟨type, context, -, -, rfl⟩ := h
  exact nofun

/-- The places of a signature that use type names: what it gives back, and the
arguments that are kept. -/
inductive SignatureRefers (settings : Settings) (returns : Option String)
    (arguments : List Member) (owner : String) : String → String → Prop where
  | result {type : String} (hreturns : returns = some type) :
      SignatureRefers settings returns arguments owner type owner
  | argument {member : Member} (hmember : member ∈ settings.keptMembers arguments) :
      SignatureRefers settings returns arguments owner member.type (owner ++ "." ++ member.name)

variable (schema : Schema)

theorem resolve_cases {type context : String} {written : TypeName}
    (h : schema.resolve type context = .ok written) :
    (∃ p, Primitive.ofName? type = some p ∧ written = .primitive p) ∨
      (∃ entry, schema.catalogue.get? type = some entry ∧ written = .declared entry.name) ∨
      written = .foreign type := by
  unfold resolve at h
  split at h
  · rename_i p hprimitive
    exact .inl ⟨p, hprimitive, (Except.ok.inj h).symm⟩
  · split at h
    · rename_i entry hentry
      exact .inr (.inl ⟨entry, hentry, (Except.ok.inj h).symm⟩)
    · split at h
      · exact .inr (.inr (Except.ok.inj h).symm)
      · exact .inr (.inr (Except.ok.inj h).symm)
      · cases h

theorem resolves_of_resolve {type context : String} {name : TypeName}
    (h : schema.resolve type context = .ok name) : schema.Resolves type := by
  unfold resolve at h
  cases hprimitive : Primitive.ofName? type with
  | some primitive => exact .inl (by rw [hprimitive]; rfl)
  | none =>
    cases hentry : schema.catalogue.get? type with
    | some entry => exact .inr (.inl (Table.contains_iff.mpr ⟨entry, hentry⟩))
    | none =>
      simp only [hprimitive, hentry] at h
      split at h
      · rename_i hcategory
        obtain ⟨node, hnode, hcategory⟩ := Option.map_eq_some_iff.mp hcategory
        exact .inr (.inr ⟨node, hnode, .inl hcategory⟩)
      · rename_i hcategory
        obtain ⟨node, hnode, hcategory⟩ := Option.map_eq_some_iff.mp hcategory
        exact .inr (.inr ⟨node, hnode, .inr hcategory⟩)
      · cases h

theorem unresolved_of_resolve {type context : String} {e : HeaderError}
    (h : schema.resolve type context = .error e) : schema.Unresolved type context e := by
  unfold resolve at h
  split at h
  · cases h
  · rename_i hprimitive
    split at h
    · cases h
    · rename_i hentry
      split at h
      · cases h
      · cases h
      · rename_i hnative hother
        refine ⟨?_, (Except.error.inj h).symm⟩
        rintro (hresolves | hresolves | ⟨node, hnode, hresolves | hresolves⟩)
        · rw [hprimitive] at hresolves
          cases hresolves
        · obtain ⟨entry, hsome⟩ := Table.contains_iff.mp hresolves
          rw [hentry] at hsome
          cases hsome
        · exact hnative (by rw [hnode, Option.map_some, hresolves])
        · exact hother (by rw [hnode, Option.map_some, hresolves])

/-- A type name is refused exactly when it has no meaning. -/
theorem checks_resolve (type context : String) :
    Checks (schema.resolve type context) (schema.Unresolved type context) :=
  ⟨fun _ ↦ schema.unresolved_of_resolve,
    fun _ h _ hfault ↦ hfault.1 (schema.resolves_of_resolve h)⟩

theorem checks_typeRef (type : String) (indirection : Option Indirection) (context : String) :
    Checks (schema.typeRef type indirection context) (schema.Unresolved type context) :=
  (schema.checks_resolve type context).map

theorem checks_returnType (returns : Option String) (context : String) :
    Checks (schema.returnType returns context) fun e ↦
      ∃ type, returns = some type ∧ schema.Unresolved type context e := by
  cases returns with
  | none => exact (Checks.ok _).congr fun e ↦ by simp
  | some type => exact (schema.checks_typeRef type none context).congr fun e ↦ by simp

theorem checks_declarators (owner : String) (members : List Member) :
    Checks (schema.declarators owner members) fun e ↦
      ∃ member ∈ members, schema.Unresolved member.type (owner ++ "." ++ member.name) e :=
  Checks.mapM fun member _ ↦ (schema.checks_typeRef member.type member.indirection _).map

/-- A signature is refused exactly when one of its type names has no meaning. -/
theorem checks_signature {α : Type} (settings : Settings) (returns : Option String)
    (arguments : List Member) (owner : String) (build : TypeRef → List Declarator → α) :
    Checks (do
        let returns ← schema.returnType returns owner
        let parameters ← schema.declarators owner (settings.keptMembers arguments)
        return build returns parameters)
      (schema.Misses (SignatureRefers settings returns arguments owner)) := by
  refine ((schema.checks_returnType returns owner).bind fun _ ↦
    (schema.checks_declarators owner _).map).congr fun e ↦ ?_
  constructor
  · rintro (⟨type, hreturns, hfault⟩ | ⟨member, hmember, hfault⟩)
    · exact ⟨type, owner, .result hreturns, hfault⟩
    · exact ⟨member.type, _, .argument hmember, hfault⟩
  · rintro ⟨_, _, hreturns | hmember, hfault⟩
    · exact .inl ⟨_, hreturns, hfault⟩
    · exact .inr ⟨_, hmember, hfault⟩

/-! ### Places -/

variable {schema} {context owner : String}

/-- A type name that has a meaning has the same meaning in another place. -/
theorem resolve_elsewhere {type : String} {name : TypeName}
    (hok : schema.resolve type context = .ok name) (other : String) :
    schema.resolve type other = .ok name := by
  revert hok
  unfold resolve
  cases Primitive.ofName? type with
  | some primitive => exact id
  | none =>
    cases schema.catalogue.get? type with
    | some entry => exact id
    | none =>
      -- only here does the place matter, and only for categories that are not foreign
      cases (schema.document.get? type).map Node.category with
      | none =>
        intro hok
        cases hok
      | some category =>
        cases category with
        | native => exact id
        | other => exact id
        | _ =>
          intro hok
          cases hok

theorem typeRef_elsewhere {type : String} {indirection : Option Indirection} {written : TypeRef}
    (hok : schema.typeRef type indirection context = .ok written) (other : String) :
    schema.typeRef type indirection other = .ok written := by
  obtain ⟨name, hname, hok⟩ := bind_eq_ok_iff.mp hok
  exact bind_eq_ok_iff.mpr ⟨name, resolve_elsewhere hname other, hok⟩

theorem returnType_elsewhere {returns : Option String} {written : TypeRef}
    (hok : schema.returnType returns context = .ok written) (other : String) :
    schema.returnType returns other = .ok written := by
  cases returns with
  | none => exact hok
  | some type => exact typeRef_elsewhere hok other

theorem declarators_elsewhere {members : List Member} {written : List Declarator}
    (hok : schema.declarators owner members = .ok written) (other : String) :
    schema.declarators other members = .ok written := by
  refine mapM_eq_ok_iff.mpr ((mapM_eq_ok_iff.mp hok).imp fun member declarator hmember ↦ ?_)
  obtain ⟨type, htype, hmember⟩ := bind_eq_ok_iff.mp hmember
  exact bind_eq_ok_iff.mpr ⟨type, typeRef_elsewhere htype _, hmember⟩

end ApiHeader.Schema
