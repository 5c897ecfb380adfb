import ApiHeader.Proofs.LastValues

/-!
# The order of fields

Two values agree (`Json.Value.Agrees`) if they differ, at every depth, only in the order of the
fields of objects and in earlier values of repeated fields. A type looks at the fields of an
object by their names, so it is the same for values that agree, and so is what is told where a
value does not have it (`Typing.Respects`, `Typing.node_congr`). Hence texts with the same keys
and values that agree are the same document, or fail alike (`Document.field_order_immaterial`).
-/

set_option autoImplicit false
set_option relaxedAutoImplicit false

namespace ApiHeader

/-! ### Values that agree -/

namespace Json

/-- Equal up to the order of fields and earlier values of repeated fields, at every depth. -/
inductive Value.Agrees : Value → Value → Prop where
  | null : Agrees .null .null
  | bool (b : Bool) : Agrees (.bool b) (.bool b)
  | number (n : Number) : Agrees (.number n) (.number n)
  | string (s : String) : Agrees (.string s) (.string s)
  | array {items others : List Value} (h : List.Forall₂ Agrees items others) :
      Agrees (.array items) (.array others)
  | object {members others : Members}
      (h : ∀ name, Option.Rel Agrees (members.last? name) (others.last? name)) :
      Agrees (.object members) (.object others)

/-- Every name has values that agree, or none in either. -/
def Members.Agree (members others : Members) : Prop :=
  ∀ name, Option.Rel Value.Agrees (members.last? name) (others.last? name)

namespace Members

variable {members others : Members} {name : String} {value : Value}

/-- A pair in front counts only where its name does not come again. -/
theorem last?_cons (other : String) (value : Value) (rest : Members) (name : String) :
    last? ((other, value) :: rest) name =
      (last? rest name).or (if other = name then some value else none) := by
  have hfound (members : Members) (found : Option Value) :
      members.foldl (fun found entry ↦ if entry.1 = name then some entry.2 else found) found =
        (members.last? name).or found := by
    induction members generalizing found with
    | nil => rfl
    | cons entry rest ih =>
      show rest.foldl _ _ = Option.or (rest.foldl _ _) found
      rw [ih, ih (if entry.1 = name then some entry.2 else none), Option.or_assoc]
      by_cases hname : entry.1 = name <;> simp [hname]
  exact hfound rest _

theorem last?_eq_none_iff : members.last? name = none ↔ name ∉ members.map Prod.fst := by
  induction members with
  | nil => simp [last?]
  | cons entry rest ih =>
    rw [last?_cons, Option.or_eq_none_iff, ih, List.map_cons, List.mem_cons, not_or, and_comm]
    simp only [ite_eq_right_iff, reduceCtorEq, imp_false, eq_comm (a := name)]

theorem mem_of_last? (h : members.last? name = some value) : (name, value) ∈ members := by
  induction members with
  | nil => cases h
  | cons entry rest ih =>
    rw [last?_cons, Option.or_eq_some_iff] at h
    rcases h with h | ⟨-, h⟩
    · exact List.mem_cons_of_mem entry (ih h)
    · by_cases hname : entry.1 = name
      · rw [if_pos hname] at h
        rw [← hname, ← Option.some.inj h]
        exact List.mem_cons_self
      · rw [if_neg hname] at h
        cases h

/-- An earlier value of a name that comes again does not count. -/
theorem last?_append_cons_of_mem {front back : Members} {other : String}
    (hother : other ∈ back.map Prod.fst) (value : Value) (name : String) :
    last? (front ++ (other, value) :: back) name = last? (front ++ back) name := by
  induction front with
  | nil =>
    rw [List.nil_append, List.nil_append, last?_cons]
    by_cases hname : other = name
    · have hlast : last? back name ≠ none := by
        rw [ne_eq, last?_eq_none_iff, not_not]
        exact hname ▸ hother
      obtain ⟨last, hlast⟩ := Option.ne_none_iff_exists'.mp hlast
      rw [hlast, Option.some_or]
    · rw [if_neg hname, Option.or_none]
  | cons entry front ih =>
    rw [List.cons_append, List.cons_append, last?_cons, last?_cons, ih]

/-- The order of names that do not repeat does not count. -/
theorem last?_eq_of_perm (hnames : (members.map Prod.fst).Nodup) (hperm : members.Perm others)
    (name : String) : members.last? name = others.last? name := by
  cases hlast : others.last? name with
  | none =>
    rw [last?_eq_none_iff] at hlast ⊢
    rw [(hperm.map Prod.fst).mem_iff]
    exact hlast
  | some value =>
    have hvalue : (name, value) ∈ members := hperm.mem_iff.mpr (mem_of_last? hlast)
    cases hfirst : members.last? name with
    | none =>
      rw [last?_eq_none_iff] at hfirst
      exact absurd (List.mem_map_of_mem hvalue) hfirst
    | some first =>
      have hpair : (name, first) = (name, value) :=
        List.inj_on_of_nodup_map hnames (mem_of_last? hfirst) hvalue rfl
      rw [(Prod.mk.inj hpair).2]

end Members

namespace Value

theorem Agrees.refl (value : Value) : value.Agrees value := by
  -- Values are nested in lists, so the induction is on their size.
  induction hsize : sizeOf value using Nat.strongRecOn generalizing value with
  | ind size ih =>
    subst hsize
    cases value with
    | null => exact .null
    | bool b => exact .bool b
    | number n => exact .number n
    | string s => exact .string s
    | array items =>
      apply Agrees.array
      rw [List.forall₂_same]
      intro item hitem
      have hlt := List.sizeOf_lt_of_mem hitem
      exact ih (sizeOf item) (by simp only [array.sizeOf_spec]; omega) item rfl
    | object members =>
      apply Agrees.object
      intro name
      cases hlast : Members.last? members name with
      | none => exact .none
      | some value =>
        have hlt := List.sizeOf_lt_of_mem (Members.mem_of_last? hlast)
        simp only [Prod.mk.sizeOf_spec] at hlt
        exact .some (ih (sizeOf value) (by simp only [object.sizeOf_spec]; omega) value rfl)

/-- Objects with the same last values agree. -/
theorem agrees_of_last?_eq {members others : Members}
    (h : ∀ name, members.last? name = others.last? name) :
    (object members).Agrees (object others) := by
  apply Agrees.object
  intro name
  rw [h name]
  cases others.last? name with
  | none => exact .none
  | some value => exact .some (.refl value)

/-- Values that may be absent agree if both are, or if both are there and agree. -/
theorem rel_cases {found other : Option Value} (h : Option.Rel Agrees found other) :
    found = none ∧ other = none ∨
      ∃ value last, found = some value ∧ other = some last ∧ value.Agrees last := by
  cases h with
  | none => exact .inl ⟨rfl, rfl⟩
  | some hvalues => exact .inr ⟨_, _, rfl, rfl, hvalues⟩

end Value

/-! ### A test for agreement -/

/-- Equal numbers; doubles are left out. -/
def Number.same : Number → Number → Bool
  | .natural m, .natural n => m = n
  | .negative m, .negative n => m = n
  | _, _ => false

theorem Number.eq_of_same {m n : Number} (h : m.same n = true) : m = n := by
  cases m <;> cases n <;> simp_all [Number.same]

namespace Value

/-- Agreement of two values, with a test for the values inside them. -/
def agreesBy (test : Value → Value → Bool) : Value → Value → Bool
  | .null, .null => true
  | .bool b, .bool c => b = c
  | .number m, .number n => m.same n
  | .string s, .string t => s = t
  | .array items, .array others =>
    items.length = others.length && (items.zip others).all fun pair ↦ test pair.1 pair.2
  | .object members, .object others =>
    (members.map Prod.fst ++ others.map Prod.fst).all fun name ↦
      match Members.last? members name, Members.last? others name with
      | some value, some other => test value other
      | _, _ => false
  | _, _ => false

/-- Tests agreement of values that are nested less deep. -/
def agreesWithin : Nat → Value → Value → Bool
  | 0 => fun _ _ ↦ false
  | depth + 1 => agreesBy (agreesWithin depth)

theorem agrees_of_agreesBy {test : Value → Value → Bool} {value other : Value}
    (htest : ∀ value other, test value other = true → value.Agrees other)
    (h : agreesBy test value other = true) : value.Agrees other := by
  cases value with
  | null =>
    cases other with
    | null => exact .null
    | _ => cases h
  | bool b =>
    cases other with
    | bool c => exact of_decide_eq_true h ▸ .bool b
    | _ => cases h
  | number m =>
    cases other with
    | number n => exact Number.eq_of_same h ▸ .number m
    | _ => cases h
  | string s =>
    cases other with
    | string t => exact of_decide_eq_true h ▸ .string s
    | _ => cases h
  | array items =>
    cases other with
    | array others =>
      simp only [agreesBy, Bool.and_eq_true, decide_eq_true_eq, List.all_eq_true] at h
      apply Agrees.array
      rw [List.forall₂_iff_zip]
      refine ⟨h.1, ?_⟩
      intro item other hmem
      exact htest item other (h.2 (item, other) hmem)
    | _ => cases h
  | object members =>
    cases other with
    | object others =>
      simp only [agreesBy, List.all_eq_true, List.mem_append] at h
      apply Agrees.object
      intro name
      by_cases hname : name ∈ members.map Prod.fst ∨ name ∈ others.map Prod.fst
      · have htested := h name hname
        split at htested
        next value other hvalue hother =>
          rw [hvalue, hother]
          exact .some (htest value other htested)
        next => cases htested
      · rw [not_or, ← Members.last?_eq_none_iff, ← Members.last?_eq_none_iff] at hname
        rw [hname.1, hname.2]
        exact .none
    | _ => cases h

theorem agrees_of_agreesWithin {depth : Nat} {value other : Value}
    (h : agreesWithin depth value other = true) : value.Agrees other := by
  induction depth generalizing value other with
  | zero => cases h
  | succ depth ih => exact agrees_of_agreesBy (fun _ _ ↦ ih) h

end Value

end Json

/-! ### Types respect agreement -/

namespace Typing

open Json (Value Members)

/-- The type of a value, or what is wrong with it, is the same for values that agree. -/
def Respects {α : Type} (typed : Typed α) : Prop :=
  ∀ value other : Value, value.Agrees other → typed value = typed other

section Respects

variable {α : Type} {typed : Typed α}

/-- A type that does not look into arrays and objects respects agreement. -/
theorem respects_of_flat (harray : ∀ items others, typed (.array items) = typed (.array others))
    (hobject : ∀ members others, typed (.object members) = typed (.object others)) :
    Respects typed := by
  intro value other h
  cases h with
  | array h => exact harray _ _
  | object h => exact hobject _ _
  | _ => rfl

theorem respects_string : Respects string :=
  respects_of_flat (fun _ _ ↦ rfl) fun _ _ ↦ rfl

theorem respects_indirection : Respects indirection :=
  respects_of_flat (fun _ _ ↦ rfl) fun _ _ ↦ rfl

theorem respects_word : Respects word :=
  respects_of_flat (fun _ _ ↦ rfl) fun _ _ ↦ rfl

theorem respects_direction : Respects direction :=
  respects_of_flat (fun _ _ ↦ rfl) fun _ _ ↦ rfl

theorem respects_literal : Respects literal :=
  respects_of_flat (fun _ _ ↦ rfl) fun _ _ ↦ rfl

theorem Respects.optional (htyped : Respects typed) : Respects (optional typed) := by
  intro value other h
  have heq : some <$> typed value = some <$> typed other :=
    congrArg (some <$> ·) (htyped value other h)
  cases h with
  | null => rfl
  | _ => exact heq

theorem Respects.sequence (htyped : Respects typed) : Respects (sequence typed) := by
  intro value other h
  cases h with
  | array h => exact mapM_eq_of_forall₂ (h.imp htyped)
  | _ => rfl

theorem respects_tags : Respects tags :=
  respects_string.sequence

end Respects

/-! ### Fields of objects that agree -/

section Fields

variable {α : Type} {typed : Typed α} {members others : Members}

theorem field?_congr (h : members.Agree others) (htyped : Respects typed) (name : String) :
    field? members name typed = field? others name typed := by
  rcases Value.rel_cases (h name) with ⟨hfound, hother⟩ | ⟨value, last, hfound, hother, hvalues⟩
  · simp only [field?, hfound, hother]
  · simp only [field?, hfound, hother, htyped value last hvalues]

theorem fieldD_congr (h : members.Agree others) (htyped : Respects typed) (name : String)
    (absent : α) : fieldD members name typed absent = fieldD others name typed absent := by
  unfold fieldD
  rw [field?_congr h htyped]

end Fields

/-! ### Elements of arrays that agree -/

section Elements

variable {α : Type} {typed : Typed α} {items others : List Value}

theorem rel_getElem? (h : List.Forall₂ Value.Agrees items others) (index : Nat) :
    Option.Rel Value.Agrees items[index]? others[index]? := by
  induction h generalizing index with
  | nil => exact .none
  | cons hhead _ ih =>
    cases index with
    | zero => exact .some hhead
    | succ index => exact ih index

theorem element_congr (h : List.Forall₂ Value.Agrees items others) (htyped : Respects typed)
    (part : Part) (index : Nat) :
    element part items index typed = element part others index typed := by
  rcases Value.rel_cases (rel_getElem? h index) with
    ⟨hfound, hother⟩ | ⟨value, last, hfound, hother, hvalues⟩
  · simp only [element, hfound, hother]
  · simp only [element, hfound, hother, htyped value last hvalues]

theorem elementD_congr (h : List.Forall₂ Value.Agrees items others) (htyped : Respects typed)
    (index : Nat) (absent : α) :
    elementD items index typed absent = elementD others index typed absent := by
  rcases Value.rel_cases (rel_getElem? h index) with
    ⟨hfound, hother⟩ | ⟨value, last, hfound, hother, hvalues⟩
  · simp only [elementD, hfound, hother]
  · simp only [elementD, hfound, hother, htyped value last hvalues]

theorem checkLength_congr (h : List.Forall₂ Value.Agrees items others) (part : Part) :
    checkLength part items = checkLength part others := by
  unfold checkLength
  rw [h.length_eq]

end Elements

/-! ### Parts of nodes and nodes -/

theorem respects_member : Respects member := by
  intro value other h
  cases h with
  | object h =>
    simp only [member, fieldD_congr h respects_indirection.optional,
      field?_congr h respects_string, fieldD_congr h respects_tags]
  | array h =>
    simp only [member, element_congr h respects_string, elementD_congr h respects_tags,
      elementD_congr h respects_indirection.optional, checkLength_congr h]
  | _ => rfl

theorem respects_method : Respects method := by
  intro value other h
  cases h with
  | object h =>
    simp only [method, fieldD_congr h respects_member.sequence, field?_congr h respects_string,
      fieldD_congr h respects_string.optional, fieldD_congr h respects_tags]
  | array h =>
    simp only [method, element_congr h respects_string, elementD_congr h respects_tags,
      elementD_congr h respects_string.optional, elementD_congr h respects_member.sequence,
      checkLength_congr h]
  | _ => rfl

theorem respects_enumItem : Respects enumItem := by
  intro value other h
  cases h with
  | object h =>
    simp only [enumItem, field?_congr h respects_string, fieldD_congr h respects_tags,
      fieldD_congr h respects_word.optional]
  | array h =>
    simp only [enumItem, element_congr h respects_string, elementD_congr h respects_tags,
      elementD_congr h respects_word.optional, checkLength_congr h]
  | _ => rfl

section Node

variable {members others : Members} (h : members.Agree others)

include h

theorem record_congr : record members = record others := by
  simp only [record, fieldD_congr h respects_direction, fieldD_congr h respects_tags,
    fieldD_congr h respects_member.sequence]

theorem object_congr : object members = object others := by
  simp only [object, fieldD_congr h respects_method.sequence, fieldD_congr h respects_tags]

theorem enumeration_congr : enumeration members = enumeration others := by
  simp only [enumeration, fieldD_congr h respects_enumItem.sequence,
    fieldD_congr h respects_tags]

theorem signature_congr : signature members = signature others := by
  simp only [signature, fieldD_congr h respects_member.sequence, fieldD_congr h respects_tags,
    fieldD_congr h respects_string.optional]

theorem typedef_congr : typedef members = typedef others := by
  simp only [typedef, fieldD_congr h respects_indirection.optional,
    fieldD_congr h respects_tags, field?_congr h respects_string]

theorem constant_congr : constant members = constant others := by
  simp only [constant, fieldD_congr h respects_tags, field?_congr h respects_string,
    field?_congr h respects_literal]

theorem category_congr : category members = category others := by
  unfold category
  rcases Value.rel_cases (h "category") with
    ⟨hfound, hother⟩ | ⟨value, last, hfound, hother, hvalues⟩
  · rw [hfound, hother]
  · rw [hfound, hother]
    cases hvalues <;> rfl

theorem node_congr : node members = node others := by
  unfold node
  rw [category_congr h, record_congr h, object_congr h, enumeration_congr h, signature_congr h,
    typedef_congr h, constant_congr h, fieldD_congr h respects_tags]

end Node

end Typing

/-! ### Documents -/

namespace Document

open Json (Value Members)

theorem readNode_congr {value other : Value} (h : value.Agrees other) (key : Key) :
    readNode key value = readNode key other := by
  cases h with
  | object h => simp only [readNode, Typing.node_congr h]
  | _ => rfl

theorem readLast_congr {members others : Members} {key : Key}
    (h : Option.Rel Value.Agrees (members.last? key) (others.last? key)) :
    readLast members key = readLast others key := by
  rcases Value.rel_cases h with ⟨hfound, hother⟩ | ⟨value, last, hfound, hother, hvalues⟩
  · simp only [readLast, hfound, hother]
  · simp only [readLast, hfound, hother, readNode_congr hvalues]

/-- Texts with the same keys in the same order, whose nodes agree, are read alike: as the same
document, or with the same error. Objects agree if their fields come in another order, and if an
earlier value of a repeated field is left out. -/
theorem field_order_immaterial :
    (∀ {text other : String} {members rest : Members},
      Json.readMembers text = .ok members → Json.readMembers other = .ok rest →
      members.map Prod.fst = rest.map Prod.fst →
      (∀ key, isPrivate key = false →
        Option.Rel Value.Agrees (members.last? key) (rest.last? key)) →
      read text = read other) ∧
    (∀ {fields others : Members}, (fields.map Prod.fst).Nodup → fields.Perm others →
      (Value.object fields).Agrees (.object others)) ∧
    (∀ {front back : Members} {name : String} (value : Value), name ∈ back.map Prod.fst →
      (Value.object (front ++ (name, value) :: back)).Agrees (.object (front ++ back))) := by
  refine ⟨?_, ?_, ?_⟩
  · intro text other members rest hmembers hrest hkeys hvalues
    rw [read_of_readMembers hmembers, read_of_readMembers hrest]
    apply ofMembers_congr
    · unfold Members.publicKeys Members.keys
      rw [hkeys]
    · intro key hkey
      exact readLast_congr (hvalues key (mem_publicKeys_iff.mp hkey).1)
  · intro fields others hnames hperm
    exact Value.agrees_of_last?_eq (Members.last?_eq_of_perm hnames hperm)
  · intro front back name value hname
    exact Value.agrees_of_last?_eq (Members.last?_append_cons_of_mem hname value)

def orderlyText : String :=
  "\x7b\"o\":\x7b\"category\":\"object\",\"methods\":[\x7b\"args\":[" ++
    "\x7b\"name\":\"n\",\"type\":\"t\"\x7d],\"name\":\"m\"\x7d]\x7d\x7d"

/-- The same with fields in other orders, and with a name that is a number before it is a
string. -/
def disorderlyText : String :=
  "\x7b\"o\":\x7b\"methods\":[\x7b\"name\":7,\"args\":[" ++
    "\x7b\"type\":\"t\",\"name\":\"n\"\x7d],\"name\":\"m\"\x7d],\"category\":\"object\"\x7d\x7d"

theorem read_disorderlyText :
    read orderlyText = read disorderlyText ∧ (read orderlyText).isOk = true := by
  -- The texts are read once, for all that is to be known of their members.
  have htexts : (Json.readMembers orderlyText >>= fun members ↦
      Json.readMembers disorderlyText >>= fun rest ↦
        pure (members.map Prod.fst, rest.map Prod.fst, (ofMembers members).isOk,
          Value.agreesWithin 7 (.object members) (.object rest))) =
      .ok (["o"], ["o"], true, true) := by
    decide +kernel
  obtain ⟨members, hmembers, htexts⟩ := bind_eq_ok_iff.mp htexts
  obtain ⟨rest, hrest, htexts⟩ := bind_eq_ok_iff.mp htexts
  replace htexts := Except.ok.inj htexts
  simp only [Prod.mk.injEq] at htexts
  obtain ⟨hkeys, hkeysRest, hok, htest⟩ := htexts
  constructor
  · apply field_order_immaterial.1 hmembers hrest (hkeys.trans hkeysRest.symm)
    intro key _
    cases Value.agrees_of_agreesWithin htest with
    | object h => exact h key
  · rw [read_of_readMembers hmembers]
    exact hok

end Document

end ApiHeader
