import ApiHeader.Document.Basic
import Mathlib.Data.List.Nodup

/-!
# Names that clash

A document lists names: the members of a record, the arguments of a function, the values
of an enumeration, the methods of an object and the arguments of each method. There is no
clash exactly if in each of these lists all names are spelled differently
(`clash?_eq_none_iff`). Otherwise the clash is that of the first name, in the order of the
document, that is spelled as an earlier name of the same list (`first_clash_told`).

The checks carry the spellings they have seen in one list only. `Clash.Finds` compares
such a check with all names in front of it, and follows the checks in their order.
-/

set_option autoImplicit false
set_option relaxedAutoImplicit false

namespace ApiHeader

/-! ### Nodes without a clash -/

/-- The names in each list of a node are spelled differently. -/
def Node.NamesDistinct : Node → Prop
  | .record r | .callbackInfo r => (r.members.map fun m ↦ Text.camelCase m.name).Nodup
  | .object o => (o.methods.map fun m ↦ Text.camelCase m.name).Nodup ∧
      ∀ method ∈ o.methods, (method.arguments.map fun a ↦ Text.camelCase a.name).Nodup
  | .enumeration e | .bitmask e => (e.items.map fun i ↦ Text.valueCase i.name).Nodup
  | .functionPointer s | .callback s | .function s =>
    (s.arguments.map fun a ↦ Text.camelCase a.name).Nodup
  | .typedef _ | .constant _ | .native _ | .other => True

namespace Clash

theorem repeated?_eq_none_iff {spell : String → String} {seen names : List String} :
    repeated? spell seen names = none ↔
      (names.map spell).Nodup ∧ ∀ name ∈ names, spell name ∉ seen := by
  induction names generalizing seen with
  | nil => simp [repeated?]
  | cons name names ih =>
    rw [repeated?]
    by_cases hseen : spell name ∈ seen
    · simp [hseen]
    · rw [if_neg hseen, ih, List.map_cons, List.nodup_cons, List.forall_mem_cons]
      have hfirst : spell name ∉ names.map spell ↔ ∀ other ∈ names, spell other ≠ spell name := by
        simp
      simp only [hfirst, List.mem_cons, not_or, forall_and, hseen, not_false_eq_true, true_and]
      tauto

/-- The spellings that are compared are those of one list, from its start. -/
theorem repeated?_nil_eq_none_iff {α : Type} {spell : String → String} {name : α → String}
    {listed : List α} :
    repeated? spell [] (listed.map name) = none ↔ (listed.map fun a ↦ spell (name a)).Nodup := by
  simp [repeated?_eq_none_iff, Function.comp_def]

/-- The methods of an object are checked as one list, and the arguments of each as another. -/
theorem methods?_eq_none_iff {owner : String} {seen : List String} {methods : List Method} :
    methods? owner seen methods = none ↔
      repeated? Text.camelCase seen (methods.map Method.name) = none ∧
        ∀ method ∈ methods, arguments? (owner ++ "." ++ method.name) method.arguments = none := by
  induction methods generalizing seen with
  | nil => simp [methods?, repeated?]
  | cons first rest ih =>
    rw [methods?, List.map_cons, repeated?, List.forall_mem_cons]
    by_cases hseen : Text.camelCase first.name ∈ seen
    · simp [hseen]
    · simp only [if_neg hseen]
      cases arguments? (owner ++ "." ++ first.name) first.arguments with
      | some clash => simp
      | none => simpa using ih

theorem node?_eq_none_iff {key : Key} {node : Node} :
    node? key node = none ↔ node.NamesDistinct := by
  cases node <;>
    simp [node?, Node.NamesDistinct, members?, arguments?, items?, methods?_eq_none_iff,
      repeated?_nil_eq_none_iff]

end Clash

/-- A document has no clash exactly if each of its nodes has none. -/
theorem Document.clash?_eq_none_iff {document : Document} :
    document.clash? = none ↔ ∀ declared ∈ document.entries, declared.2.NamesDistinct := by
  rw [clash?, List.findSome?_eq_none_iff]
  exact forall₂_congr fun declared _ ↦ Clash.node?_eq_none_iff

/-! ### Names in the order of the document -/

/-- A list of names of a document. The arguments of methods are listed method by method. -/
inductive Roster where
  | members (owner : Key)
  | arguments (owner : Key)
  | items (owner : Key)
  | methods (owner : Key)
  | methodArguments (owner : Key) (place : Nat) (method : String)
  deriving DecidableEq, Repr

namespace Roster

/-- The key of the node with a list. -/
def owner : Roster → Key
  | .members owner | .arguments owner | .items owner | .methods owner
  | .methodArguments owner _ _ => owner

/-- How the names in a list are spelled. -/
def spell : Roster → String → String
  | .items _ => Text.valueCase
  | .members _ | .arguments _ | .methods _ | .methodArguments .. => Text.camelCase

/-- The clash of a name with an earlier one of the same list. -/
def clash : Roster → String → Clash
  | .members owner => (.member · owner)
  | .arguments owner => (.argument · owner)
  | .items owner => (.enumItem · owner)
  | .methods owner => (.method · owner)
  | .methodArguments owner _ method => (.argument · (owner ++ "." ++ method))

end Roster

/-- A name and the list that it is in. -/
structure Listed where
  roster : Roster
  name : String
  deriving DecidableEq, Repr

namespace Listed

/-- What two names that clash have in common: the list and the spelling. -/
def mark (listed : Listed) : Roster × String :=
  (listed.roster, listed.roster.spell listed.name)

def clash (listed : Listed) : Clash :=
  listed.roster.clash listed.name

end Listed

/-- The name of a method, and then its arguments. -/
def Method.listed (owner : Key) (place : Nat) (method : Method) : List Listed :=
  ⟨.methods owner, method.name⟩ ::
    (method.arguments.map Member.name).map (Listed.mk (.methodArguments owner place method.name))

/-- The names that a node lists, in order. -/
def Node.listed (key : Key) : Node → List Listed
  | .record r | .callbackInfo r => (r.members.map Member.name).map (Listed.mk (.members key))
  | .object o => o.methods.zipIdx.flatMap fun entry ↦ entry.1.listed key entry.2
  | .enumeration e | .bitmask e => (e.items.map EnumItem.name).map (Listed.mk (.items key))
  | .functionPointer s | .callback s | .function s =>
    (s.arguments.map Member.name).map (Listed.mk (.arguments key))
  | .typedef _ | .constant _ | .native _ | .other => []

def Document.listed (document : Document) : List Listed :=
  document.entries.flatMap fun declared ↦ declared.2.listed declared.1

/-- The first of some names that clashes with one before it. -/
def FirstRepeat (names : List Listed) (listed : Listed) : Prop :=
  ∃ front back, names = front ++ listed :: back ∧ (front.map Listed.mark).Nodup ∧
    listed.mark ∈ front.map Listed.mark

namespace FirstRepeat

variable {names more : List Listed} {first second : Listed}

theorem append (h : FirstRepeat names first) (more : List Listed) :
    FirstRepeat (names ++ more) first := by
  obtain ⟨front, back, rfl, hrest⟩ := h
  exact ⟨front, back ++ more, by simp, hrest⟩

theorem not_nodup (h : FirstRepeat names first) : ¬ (names.map Listed.mark).Nodup := by
  obtain ⟨front, back, rfl, -, hmark⟩ := h
  intro hnodup
  rw [List.map_append] at hnodup
  exact List.disjoint_of_nodup_append hnodup hmark List.mem_cons_self

/-- A repetition after the first is not the first. -/
theorem unique (hfirst : FirstRepeat names first) (hsecond : FirstRepeat names second) :
    first = second := by
  obtain ⟨front, back, rfl, hnodup, hmark⟩ := hfirst
  obtain ⟨other, rest, hsplit, hnodup', hmark'⟩ := hsecond
  rcases List.append_eq_append_iff.mp hsplit with ⟨between, rfl, hback⟩ | ⟨between, rfl, hback⟩
  · cases between with
    | nil => exact (List.cons.inj hback).1
    | cons listed between =>
      obtain ⟨rfl, -⟩ := List.cons.inj hback
      exact absurd hnodup' (not_nodup ⟨front, between, rfl, hnodup, hmark⟩)
  · cases between with
    | nil => exact (List.cons.inj hback).1.symm
    | cons listed between =>
      obtain ⟨rfl, -⟩ := List.cons.inj hback
      exact absurd hnodup (not_nodup ⟨other, between, rfl, hnodup', hmark'⟩)

end FirstRepeat

/-! ### The checks in their order -/

namespace Clash

/-- What a check of further names finds, after names in front that do not clash. -/
structure Finds (front : List Listed) (found : Option Clash) (names : List Listed) : Prop where
  distinct : found = none → ((front ++ names).map Listed.mark).Nodup
  repeats : ∀ clash, found = some clash →
    ∃ listed, FirstRepeat (front ++ names) listed ∧ listed.clash = clash

variable {front names more : List Listed} {found next : Option Clash}

theorem Finds.nil (hfront : (front.map Listed.mark).Nodup) : Finds front none [] where
  distinct := by
    intro _
    rwa [List.append_nil]
  repeats := by
    intro clash h
    cases h

/-- A check goes on where the one before it found nothing. -/
theorem Finds.append (hfound : Finds front found names)
    (hnext : ((front ++ names).map Listed.mark).Nodup → Finds (front ++ names) next more) :
    Finds front (found.or next) (names ++ more) := by
  cases found with
  | none =>
    have hafter := hnext (hfound.distinct rfl)
    constructor
    · intro hnone
      rw [← List.append_assoc]
      exact hafter.distinct hnone
    · intro clash hclash
      rw [← List.append_assoc]
      exact hafter.repeats clash hclash
  | some clash =>
    constructor
    · intro hnone
      cases hnone
    · intro other hother
      obtain ⟨listed, hrepeat, hlisted⟩ := hfound.repeats other hother
      rw [← List.append_assoc]
      exact ⟨listed, hrepeat.append more, hlisted⟩

theorem Finds.single (listed : Listed) {taken : Prop} [Decidable taken]
    (hfront : (front.map Listed.mark).Nodup)
    (htaken : taken ↔ listed.mark ∈ front.map Listed.mark) :
    Finds front (if taken then some listed.clash else none) [listed] := by
  by_cases h : taken
  · rw [if_pos h]
    constructor
    · intro hnone
      cases hnone
    · intro clash hclash
      exact ⟨listed, ⟨front, [], rfl, hfront, htaken.mp h⟩, Option.some.inj hclash⟩
  · rw [if_neg h]
    constructor
    · intro _
      rw [List.map_append, List.map_singleton, ← List.concat_eq_append]
      exact hfront.concat (mt htaken.mpr h)
    · intro clash hclash
      cases hclash

/-- No name has the mark of a list that it is not in. -/
theorem notMem_marks {roster : Roster} (hfresh : ∀ listed ∈ front, listed.roster ≠ roster)
    (spelling : String) : (roster, spelling) ∉ front.map Listed.mark := by
  intro hmem
  obtain ⟨listed, hlisted, hmark⟩ := List.mem_map.mp hmem
  exact hfresh listed hlisted (Prod.mk.inj hmark).1

theorem mem_marks_concat {roster : Roster} {name spelling : String} :
    (roster, spelling) ∈ (front ++ [Listed.mk roster name]).map Listed.mark ↔
      spelling = roster.spell name ∨ (roster, spelling) ∈ front.map Listed.mark := by
  rw [List.map_append, List.mem_append, List.map_singleton, List.mem_singleton, Listed.mark,
    Prod.mk.injEq, or_comm]
  simp

/-- The check of one list, when the spellings seen are those of its names in front. -/
theorem finds_repeated? (roster : Roster) {seen texts : List String}
    (hfront : (front.map Listed.mark).Nodup)
    (hseen : ∀ spelling, spelling ∈ seen ↔ (roster, spelling) ∈ front.map Listed.mark) :
    Finds front ((repeated? roster.spell seen texts).map roster.clash)
      (texts.map (Listed.mk roster)) := by
  induction texts generalizing seen front with
  | nil => exact Finds.nil hfront
  | cons name texts ih =>
    have hstep : (repeated? roster.spell seen (name :: texts)).map roster.clash =
        (if roster.spell name ∈ seen then some (Listed.mk roster name).clash else none).or
          ((repeated? roster.spell (roster.spell name :: seen) texts).map roster.clash) := by
      rw [repeated?]
      split <;> rfl
    rw [hstep]
    refine (Finds.single _ hfront (hseen _)).append fun hfront ↦ ih hfront fun spelling ↦ ?_
    rw [mem_marks_concat, ← hseen, List.mem_cons]

/-- The check of a list that no name in front is in. -/
theorem finds_roster (roster : Roster) (texts : List String)
    (hfront : (front.map Listed.mark).Nodup)
    (hfresh : ∀ listed ∈ front, listed.roster ≠ roster) :
    Finds front ((repeated? roster.spell [] texts).map roster.clash)
      (texts.map (Listed.mk roster)) :=
  finds_repeated? roster hfront fun spelling ↦
    iff_of_false List.not_mem_nil (notMem_marks hfresh spelling)

theorem mem_marks_method {key : Key} {place : Nat} {method : Method} {spelling : String} :
    (Roster.methods key, spelling) ∈ (method.listed key place).map Listed.mark ↔
      spelling = Text.camelCase method.name := by
  have harguments : (Roster.methods key, spelling) ∉ ((method.arguments.map Member.name).map
      (Listed.mk (.methodArguments key place method.name))).map Listed.mark := by
    refine notMem_marks (fun listed hlisted hroster ↦ ?_) spelling
    obtain ⟨name, -, rfl⟩ := List.mem_map.mp hlisted
    cases hroster
  rw [Method.listed, List.map_cons, List.mem_cons, or_iff_left harguments, Listed.mark,
    Prod.mk.injEq, and_iff_right rfl]
  rfl

theorem place_of_mem_method {key : Key} {place earlier : Nat} {method : Method} {listed : Listed}
    {name : String} (hlisted : listed ∈ method.listed key place)
    (hroster : listed.roster = .methodArguments key earlier name) : earlier = place := by
  rcases List.mem_cons.mp hlisted with rfl | hlisted
  · cases hroster
  · obtain ⟨text, -, rfl⟩ := List.mem_map.mp hlisted
    cases hroster
    rfl

/-- The check of one method, when the spellings seen are those of the methods in front. The
arguments in front are those of methods at earlier places. -/
theorem finds_method {key : Key} {seen : List String} {place : Nat} (method : Method)
    (hfront : (front.map Listed.mark).Nodup)
    (hseen : ∀ spelling, spelling ∈ seen ↔
      (Roster.methods key, spelling) ∈ front.map Listed.mark)
    (hplace : ∀ listed ∈ front, ∀ earlier name,
      listed.roster = .methodArguments key earlier name → earlier < place) :
    Finds front
      ((if Text.camelCase method.name ∈ seen then some (.method method.name key) else none).or
        (arguments? (key ++ "." ++ method.name) method.arguments))
      (method.listed key place) := by
  have hown : Finds front
      (if Text.camelCase method.name ∈ seen then some (.method method.name key) else none)
      [⟨.methods key, method.name⟩] := .single ⟨.methods key, method.name⟩ hfront (hseen _)
  refine hown.append fun hfront ↦
    finds_roster (.methodArguments key place method.name) _ hfront fun listed hlisted hroster ↦ ?_
  rcases List.mem_append.mp hlisted with hlisted | hlisted
  · exact Nat.lt_irrefl _ (hplace listed hlisted _ _ hroster)
  · rw [List.mem_singleton.mp hlisted] at hroster
    cases hroster

/-- The check of methods goes on with the spellings and the places of those it has passed. -/
theorem finds_methods? {key : Key} {seen : List String} {methods : List Method} {place : Nat}
    (hfront : (front.map Listed.mark).Nodup)
    (hseen : ∀ spelling, spelling ∈ seen ↔
      (Roster.methods key, spelling) ∈ front.map Listed.mark)
    (hplace : ∀ listed ∈ front, ∀ earlier name,
      listed.roster = .methodArguments key earlier name → earlier < place) :
    Finds front (methods? key seen methods)
      ((methods.zipIdx place).flatMap fun entry ↦ entry.1.listed key entry.2) := by
  induction methods generalizing front seen place with
  | nil => exact Finds.nil hfront
  | cons first rest ih =>
    have hstep : methods? key seen (first :: rest) =
        ((if Text.camelCase first.name ∈ seen then some (.method first.name key) else none).or
          (arguments? (key ++ "." ++ first.name) first.arguments)).or
            (methods? key (Text.camelCase first.name :: seen) rest) := by
      rw [methods?]
      split
      · rfl
      · cases arguments? (key ++ "." ++ first.name) first.arguments <;> rfl
    rw [hstep, List.zipIdx_cons, List.flatMap_cons]
    refine (finds_method first hfront hseen hplace).append fun hfront ↦ ih hfront ?_ ?_
    · intro spelling
      rw [List.map_append, List.mem_append, mem_marks_method, ← hseen, List.mem_cons, or_comm]
    · intro listed hlisted earlier name hroster
      rcases List.mem_append.mp hlisted with hlisted | hlisted
      · exact Nat.lt_succ_of_lt (hplace listed hlisted _ _ hroster)
      · exact Nat.lt_succ_of_le (Nat.le_of_eq (place_of_mem_method hlisted hroster))

theorem finds_node? {key : Key} (node : Node) (hfront : (front.map Listed.mark).Nodup)
    (hfresh : ∀ listed ∈ front, listed.roster.owner ≠ key) :
    Finds front (node? key node) (node.listed key) := by
  have hroster (roster : Roster) (howner : roster.owner = key) :
      ∀ listed ∈ front, listed.roster ≠ roster := by
    intro listed hlisted h
    exact hfresh listed hlisted (h ▸ howner)
  cases node with
  | record r | callbackInfo r =>
    exact finds_roster (.members key) _ hfront (hroster _ rfl)
  | enumeration e | bitmask e =>
    exact finds_roster (.items key) _ hfront (hroster _ rfl)
  | functionPointer s | callback s | function s =>
    exact finds_roster (.arguments key) _ hfront (hroster _ rfl)
  | object o =>
    refine finds_methods? hfront (fun spelling ↦ ?_) fun listed hlisted earlier method h ↦ ?_
    · exact iff_of_false List.not_mem_nil (notMem_marks (hroster _ rfl) spelling)
    · exact absurd h (hroster _ rfl listed hlisted)
  | typedef _ | constant _ | native _ | other => exact Finds.nil hfront

end Clash

theorem Node.owner_of_mem_listed {key : Key} {node : Node} {listed : Listed}
    (h : listed ∈ node.listed key) : listed.roster.owner = key := by
  cases node with
  | object o =>
    obtain ⟨entry, -, h⟩ := List.mem_flatMap.mp h
    rcases List.mem_cons.mp h with rfl | h
    · rfl
    · obtain ⟨name, -, rfl⟩ := List.mem_map.mp h
      rfl
  | typedef _ | constant _ | native _ | other => cases h
  | _ =>
    obtain ⟨name, -, rfl⟩ := List.mem_map.mp h
    rfl

namespace Clash

/-- The check of nodes whose names are not in front. -/
theorem finds_entries {front : List Listed} {entries : List (Key × Node)}
    (hnodup : (entries.map Prod.fst).Nodup) (hfront : (front.map Listed.mark).Nodup)
    (hfresh : ∀ listed ∈ front, listed.roster.owner ∉ entries.map Prod.fst) :
    Finds front (entries.findSome? fun declared ↦ node? declared.1 declared.2)
      (entries.flatMap fun declared ↦ declared.2.listed declared.1) := by
  induction entries generalizing front with
  | nil => exact Finds.nil hfront
  | cons declared rest ih =>
    have hstep : ((declared :: rest).findSome? fun declared ↦ node? declared.1 declared.2) =
        (node? declared.1 declared.2).or
          (rest.findSome? fun declared ↦ node? declared.1 declared.2) := by
      rw [List.findSome?_cons]
      cases node? declared.1 declared.2 <;> rfl
    rw [List.map_cons, List.nodup_cons] at hnodup
    simp only [List.map_cons, List.mem_cons, not_or] at hfresh
    rw [hstep, List.flatMap_cons]
    refine (finds_node? declared.2 hfront fun listed hlisted ↦ (hfresh listed hlisted).1).append
      fun hfront ↦ ih hnodup.2 hfront ?_
    intro listed hlisted
    rcases List.mem_append.mp hlisted with hlisted | hlisted
    · exact (hfresh listed hlisted).2
    · rw [Node.owner_of_mem_listed hlisted]
      exact hnodup.1

end Clash

namespace Document

/-- There is no clash exactly if in each list of each node all names are spelled
differently. Otherwise the clash is that of the first name of the document that is in the
same list as an earlier one and is spelled the same. -/
theorem first_clash_told (document : Document) :
    (document.clash? = none ↔ ∀ declared ∈ document.entries, declared.2.NamesDistinct) ∧
    ∀ clash, document.clash? = some clash ↔ ∃ front listed back,
      document.listed = front ++ listed :: back ∧ (front.map Listed.mark).Nodup ∧
        listed.mark ∈ front.map Listed.mark ∧ listed.clash = clash := by
  have hfinds : Clash.Finds [] document.clash? document.listed :=
    Clash.finds_entries document.nodup List.nodup_nil (List.forall_mem_nil _)
  refine ⟨clash?_eq_none_iff, fun clash ↦ ?_⟩
  constructor
  · intro hclash
    obtain ⟨listed, ⟨front, back, hsplit, hnodup, hmark⟩, hlisted⟩ := hfinds.repeats clash hclash
    exact ⟨front, listed, back, hsplit, hnodup, hmark, hlisted⟩
  · rintro ⟨front, listed, back, hsplit, hnodup, hmark, rfl⟩
    have hrepeat : FirstRepeat document.listed listed := ⟨front, back, hsplit, hnodup, hmark⟩
    cases hclash : document.clash? with
    | none => exact absurd (hfinds.distinct hclash) hrepeat.not_nodup
    | some other =>
      obtain ⟨found, hfound, rfl⟩ := hfinds.repeats other hclash
      rw [hfound.unique hrepeat]

/-- The arguments of a method come before the name of the next. -/
example : Document.clash? ⟨[("buffer", .object ⟨[⟨"map", none,
    [⟨"mode", "uint32_t", none, []⟩, ⟨"Mode", "string", none, []⟩], []⟩,
    ⟨"Map", none, [], []⟩], []⟩)], by decide⟩ = some (.argument "Mode" "buffer.map") := by
  decide +kernel

end Document

end ApiHeader
