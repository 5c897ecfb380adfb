import ApiHeader.Proofs.AliasOrder
import ApiHeader.Proofs.Blocks
import Mathlib.Data.List.Forall2

/-!
# Sections with fewer blocks

Two headers of one schema whose settings differ in the excluded tags only, the second
excluding more. `Thins` relates the sections of the two: whenever the first is written
so is the second, and it has the blocks of the first without those left out, in the
same order. Sections are gathered from blocks, so it is enough to compare blocks
(`Thins.gather`). A block that stays loses members, values or parameters at most
(`Declaration.Narrows`), and none if it has none with a newly excluded tag
(`SameParts`).
-/

set_option autoImplicit false
set_option relaxedAutoImplicit false

namespace ApiHeader

/-! ### Wider exclusions -/

theorem Exclusion.excludes_eq_true_iff {e : Exclusion} {tags : List Tag} :
    e.excludes tags = true ↔ ∃ tag ∈ tags, tag ∈ e.tags := by
  simp [excludes]

theorem Exclusion.excludes_append (e : Exclusion) (tags more : List Tag) :
    e.excludes (tags ++ more) = (e.excludes tags || e.excludes more) :=
  List.any_append

section Wider

variable {settings : Settings} {wider : Exclusion}

theorem Settings.keeps_of_wider (hwider : settings.exclusion.tags ⊆ wider.tags) {tags : List Tag}
    (h : (settings.withExclusion wider).keeps tags = true) : settings.keeps tags = true := by
  rw [keeps, Bool.not_eq_true', ← Bool.not_eq_true, Exclusion.excludes_eq_true_iff] at h ⊢
  rintro ⟨tag, htag, hmem⟩
  exact h ⟨tag, htag, hwider hmem⟩

theorem Settings.keeps_withExclusion (settings : Settings) (wider : Exclusion) (tags : List Tag) :
    (settings.withExclusion wider).keeps tags = ! wider.excludes tags :=
  rfl

/-- No part is newly excluded: those that the wider exclusion leaves out are left out
already. The parts are given by their tags. -/
def SameParts (settings : Settings) (wider : Exclusion) (parts : List (List Tag)) : Prop :=
  ∀ tags ∈ parts, wider.excludes tags = true → settings.exclusion.excludes tags = true

theorem SameParts.keeps_iff {parts : List (List Tag)} (hparts : SameParts settings wider parts)
    (hwider : settings.exclusion.tags ⊆ wider.tags) {tags : List Tag} (htags : tags ∈ parts) :
    (settings.withExclusion wider).keeps tags = settings.keeps tags := by
  rw [Bool.eq_iff_iff]
  refine ⟨Settings.keeps_of_wider hwider, fun hkeeps ↦ ?_⟩
  rw [Settings.keeps_withExclusion, Bool.not_eq_true', ← Bool.not_eq_true]
  intro hexcludes
  rw [Settings.keeps, hparts tags htags hexcludes] at hkeeps
  cases hkeeps

/-- What a wider exclusion keeps of a list, where `tags` gives the tags of its members. -/
theorem filter_keeps_wider {α : Type} (hwider : settings.exclusion.tags ⊆ wider.tags)
    (tags : α → List Tag) (as : List α) :
    (as.filter fun a ↦ (settings.withExclusion wider).keeps (tags a)).Sublist
        (as.filter fun a ↦ settings.keeps (tags a)) ∧
      (SameParts settings wider (as.map tags) →
        (as.filter fun a ↦ (settings.withExclusion wider).keeps (tags a)) =
          as.filter fun a ↦ settings.keeps (tags a)) := by
  constructor
  · exact List.monotone_filter_right as fun a ↦ Settings.keeps_of_wider hwider
  · intro hparts
    exact List.filter_congr fun a ha ↦ hparts.keeps_iff hwider (List.mem_map_of_mem ha)

end Wider

/-! ### Sections with fewer blocks -/

/-- Whenever the first of two computations gives a list, the second gives that list
without the members that are gone, each of the others as what it becomes. -/
def Thins {α : Type} (gone : α → Prop) [DecidablePred gone] (becomes : α → α → Prop)
    (x y : Except HeaderError (List α)) : Prop :=
  ∀ as, x = .ok as → ∃ bs, y = .ok bs ∧ List.Forall₂ becomes (as.filter fun a ↦ ¬ gone a) bs

namespace Thins

variable {α β : Type} {gone : α → Prop} [DecidablePred gone] {becomes : α → α → Prop}

theorem nil : Thins gone becomes (.ok []) (.ok []) := by
  intro as has
  obtain rfl : [] = as := Except.ok.inj has
  exact ⟨[], rfl, .nil⟩

theorem append {x x' y y' : Except HeaderError (List α)} (hx : Thins gone becomes x x')
    (hy : Thins gone becomes y y') :
    Thins gone becomes (x >>= fun as ↦ y >>= fun bs ↦ pure (as ++ bs))
      (x' >>= fun as ↦ y' >>= fun bs ↦ pure (as ++ bs)) := by
  intro all hall
  obtain ⟨as, has, hall⟩ := bind_eq_ok_iff.mp hall
  obtain ⟨bs, hbs, hall⟩ := bind_eq_ok_iff.mp hall
  obtain rfl : as ++ bs = all := Except.ok.inj hall
  obtain ⟨as', has', hfirst⟩ := hx as has
  obtain ⟨bs', hbs', hsecond⟩ := hy bs hbs
  refine ⟨as' ++ bs', ?_, ?_⟩
  · exact bind_eq_ok_iff.mpr ⟨as', has', bind_eq_ok_iff.mpr ⟨bs', hbs', rfl⟩⟩
  · rw [List.filter_append]
    exact List.rel_append hfirst hsecond

theorem bind_left {x : Except HeaderError β} {f g : β → Except HeaderError (List α)}
    (h : ∀ b, x = .ok b → Thins gone becomes (f b) (g b)) :
    Thins gone becomes (x >>= f) (x >>= g) := by
  intro as has
  obtain ⟨b, hb, has⟩ := bind_eq_ok_iff.mp has
  obtain ⟨bs, hbs, hthinned⟩ := h b hb as has
  exact ⟨bs, bind_eq_ok_iff.mpr ⟨b, hb, hbs⟩, hthinned⟩

/-- Sections are thinned when the blocks of their subjects are. -/
theorem gather {block other : β → Except HeaderError (List α)} {subjects : List β}
    (h : ∀ b ∈ subjects, Thins gone becomes (block b) (other b)) :
    Thins gone becomes (gather block subjects) (gather other subjects) := by
  induction subjects with
  | nil => exact nil
  | cons b rest ih =>
    exact (h b List.mem_cons_self).append (ih fun c hc ↦ h c (List.mem_cons_of_mem b hc))

/-- A block that is left out is gone with all its members; one that is kept is thinned. -/
theorem keptBlock {settings : Settings} {wider : Exclusion}
    (hwider : settings.exclusion.tags ⊆ wider.tags) {tags : List Tag}
    {x y : Except HeaderError (List α)}
    (hgone : wider.excludes tags = true → ∀ as, x = .ok as → ∀ a ∈ as, gone a)
    (hstays : wider.excludes tags = false → Thins gone becomes x y) :
    Thins gone becomes (keptBlock settings tags x)
      (keptBlock (settings.withExclusion wider) tags y) := by
  rw [ApiHeader.keptBlock, ApiHeader.keptBlock, Settings.keeps_withExclusion]
  by_cases hexcludes : wider.excludes tags = true
  · rw [hexcludes, Bool.not_true, if_neg Bool.false_ne_true]
    intro as has
    refine ⟨[], rfl, ?_⟩
    have hall : ∀ a ∈ as, gone a := by
      split at has
      · exact hgone hexcludes as has
      · obtain rfl : [] = as := Except.ok.inj has
        exact List.forall_mem_nil _
    have hfilter : (as.filter fun a ↦ ¬ gone a) = [] := by
      rw [List.filter_eq_nil_iff]
      intro a ha
      simpa using hall a ha
    rw [hfilter]
    exact .nil
  · rw [Bool.not_eq_true] at hexcludes
    have hkeeps : settings.keeps tags = true :=
      Settings.keeps_of_wider hwider (by rw [Settings.keeps_withExclusion, hexcludes]; rfl)
    rw [hexcludes, Bool.not_false, if_pos hkeeps, if_pos rfl]
    exact hstays hexcludes

/-- Nothing is gone from a block that stays. -/
theorem of_forall₂ {x y : Except HeaderError (List α)}
    (h : ∀ as, x = .ok as → (∀ a ∈ as, ¬ gone a) ∧
      ∃ bs, y = .ok bs ∧ List.Forall₂ becomes as bs) :
    Thins gone becomes x y := by
  intro as has
  obtain ⟨hstays, bs, hbs, hbecomes⟩ := h as has
  refine ⟨bs, hbs, ?_⟩
  rwa [List.filter_eq_self.mpr (by simpa using hstays)]

theorem forall₂ {as bs : List α} (h : Thins gone becomes (.ok as) (.ok bs)) :
    List.Forall₂ becomes (as.filter fun a ↦ ¬ gone a) bs := by
  obtain ⟨found, hfound, hbecomes⟩ := h as rfl
  rwa [Except.ok.inj hfound]

theorem singleton {x y : Except HeaderError α}
    (h : ∀ a, x = .ok a → ¬ gone a ∧ ∃ b, y = .ok b ∧ becomes a b) :
    Thins gone becomes (x >>= fun a ↦ pure [a]) (y >>= fun b ↦ pure [b]) := by
  refine of_forall₂ fun as has ↦ ?_
  obtain ⟨a, ha, has⟩ := bind_eq_ok_iff.mp has
  obtain rfl : [a] = as := Except.ok.inj has
  obtain ⟨hstays, b, hb, hbecomes⟩ := h a ha
  exact ⟨List.forall_mem_singleton.mpr hstays, [b], bind_eq_ok_iff.mpr ⟨b, hb, rfl⟩,
    .cons hbecomes .nil⟩

end Thins

/-! ### Declarations with fewer parts -/

/-- The same declaration with at most some of its values, parameters or members left out. -/
inductive Declaration.Narrows : Declaration → Declaration → Prop where
  | same (declaration : Declaration) : Narrows declaration declaration
  | enumeration {name : String} {enumerators rest : List Enumerator}
      (hrest : rest.Sublist enumerators) :
      Narrows (.enumeration name enumerators) (.enumeration name rest)
  | functionPointer {name : String} {returns : TypeRef} {parameters rest : List Declarator}
      (hrest : rest.Sublist parameters) :
      Narrows (.functionPointer name returns parameters) (.functionPointer name returns rest)
  | record {name : String} {members rest : List Declarator} (hrest : rest.Sublist members) :
      Narrows (.record name members) (.record name rest)

/-- The tags of the parts of a node: members, values or arguments. -/
def Node.partTags : Node → List (List Tag)
  | .record r | .callbackInfo r => r.members.map Member.tags
  | .enumeration e | .bitmask e => e.items.map EnumItem.tags
  | .functionPointer s | .callback s | .function s => s.arguments.map Member.tags
  | .object _ | .typedef _ | .constant _ | .native _ | .other => []

theorem Node.partTags_of_record? {node : Node} {record : Record}
    (h : node.record? = some record) : node.partTags = record.members.map Member.tags := by
  cases node <;> cases h <;> rfl

theorem Node.partTags_of_pointer? {node : Node} {signature : Signature}
    (h : node.pointer? = some signature) :
    node.partTags = signature.arguments.map Member.tags := by
  cases node <;> cases h <;> rfl

/-- What a declaration becomes when more tags are excluded: parts may go, but none where
none is newly excluded. -/
def Declaration.Becomes (settings : Settings) (wider : Exclusion) (parts : List (List Tag))
    (declaration other : Declaration) : Prop :=
  declaration.Narrows other ∧ (SameParts settings wider parts → other = declaration)

theorem Declaration.Becomes.refl (settings : Settings) (wider : Exclusion)
    (parts : List (List Tag)) (declaration : Declaration) :
    declaration.Becomes settings wider parts declaration :=
  ⟨.same declaration, fun _ ↦ rfl⟩

theorem mapM_sublist {α β : Type} {f : α → Except HeaderError β} {chosen all : List α}
    (hsub : chosen.Sublist all) {bs : List β} (h : all.mapM f = .ok bs) :
    ∃ cs, chosen.mapM f = .ok cs ∧ cs.Sublist bs := by
  induction hsub generalizing bs with
  | slnil => exact ⟨bs, h, .refl bs⟩
  | cons a _ ih =>
    rw [List.mapM_cons] at h
    obtain ⟨b, -, h⟩ := bind_eq_ok_iff.mp h
    obtain ⟨rest, hrest, h⟩ := bind_eq_ok_iff.mp h
    obtain rfl : b :: rest = bs := Except.ok.inj h
    obtain ⟨cs, hcs, hsub⟩ := ih hrest
    exact ⟨cs, hcs, hsub.cons b⟩
  | cons_cons a _ ih =>
    rw [List.mapM_cons] at h
    obtain ⟨b, hb, h⟩ := bind_eq_ok_iff.mp h
    obtain ⟨rest, hrest, h⟩ := bind_eq_ok_iff.mp h
    obtain rfl : b :: rest = bs := Except.ok.inj h
    obtain ⟨cs, hcs, hsub⟩ := ih hrest
    refine ⟨b :: cs, ?_, hsub.cons_cons b⟩
    rw [List.mapM_cons]
    exact bind_eq_ok_iff.mpr ⟨b, hb, bind_eq_ok_iff.mpr ⟨cs, hcs, rfl⟩⟩

namespace Schema

variable {document : Document} {typePrefix : String} {schema : Schema} {settings : Settings}
  {wider : Exclusion}

/-- Of members that can be written, fewer can be written too. -/
theorem declarators_wider (hwider : settings.exclusion.tags ⊆ wider.tags) {owner : String}
    {members : List Member} {declarators : List Declarator}
    (h : schema.declarators owner (settings.keptMembers members) = .ok declarators) :
    ∃ rest, schema.declarators owner ((settings.withExclusion wider).keptMembers members) =
        .ok rest ∧ rest.Sublist declarators ∧
      (SameParts settings wider (members.map Member.tags) → rest = declarators) := by
  obtain ⟨hsub, hsame⟩ := filter_keeps_wider hwider Member.tags members
  obtain ⟨rest, hrest, hrestSub⟩ := mapM_sublist hsub h
  refine ⟨rest, hrest, hrestSub, fun hparts ↦ ?_⟩
  rw [hsame hparts] at hrest
  exact Except.ok.inj (hrest.symm.trans h)

theorem map_fst_numberItems (next : UInt64) (items : List EnumItem) :
    (numberItems next items).map Prod.fst = items := by
  induction items generalizing next with
  | nil => rfl
  | cons item items ih => rw [numberItems, List.map_cons, ih]

/-- Values that are left out count for the numbers of the others, so that these stay. -/
theorem enumerators_wider (hwider : settings.exclusion.tags ⊆ wider.tags) (name : String)
    (items : List EnumItem) :
    (enumerators (settings.withExclusion wider) name items).Sublist
        (enumerators settings name items) ∧
      (SameParts settings wider (items.map EnumItem.tags) →
        enumerators (settings.withExclusion wider) name items =
          enumerators settings name items) := by
  obtain ⟨hsub, hsame⟩ := filter_keeps_wider hwider
    (fun numbered : EnumItem × UInt64 ↦ numbered.1.tags) (numberItems 0 items)
  have htags : (numberItems 0 items).map (fun numbered ↦ numbered.1.tags) =
      items.map EnumItem.tags := by
    conv_rhs => rw [← map_fst_numberItems 0 items, List.map_map]
    rfl
  rw [htags] at hsame
  exact ⟨hsub.map _, fun hparts ↦ congrArg (List.map _) (hsame hparts)⟩

/-! ### Items -/

instance decidableExcludes (schema : Schema) (settings : Settings) (key : Key) :
    Decidable (schema.Excludes settings key) :=
  decidable_of_iff
    ((schema.document.get? key).any (fun node ↦ settings.exclusion.excludes node.tags) = true)
    (Option.any_eq_true _ _)

/-- What an item becomes when more tags are excluded. -/
def ItemBecomes (schema : Schema) (settings : Settings) (wider : Exclusion) (item other : Item) :
    Prop :=
  other.key = item.key ∧ ∃ node, schema.document.get? item.key = some node ∧
    item.declaration.Becomes settings wider node.partTags other.declaration

/-- A section of items is thinned: items whose keys are excluded are gone. -/
abbrev ThinsItems (schema : Schema) (settings : Settings) (wider : Exclusion)
    (x y : Except HeaderError (List Item)) : Prop :=
  Thins (fun item ↦ schema.Excludes (settings.withExclusion wider) item.key)
    (schema.ItemBecomes settings wider) x y

/-- The items of a node go or stay with the node. -/
theorem thinsItems_itemBlock (hwider : settings.exclusion.tags ⊆ wider.tags) {key : Key}
    {node : Node} (hnode : schema.document.get? key = some node)
    {x y : Except HeaderError (List Declaration)}
    (hx : ∀ declarations, x = .ok declarations → ∃ rest, y = .ok rest ∧
      List.Forall₂ (Declaration.Becomes settings wider node.partTags) declarations rest) :
    schema.ThinsItems settings wider (itemBlock settings key node x)
      (itemBlock (settings.withExclusion wider) key node y) := by
  refine Thins.keptBlock hwider ?_ ?_
  · intro hexcludes items hitems item hitem
    obtain ⟨declarations, -, hitems⟩ := bind_eq_ok_iff.mp hitems
    obtain rfl := Except.ok.inj hitems
    obtain ⟨declaration, -, rfl⟩ := List.mem_map.mp hitem
    exact ⟨node, hnode, hexcludes⟩
  · intro hexcludes
    have hstays : ¬ schema.Excludes (settings.withExclusion wider) key := by
      rintro ⟨found, hfound, hexcluded⟩
      obtain rfl : node = found := Option.some.inj (hnode.symm.trans hfound)
      rw [Settings.withExclusion, hexcludes] at hexcluded
      cases hexcluded
    refine Thins.of_forall₂ fun items hitems ↦ ?_
    obtain ⟨declarations, hdeclarations, hitems⟩ := bind_eq_ok_iff.mp hitems
    obtain rfl := Except.ok.inj hitems
    obtain ⟨rest, hrest, hbecomes⟩ := hx declarations hdeclarations
    refine ⟨?_, rest.map (⟨key, ·⟩), bind_eq_ok_iff.mpr ⟨rest, hrest, rfl⟩, ?_⟩
    · intro item hitem
      obtain ⟨declaration, -, rfl⟩ := List.mem_map.mp hitem
      exact hstays
    · rw [List.forall₂_map_left_iff, List.forall₂_map_right_iff]
      exact hbecomes.imp fun d e h ↦ ⟨rfl, node, hnode, h⟩

theorem thinsItems_typeBlock (hwider : settings.exclusion.tags ⊆ wider.tags)
    {own other : DeclaredType → Except HeaderError (List Declaration)}
    (hown : ∀ type declarations, own type = .ok declarations → ∃ rest, other type = .ok rest ∧
      List.Forall₂ (Declaration.Becomes settings wider type.node.partTags) declarations rest)
    (key : Key) :
    schema.ThinsItems settings wider (schema.typeBlock settings own key)
      (schema.typeBlock (settings.withExclusion wider) other key) := by
  rw [typeBlock, typeBlock]
  cases htype : schema.type? key with
  | none => exact Thins.nil
  | some type =>
    obtain ⟨rfl, -, hnode⟩ := declares_of_type? htype
    exact thinsItems_itemBlock hwider hnode (hown type)

theorem forall₂_becomes_refl (parts : List (List Tag)) (declarations : List Declaration) :
    List.Forall₂ (Declaration.Becomes settings wider parts) declarations declarations :=
  List.forall₂_same.mpr fun declaration _ ↦ .refl settings wider parts declaration

theorem thins_handles (hwider : settings.exclusion.tags ⊆ wider.tags) :
    schema.ThinsItems settings wider (.ok (schema.handles settings))
      (.ok (schema.handles (settings.withExclusion wider))) := by
  rw [handles_eq_gather, handles_eq_gather]
  refine Thins.gather fun key _ ↦ thinsItems_typeBlock hwider (fun type ds hds ↦ ?_) key
  obtain rfl := Except.ok.inj hds
  exact ⟨_, rfl, forall₂_becomes_refl _ _⟩

theorem thins_forwards (hwider : settings.exclusion.tags ⊆ wider.tags) :
    schema.ThinsItems settings wider (.ok (schema.forwards settings))
      (.ok (schema.forwards (settings.withExclusion wider))) := by
  rw [forwards_eq_gather, forwards_eq_gather]
  refine Thins.gather fun key _ ↦ thinsItems_typeBlock hwider (fun type ds hds ↦ ?_) key
  obtain rfl := Except.ok.inj hds
  exact ⟨_, rfl, forall₂_becomes_refl _ _⟩

theorem thins_enumerations (hwider : settings.exclusion.tags ⊆ wider.tags) :
    schema.ThinsItems settings wider (.ok (schema.enumerations settings))
      (.ok (schema.enumerations (settings.withExclusion wider))) := by
  rw [enumerations_eq_gather, enumerations_eq_gather]
  refine Thins.gather fun key _ ↦ thinsItems_typeBlock hwider (fun type ds hds ↦ ?_) key
  obtain rfl := Except.ok.inj hds
  refine ⟨_, rfl, ?_⟩
  have hvalues (items : List EnumItem) : Declaration.Becomes settings wider
      (items.map EnumItem.tags) (.enumeration type.name (enumerators settings type.name items))
      (.enumeration type.name
        (enumerators (settings.withExclusion wider) type.name items)) := by
    obtain ⟨hsub, hsame⟩ := enumerators_wider hwider type.name items
    exact ⟨.enumeration hsub, fun hparts ↦ by rw [hsame hparts]⟩
  unfold enumerationDeclarations
  cases type.node with
  | enumeration e => exact .cons (hvalues e.items) .nil
  | bitmask e => exact .cons (hvalues e.items) (.cons (.refl _ _ _ _) .nil)
  | _ => exact .nil

/-- A section that follows a walk is thinned when its declarations are: the walk is the
same for all settings. -/
theorem thins_declare (hwider : settings.exclusion.tags ⊆ wider.tags) {nodes : List Key}
    {needs : Key → List Key} {skipped : Key → Event}
    {declaration other : DeclaredType → Except HeaderError (Option Declaration)}
    (h : ∀ type d, declaration type = .ok d → ∃ e, other type = .ok e ∧
      Option.Rel (Declaration.Becomes settings wider type.node.partTags) d e) :
    schema.ThinsItems settings wider
      ((Walk.all nodes needs).declare
        (schema.declaredItem settings skipped declaration)).result
      ((Walk.all nodes needs).declare
        (schema.declaredItem (settings.withExclusion wider) skipped other)).result := by
  have hblock (type : DeclaredType) (ds : List Declaration)
      (hds : optionalDeclaration declaration type = .ok ds) :
      ∃ rest, optionalDeclaration other type = .ok rest ∧
        List.Forall₂ (Declaration.Becomes settings wider type.node.partTags) ds rest := by
    obtain ⟨d, hd, hds⟩ := bind_eq_ok_iff.mp hds
    obtain rfl := Except.ok.inj hds
    obtain ⟨e, he, hrel⟩ := h type d hd
    refine ⟨e.toList, bind_eq_ok_iff.mpr ⟨e, he, rfl⟩, ?_⟩
    cases hrel with
    | none => exact .nil
    | some hbecomes => exact .cons hbecomes .nil
  intro items hitems
  obtain ⟨hcycle, hitems⟩ := (schema.declare_eq_gather settings).mp hitems
  obtain ⟨rest, hrest, hthinned⟩ :=
    Thins.gather (fun key _ ↦ thinsItems_typeBlock hwider hblock key) items hitems
  exact ⟨rest, (schema.declare_eq_gather _).mpr ⟨hcycle, hrest⟩, hthinned⟩

theorem thins_aliases (hwider : settings.exclusion.tags ⊆ wider.tags) :
    schema.ThinsItems settings wider (schema.aliases settings).result
      (schema.aliases (settings.withExclusion wider)).result := by
  rw [aliases, aliases, aliasItem_eq, aliasItem_eq]
  refine thins_declare hwider fun type d hd ↦ ?_
  rcases alias_cases type.node with ⟨typedef, hnode⟩ | ⟨signature, hpointer⟩ | hother
  · rw [aliasDeclaration_typedef hnode] at hd ⊢
    obtain ⟨target, -, hsome⟩ := bind_eq_ok_iff.mp hd
    obtain rfl := Except.ok.inj hsome
    exact ⟨_, hd, .some (.refl _ _ _ _)⟩
  · rw [aliasDeclaration_pointer hpointer] at hd ⊢
    obtain ⟨returns, hreturns, hd⟩ := bind_eq_ok_iff.mp hd
    obtain ⟨parameters, hparameters, hd⟩ := bind_eq_ok_iff.mp hd
    obtain rfl := Except.ok.inj hd
    obtain ⟨rest, hrest, hsub, hsame⟩ := declarators_wider hwider hparameters
    refine ⟨some (.functionPointer type.name returns rest), ?_, .some ⟨.functionPointer hsub, ?_⟩⟩
    · exact bind_eq_ok_iff.mpr ⟨returns, hreturns, bind_eq_ok_iff.mpr ⟨rest, hrest, rfl⟩⟩
    · rw [Node.partTags_of_pointer? hpointer]
      exact fun hparts ↦ by rw [hsame hparts]
  · rw [aliasDeclaration_other hother] at hd ⊢
    obtain rfl := Except.ok.inj hd
    exact ⟨none, rfl, .none⟩

theorem thins_records (hwider : settings.exclusion.tags ⊆ wider.tags) :
    schema.ThinsItems settings wider (schema.records settings).result
      (schema.records (settings.withExclusion wider)).result := by
  rw [records, records, recordItem_eq, recordItem_eq]
  refine thins_declare hwider fun type d hd ↦ ?_
  rw [recordDeclaration] at hd ⊢
  cases hrecord : type.node.record? with
  | none =>
    rw [hrecord] at hd
    obtain rfl := Except.ok.inj hd
    exact ⟨none, rfl, .none⟩
  | some record =>
    rw [hrecord] at hd
    obtain ⟨members, hmembers, hd⟩ := bind_eq_ok_iff.mp hd
    obtain rfl := Except.ok.inj hd
    obtain ⟨rest, hrest, hsub, hsame⟩ := declarators_wider hwider hmembers
    refine ⟨some (.record type.name (chainMember record ++ rest)), ?_,
      .some ⟨.record (hsub.append_left _), ?_⟩⟩
    · exact bind_eq_ok_iff.mpr ⟨rest, hrest, rfl⟩
    · rw [Node.partTags_of_record? hrecord]
      exact fun hparts ↦ by rw [hsame hparts]

theorem thins_constants (hwider : settings.exclusion.tags ⊆ wider.tags) :
    schema.ThinsItems settings wider (schema.constants settings)
      (schema.constants (settings.withExclusion wider)) := by
  rw [constants_eq_gather, constants_eq_gather]
  refine Thins.gather fun declared hdeclared ↦
    thinsItems_itemBlock hwider (Table.get?_eq_some_iff.mpr hdeclared) fun ds hds ↦ ?_
  exact ⟨ds, hds, forall₂_becomes_refl _ ds⟩

end Schema

end ApiHeader
