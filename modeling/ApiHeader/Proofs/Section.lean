import ApiHeader.Header.Sections
import ApiHeader.Proofs.Resolution
import ApiHeader.Proofs.Walk

/-!
# Sections that follow a walk

A section that declares the keys of a walk has the declarations in the order of the
walk, one for each key that gives one (`mem_declare_iff`, `nodup_keys_declare`). The
declaration of a key stands after those of all keys that it leads to
(`before_of_declare`). `checks_declare` says when such a section fails: one of its
keys has a fault, or the keys have a cycle.
-/

set_option autoImplicit false
set_option relaxedAutoImplicit false

namespace ApiHeader

/-- Of the declarations of two keys the one stands before the other. -/
def Before (items : List Item) (first second : Key) : Prop :=
  ∃ (front middle back : List Item) (a b : Item),
    items = front ++ a :: (middle ++ b :: back) ∧ a.key = first ∧ b.key = second

theorem before_append {front back : List Item} {a b : Item} (ha : a ∈ front) (hb : b ∈ back) :
    Before (front ++ back) a.key b.key := by
  obtain ⟨start, middle, rfl⟩ := List.append_of_mem ha
  obtain ⟨between, rest, rfl⟩ := List.append_of_mem hb
  exact ⟨start, middle ++ between, rest, a, b, by simp, rfl, rfl⟩

/-- Where keys do not repeat, what stands before an item is in front of it. -/
theorem Before.mem_front {items front back : List Item} {item : Item} {first : Key}
    (hbefore : Before items first item.key) (hnodup : (items.map Item.key).Nodup)
    (hitems : items = front ++ item :: back) : ∃ earlier ∈ front, earlier.key = first := by
  obtain ⟨start, middle, rest, a, b, hsplit, rfl, hb⟩ := hbefore
  have hjoined : (start ++ a :: middle) ++ b :: rest = front ++ item :: back := by
    rw [← hitems, hsplit, List.append_assoc, List.cons_append]
  rcases List.append_eq_append_iff.mp hjoined with ⟨between, rfl, -⟩ | ⟨between, hstart, hback⟩
  · exact ⟨a, by simp, rfl⟩
  · cases between with
    | nil => exact ⟨a, by rw [← List.append_nil front, ← hstart]; simp, rfl⟩
    | cons first between =>
      -- the item would stand in front of one with its own key
      obtain ⟨rfl, hback⟩ := List.cons.inj hback
      rw [hitems, hback, List.map_append, List.nodup_append] at hnodup
      have hself : item.key ∉ (between ++ b :: rest).map Item.key :=
        (List.nodup_cons.mp hnodup.2.1).1
      exact absurd (by simp [hb]) hself

theorem itemText_eq_join (typePrefix : String) (items : List Item) :
    itemText typePrefix items =
      String.join (items.map fun item ↦ item.declaration.text typePrefix) := by
  rw [itemText, declarationText, List.map_map]
  rfl

namespace Logged

variable {α β : Type} {f : α → Logged (Option β)}

theorem collect_cons_eq_ok_iff {a : α} {as : List α} {bs : List β} :
    (collect f (a :: as)).result = .ok bs ↔
      ∃ b rest, (f a).result = .ok b ∧ (collect f as).result = .ok rest ∧
        bs = b.toList ++ rest := by
  rw [result_collect_cons]
  constructor
  · intro h
    obtain ⟨b, hb, h⟩ := bind_eq_ok_iff.mp h
    obtain ⟨rest, hrest, h⟩ := bind_eq_ok_iff.mp h
    exact ⟨b, rest, hb, hrest, (Except.ok.inj h).symm⟩
  · rintro ⟨b, rest, hb, hrest, rfl⟩
    exact bind_eq_ok_iff.mpr ⟨b, hb, bind_eq_ok_iff.mpr ⟨rest, hrest, rfl⟩⟩

theorem collect_append_eq_ok {as more : List α} {bs : List β}
    (h : (collect f (as ++ more)).result = .ok bs) :
    ∃ front back, (collect f as).result = .ok front ∧ (collect f more).result = .ok back ∧
      bs = front ++ back := by
  induction as generalizing bs with
  | nil => exact ⟨[], bs, rfl, h, rfl⟩
  | cons a as ih =>
    obtain ⟨b, rest, hb, hrest, rfl⟩ := collect_cons_eq_ok_iff.mp h
    obtain ⟨front, back, hfront, hback, rfl⟩ := ih hrest
    exact ⟨b.toList ++ front, back, collect_cons_eq_ok_iff.mpr ⟨b, front, hb, hfront, rfl⟩, hback,
      (List.append_assoc _ _ _).symm⟩

theorem mem_collect_iff {as : List α} {bs : List β} (h : (collect f as).result = .ok bs) {b : β} :
    b ∈ bs ↔ ∃ a ∈ as, (f a).result = .ok (some b) := by
  induction as generalizing bs with
  | nil =>
    obtain rfl : [] = bs := Except.ok.inj h
    simp
  | cons a as ih =>
    obtain ⟨first, rest, hfirst, hrest, rfl⟩ := collect_cons_eq_ok_iff.mp h
    rw [List.mem_append, ih hrest, List.exists_mem_cons_iff, hfirst]
    simp

theorem exists_ok_of_collect {as : List α} {bs : List β} (h : (collect f as).result = .ok bs)
    {a : α} (ha : a ∈ as) : ∃ b, (f a).result = .ok b := by
  obtain ⟨front, back, rfl⟩ := List.append_of_mem ha
  obtain ⟨-, after, -, hafter, -⟩ := collect_append_eq_ok h
  obtain ⟨b, -, hb, -⟩ := collect_cons_eq_ok_iff.mp hafter
  exact ⟨b, hb⟩

theorem sublist_keys_collect {item : Key → Logged (Option Item)}
    (hkey : ∀ key i, (item key).result = .ok (some i) → i.key = key) {keys : List Key}
    {items : List Item} (h : (collect item keys).result = .ok items) :
    (items.map Item.key).Sublist keys := by
  induction keys generalizing items with
  | nil =>
    obtain rfl : [] = items := Except.ok.inj h
    exact .slnil
  | cons key keys ih =>
    obtain ⟨first, rest, hfirst, hrest, rfl⟩ := collect_cons_eq_ok_iff.mp h
    cases first with
    | none => exact (ih hrest).cons key
    | some i =>
      have hsub := (ih hrest).cons_cons key
      rwa [← hkey key i hfirst] at hsub ⊢

/-- The declarations that are collected are those of the keys that are not gone. -/
theorem keys_collect {item : Key → Logged (Option Item)} {gone : Key → Prop}
    [DecidablePred gone] (hkey : ∀ key i, (item key).result = .ok (some i) → i.key = key)
    {keys : List Key} (hgone : ∀ key ∈ keys, (item key).result = .ok none ↔ gone key)
    {items : List Item} (h : (collect item keys).result = .ok items) :
    items.map Item.key = keys.filter fun key ↦ ¬ gone key := by
  induction keys generalizing items with
  | nil =>
    obtain rfl : [] = items := Except.ok.inj h
    rfl
  | cons key keys ih =>
    obtain ⟨first, rest, hfirst, hrest, rfl⟩ := collect_cons_eq_ok_iff.mp h
    have hkeys := ih (fun other hother ↦ hgone other (List.mem_cons_of_mem key hother)) hrest
    have hhead := hgone key List.mem_cons_self
    rw [hfirst] at hhead
    cases first with
    | none =>
      rw [List.filter_cons_of_neg (by simpa using hhead.mp rfl)]
      exact hkeys
    | some i =>
      have hstays : ¬ gone key := fun hmem ↦ by cases hhead.mpr hmem
      rw [List.filter_cons_of_pos (by simpa using hstays), ← hkeys, ← hkey key i hfirst]
      rfl

end Logged

namespace Walk

variable {nodes : List Key} {needs : Key → List Key} {item : Key → Logged (Option Item)}
  {items : List Item}

theorem declare_eq_ok_iff {walk : Walk} :
    (walk.declare item).result = .ok items ↔
      walk.cycle = none ∧ (Logged.collect item walk.order).result = .ok items := by
  rw [declare, Logged.result_bind, bind_eq_ok_iff]
  cases hcycle : walk.cycle with
  | none => simp
  | some path => simp

theorem mem_declare_iff (h : ((all nodes needs).declare item).result = .ok items) {i : Item} :
    i ∈ items ↔ ∃ key ∈ nodes, (item key).result = .ok (some i) := by
  obtain ⟨hcycle, hcollect⟩ := declare_eq_ok_iff.mp h
  rw [Logged.mem_collect_iff hcollect]
  simp only [mem_order_all hcycle]

theorem nodup_keys_declare (hkey : ∀ key i, (item key).result = .ok (some i) → i.key = key)
    (h : ((all nodes needs).declare item).result = .ok items) : (items.map Item.key).Nodup := by
  obtain ⟨-, hcollect⟩ := declare_eq_ok_iff.mp h
  exact (all_reached nodes needs).sound.nodup.sublist (Logged.sublist_keys_collect hkey hcollect)

theorem acyclic_of_declare (h : ((all nodes needs).declare item).result = .ok items) :
    Acyclic (Need nodes needs) :=
  acyclic_of_cycle_eq_none (declare_eq_ok_iff.mp h).1

/-- A declaration stands after those of all keys that its own leads to. -/
theorem before_of_declare (hkey : ∀ key i, (item key).result = .ok (some i) → i.key = key)
    (h : ((all nodes needs).declare item).result = .ok items) {i j : Item} (hi : i ∈ items)
    (hj : j ∈ items) (hlead : Relation.TransGen (Need nodes needs) i.key j.key) :
    Before items j.key i.key := by
  obtain ⟨hcycle, hcollect⟩ := declare_eq_ok_iff.mp h
  obtain ⟨key, hnode, hitem⟩ := (mem_declare_iff h).mp hi
  obtain ⟨target, htarget, hother⟩ := (mem_declare_iff h).mp hj
  rw [hkey key i hitem, hkey target j hother] at hlead
  obtain ⟨front, back, hsplit⟩ := List.append_of_mem ((mem_order_all hcycle).mpr hnode)
  have hordered := (all_reached nodes needs).sound.ordered
  rw [hsplit] at hordered hcollect
  have hfront : target ∈ front := hordered.mem_front_of_transGen hlead htarget
  obtain ⟨before, after, hbefore, hafter, rfl⟩ := Logged.collect_append_eq_ok hcollect
  exact before_append ((Logged.mem_collect_iff hbefore).mpr ⟨target, hfront, hother⟩)
    ((Logged.mem_collect_iff hafter).mpr ⟨key, List.mem_cons_self, hitem⟩)

/-- A section fails because of one of its keys or because of a cycle, and it finds
every such fault. -/
theorem checks_declare {faults : Key → HeaderError → Prop}
    (hitem : ∀ key ∈ nodes, Checks (item key).result (faults key)) :
    Checks ((all nodes needs).declare item).result fun e ↦ (∃ key ∈ nodes, faults key e) ∨
      ∃ path, SimpleCycle (Need nodes needs) path ∧ e = .cyclic path where
  genuine := by
    intro e he
    have hsound := (all_reached nodes needs).sound
    have hcollect := Logged.checks_collect fun key hkey ↦ hitem key (hsound.subset hkey)
    rw [declare, Logged.result_bind] at he
    rcases bind_eq_error_iff.mp he with he | ⟨items, -, he⟩
    · obtain ⟨key, hkey, hfault⟩ := hcollect.genuine e he
      exact .inl ⟨key, hsound.subset hkey, hfault⟩
    · cases hcycle : (all nodes needs).cycle with
      | none => simp [hcycle] at he
      | some path =>
        rw [hcycle] at he
        exact .inr ⟨path, hsound.genuine path hcycle, (Except.error.inj he).symm⟩
  thorough := by
    intro items hok e hfault
    obtain ⟨hcycle, hcollect⟩ := declare_eq_ok_iff.mp hok
    rcases hfault with ⟨key, hkey, hfault⟩ | ⟨path, hpath, -⟩
    · have hchecks := Logged.checks_collect fun key hkey ↦
        hitem key ((mem_order_all hcycle).mp hkey)
      exact hchecks.thorough items hcollect e ⟨key, (mem_order_all hcycle).mpr hkey, hfault⟩
    · exact hpath.not_acyclic (acyclic_of_cycle_eq_none hcycle)

end Walk

namespace Schema

/-- The document has a node for a key, and the node carries an excluded tag. -/
def Excludes (schema : Schema) (settings : Settings) (key : Key) : Prop :=
  ∃ node, schema.document.get? key = some node ∧ settings.exclusion.excludes node.tags = true

/-- The declaration of a key of the catalogue unless it is excluded. -/
def declaredItem (schema : Schema) (settings : Settings) (skipped : Key → Event)
    (declaration : DeclaredType → Except HeaderError (Option Declaration)) (key : Key) :
    Logged (Option Item) :=
  match schema.type? key with
  | some type => keptItem settings (skipped key) type (declaration type)
  | none => return none

theorem aliasItem_eq (schema : Schema) (settings : Settings) :
    schema.aliasItem settings =
      schema.declaredItem settings .aliasExcluded (schema.aliasDeclaration settings) :=
  rfl

theorem recordItem_eq (schema : Schema) (settings : Settings) :
    schema.recordItem settings =
      schema.declaredItem settings .recordExcluded (schema.recordDeclaration settings) :=
  rfl

variable {schema : Schema} {settings : Settings} {skipped : Key → Event}
  {declaration : DeclaredType → Except HeaderError (Option Declaration)}

theorem result_keptItem (event : Event) (type : DeclaredType)
    (x : Except HeaderError (Option Declaration)) :
    (keptItem settings event type x).result =
      if settings.keeps type.node.tags then x >>= fun d ↦ pure (d.map (⟨type.key, ·⟩))
      else .ok none := by
  unfold keptItem
  split <;> rfl

theorem declaredItem_eq_some_iff {key : Key} {i : Item} :
    (schema.declaredItem settings skipped declaration key).result = .ok (some i) ↔
      ∃ type, schema.type? key = some type ∧ settings.keeps type.node.tags = true ∧
        declaration type = .ok (some i.declaration) ∧ i.key = key := by
  rw [declaredItem]
  cases htype : schema.type? key with
  | none => simp
  | some type =>
    have hkey := (declares_of_type? htype).1
    rw [result_keptItem]
    constructor
    · intro h
      split at h
      · rename_i hkeeps
        obtain ⟨d, hd, h⟩ := bind_eq_ok_iff.mp h
        obtain ⟨d, rfl, rfl⟩ := Option.map_eq_some_iff.mp (Except.ok.inj h)
        exact ⟨type, rfl, hkeeps, hd, hkey⟩
      · cases h
    · rintro ⟨_, hsome, hkeeps, hd, rfl⟩
      obtain rfl := Option.some.inj hsome
      rw [if_pos hkeeps, hd, hkey]
      rfl

theorem key_declaredItem (key : Key) (i : Item)
    (h : (schema.declaredItem settings skipped declaration key).result = .ok (some i)) :
    i.key = key := by
  obtain ⟨-, -, -, -, hkey⟩ := declaredItem_eq_some_iff.mp h
  exact hkey

/-- A key of the catalogue that gives no declaration is excluded. -/
theorem excludes_of_declaredItem {key : Key} {type : DeclaredType}
    (htype : schema.type? key = some type) (hsome : declaration type ≠ .ok none)
    (h : (schema.declaredItem settings skipped declaration key).result = .ok none) :
    schema.Excludes settings key := by
  rw [declaredItem, htype] at h
  simp only [result_keptItem] at h
  split at h
  · obtain ⟨d, hd, h⟩ := bind_eq_ok_iff.mp h
    cases d with
    | none => exact absurd hd hsome
    | some d => cases h
  · rename_i hkeeps
    refine ⟨type.node, (declares_of_type? htype).2.2, ?_⟩
    simpa [Settings.keeps] using hkeeps

theorem declaredItem_of_excludes {key : Key} (h : schema.Excludes settings key) :
    (schema.declaredItem settings skipped declaration key).result = .ok none := by
  obtain ⟨node, hnode, hexcludes⟩ := h
  rw [declaredItem]
  cases htype : schema.type? key with
  | none => rfl
  | some type =>
    have hsame := (declares_of_type? htype).2.2
    rw [hnode] at hsame
    obtain rfl := Option.some.inj hsame
    rw [result_keptItem, if_neg (by simp [Settings.keeps, hexcludes])]

theorem checks_declaredItem {faults : DeclaredType → HeaderError → Prop} {key : Key}
    (hdeclaration : ∀ type, Checks (declaration type) (faults type)) :
    Checks (schema.declaredItem settings skipped declaration key).result fun e ↦
      ∃ type, schema.type? key = some type ∧ settings.keeps type.node.tags = true ∧
        faults type e := by
  rw [declaredItem]
  cases htype : schema.type? key with
  | none => exact (Checks.ok none).congr fun e ↦ by simp
  | some type =>
    simp only [result_keptItem, Option.some.injEq, exists_eq_left']
    split
    · rename_i hkeeps
      exact (hdeclaration type).map.congr fun e ↦ by simp [hkeeps]
    · rename_i hkeeps
      exact (Checks.ok none).congr fun e ↦ by simp [hkeeps]

/-- What can be wrong with a section that follows a walk: a type name in it has no
meaning, or its keys lead back to themselves. -/
def SectionFault (schema : Schema) (refers : String → String → Prop) (step : Key → Key → Prop)
    (e : HeaderError) : Prop :=
  schema.Misses refers e ∨ ∃ path, SimpleCycle step path ∧ e = .cyclic path

/-- A path that is told is a cycle. -/
theorem simpleCycle_of_checks {α : Type} {x : Except HeaderError α}
    {refers : String → String → Prop} {step : Key → Key → Prop} {path : List Key}
    (hx : Checks x (schema.SectionFault refers step)) (h : x = .error (.cyclic path)) :
    SimpleCycle step path := by
  rcases hx.genuine _ h with hmisses | ⟨other, hcycle, hpath⟩
  · exact absurd rfl hmisses.ne_cyclic
  · exact HeaderError.cyclic.inj hpath ▸ hcycle

variable {nodes : List Key} {needs : Key → List Key} {items : List Item}

/-- In a section that follows a walk over types of the catalogue, whatever a
declaration leads to is excluded or declared before it. -/
theorem before_or_excludes
    (hnodes : ∀ key ∈ nodes, ∃ type, schema.type? key = some type ∧ declaration type ≠ .ok none)
    (h : ((Walk.all nodes needs).declare
      (schema.declaredItem settings skipped declaration)).result = .ok items)
    {i : Item} (hi : i ∈ items) {target : Key} (htarget : target ∈ nodes)
    (hlead : Relation.TransGen (Walk.Need nodes needs) i.key target) :
    target ≠ i.key ∧ (schema.Excludes settings target ∨ Before items target i.key) := by
  constructor
  · intro heq
    exact Walk.acyclic_of_declare h i.key (heq ▸ hlead)
  · obtain ⟨hcycle, hcollect⟩ := Walk.declare_eq_ok_iff.mp h
    obtain ⟨declared, hdeclared⟩ :=
      Logged.exists_ok_of_collect hcollect ((Walk.mem_order_all hcycle).mpr htarget)
    cases declared with
    | none =>
      obtain ⟨type, htype, hsome⟩ := hnodes target htarget
      exact .inl (excludes_of_declaredItem htype hsome hdeclared)
    | some j =>
      have hj : j ∈ items := (Walk.mem_declare_iff h).mpr ⟨target, htarget, hdeclared⟩
      rw [← key_declaredItem target j hdeclared] at hlead ⊢
      exact .inr (Walk.before_of_declare key_declaredItem h hi hj hlead)

end Schema

end ApiHeader
