import ApiHeader.Order
import Mathlib.Data.List.Chain
import Mathlib.Data.List.Nodup
import Mathlib.Logic.Relation

/-!
# The order and the cycles of a walk

`Walk.Sound` is what holds at every moment of a walk: the finished keys are listed
once, each after the keys it needs, none of them lies on the current path, and a
cycle that was told is a cycle. A visit keeps it (`visit_reached`), and so does a
whole list of visits (`foldl_visit_reached`), by induction on the visits. What
`Walk.all` gives follows: its order is closed under need (`mem_front_of_transGen`),
it lists every node unless it met a cycle (`mem_order_all`), and it meets one
exactly when there is one (`cycle_all_eq_none_iff`). Nodes that stand in order already
keep their places (`all_of_ordered`).
-/

set_option autoImplicit false
set_option relaxedAutoImplicit false

namespace ApiHeader

/-! ### Cycles of a relation -/

/-- No key leads back to itself. -/
def Acyclic (step : Key → Key → Prop) : Prop :=
  ∀ key, ¬ Relation.TransGen step key key

/-- A path of steps that ends where it began and passes no key twice on the way. -/
structure SimpleCycle (step : Key → Key → Prop) (path : List Key) : Prop where
  length : 2 ≤ path.length
  closed : path.getLast? = path.head?
  nodup : path.dropLast.Nodup
  steps : path.IsChain step

theorem SimpleCycle.not_acyclic {step : Key → Key → Prop} {path : List Key}
    (hcycle : SimpleCycle step path) : ¬ Acyclic step := by
  intro hacyclic
  obtain ⟨hlength, hclosed, -, hsteps⟩ := hcycle
  match path, hlength with
  | first :: second :: rest, _ =>
    rw [List.isChain_cons_cons] at hsteps
    have hlast : (second :: rest).getLast (List.cons_ne_nil _ _) = first := by
      rw [List.getLast?_cons_cons, List.getLast?_eq_some_getLast (List.cons_ne_nil _ _)] at hclosed
      exact Option.some.inj hclosed
    have hback : Relation.ReflTransGen step second first :=
      List.relationReflTransGen_of_exists_isChain_cons rest hsteps.2 hlast
    exact hacyclic first (.head' hsteps.1 hback)

namespace Walk

variable {nodes : List Key} {needs : Key → List Key} {path : List Key}

/-- A node needs a key; keys that are no nodes need nothing. -/
def Need (nodes : List Key) (needs : Key → List Key) (key next : Key) : Prop :=
  key ∈ nodes ∧ next ∈ needs key

/-- The keys of a path, given in reverse, need one another, and the last needs `key`. -/
structure Trail (nodes : List Key) (needs : Key → List Key) (path : List Key) (key : Key) :
    Prop where
  nodup : path.Nodup
  steps : (key :: path).IsChain fun next previous ↦ Need nodes needs previous next

theorem Trail.nil (nodes : List Key) (needs : Key → List Key) (key : Key) :
    Trail nodes needs [] key :=
  ⟨List.nodup_nil, List.isChain_singleton key⟩

theorem Trail.cons {key next : Key} (htrail : Trail nodes needs path key) (hpath : key ∉ path)
    (hnode : key ∈ nodes) (hnext : next ∈ needs key) : Trail nodes needs (key :: path) next :=
  ⟨List.nodup_cons.mpr ⟨hpath, htrail.nodup⟩,
    List.isChain_cons_cons.mpr ⟨⟨hnode, hnext⟩, htrail.steps⟩⟩

theorem closeCycle_eq_reverse (path : List Key) (key : Key) :
    closeCycle path key = (key :: (path.takeWhile (· ≠ key) ++ [key])).reverse := by
  rw [List.reverse_cons, closeCycle]

theorem takeWhile_append_prefix {key : Key} (hmem : key ∈ path) :
    path.takeWhile (· ≠ key) ++ [key] <+: path := by
  induction path with
  | nil => cases hmem
  | cons first rest ih =>
    by_cases hfirst : first = key
    · subst hfirst
      rw [List.takeWhile_cons_of_neg (by simp), List.nil_append]
      exact List.cons_prefix_cons.mpr ⟨rfl, List.nil_prefix⟩
    · rw [List.takeWhile_cons_of_pos (by simpa using hfirst), List.cons_append]
      have hrest : key ∈ rest := (List.mem_cons.mp hmem).resolve_left (Ne.symm hfirst)
      exact List.cons_prefix_cons.mpr ⟨rfl, ih hrest⟩

/-- Coming back to a key of the path closes a cycle. -/
theorem Trail.simpleCycle {key : Key} (htrail : Trail nodes needs path key) (hmem : key ∈ path) :
    SimpleCycle (Need nodes needs) (closeCycle path key) := by
  have hprefix := takeWhile_append_prefix hmem
  rw [closeCycle_eq_reverse]
  refine ⟨?_, ?_, ?_, ?_⟩
  · simp
  · rw [List.getLast?_reverse, List.head?_reverse, List.getLast?_cons, List.getLast?_concat]
    rfl
  · rw [List.reverse_cons, List.dropLast_concat, List.nodup_reverse]
    exact htrail.nodup.sublist hprefix.sublist
  · rw [List.isChain_reverse]
    exact htrail.steps.prefix (List.cons_prefix_cons.mpr ⟨rfl, hprefix⟩)

/-! ### What holds during a walk -/

/-- Each key of a list stands after all the nodes that it needs. -/
def Ordered (nodes : List Key) (needs : Key → List Key) (order : List Key) : Prop :=
  ∀ front key back, order = front ++ key :: back →
    ∀ next ∈ needs key, next ∈ nodes → next ∈ front

theorem Ordered.concat {order : List Key} {key : Key} (hordered : Ordered nodes needs order)
    (hkey : ∀ next ∈ needs key, next ∈ nodes → next ∈ order) :
    Ordered nodes needs (order ++ [key]) := by
  intro front other back hsplit next hnext hnode
  rcases List.eq_nil_or_concat back with rfl | ⟨rest, last, rfl⟩
  · obtain ⟨rfl, hlast⟩ := List.append_inj' hsplit rfl
    obtain rfl : key = other := List.singleton_inj.mp hlast
    exact hkey next hnext hnode
  · rw [List.concat_eq_append, ← List.cons_append, ← List.append_assoc] at hsplit
    obtain ⟨horder, -⟩ := List.append_inj' hsplit rfl
    exact hordered front other rest horder next hnext hnode

/-- The invariant of a walk that has come along a path. -/
structure Sound (nodes : List Key) (needs : Key → List Key) (path : List Key) (walk : Walk) :
    Prop where
  nodup : walk.order.Nodup
  subset : walk.order ⊆ nodes
  ordered : Ordered nodes needs walk.order
  apart : ∀ key ∈ path, key ∉ walk.order
  genuine : ∀ cycle, walk.cycle = some cycle → SimpleCycle (Need nodes needs) cycle

theorem sound_start (nodes : List Key) (needs : Key → List Key) :
    Sound nodes needs [] ⟨[], none⟩ where
  nodup := List.nodup_nil
  subset := List.nil_subset nodes
  ordered := by
    intro front key back hsplit
    cases front <;> cases hsplit
  apart := by
    intro key hkey
    cases hkey
  genuine := by
    intro cycle hcycle
    cases hcycle

theorem Sound.cons {walk : Walk} {key : Key} (hsound : Sound nodes needs path walk)
    (hkey : key ∉ walk.order) : Sound nodes needs (key :: path) walk :=
  { hsound with apart := List.forall_mem_cons.mpr ⟨hkey, hsound.apart⟩ }

theorem Sound.of_cons {walk : Walk} {key : Key} (hsound : Sound nodes needs (key :: path) walk) :
    Sound nodes needs path walk :=
  { hsound with apart := (List.forall_mem_cons.mp hsound.apart).2 }

/-- A key is finished when all the nodes that it needs are. -/
theorem Sound.finish {walk : Walk} {key : Key} (hsound : Sound nodes needs (key :: path) walk)
    (hpath : key ∉ path) (hnode : key ∈ nodes)
    (hneeds : ∀ next ∈ needs key, next ∈ nodes → next ∈ walk.order) :
    Sound nodes needs path { walk with order := walk.order ++ [key] } where
  nodup := by
    have hfresh := hsound.apart key List.mem_cons_self
    exact List.nodup_append.mpr ⟨hsound.nodup, List.nodup_singleton key, by
      intro first hfirst second hsecond heq
      rw [List.mem_singleton] at hsecond
      exact hfresh (hsecond ▸ heq ▸ hfirst)⟩
  subset := List.append_subset.mpr ⟨hsound.subset, List.cons_subset.mpr ⟨hnode, List.nil_subset _⟩⟩
  ordered := hsound.ordered.concat hneeds
  apart := by
    intro other hother hmem
    rcases List.mem_append.mp hmem with hmem | hmem
    · exact hsound.apart other (List.mem_cons_of_mem key hother) hmem
    · exact hpath (List.mem_singleton.mp hmem ▸ hother)
  genuine := hsound.genuine

/-- What a walk gains between two moments at which it has come along the same path,
having been sent to some keys: they are finished, or there is a cycle. -/
structure Reached (nodes : List Key) (needs : Key → List Key) (path keys : List Key)
    (first last : Walk) : Prop where
  sound : Sound nodes needs path last
  grows : first.order <+: last.order
  calm : last.cycle = none → first.cycle = none
  covers : last.cycle = none → ∀ key ∈ keys, key ∈ nodes → key ∈ last.order

theorem Reached.refl {walk : Walk} (hsound : Sound nodes needs path walk) :
    Reached nodes needs path [] walk walk :=
  ⟨hsound, List.prefix_rfl, id, fun _ key hkey ↦ by cases hkey⟩

theorem Reached.trans {keys more : List Key} {first middle last : Walk}
    (hfirst : Reached nodes needs path keys first middle)
    (hlast : Reached nodes needs path more middle last) :
    Reached nodes needs path (keys ++ more) first last where
  sound := hlast.sound
  grows := hfirst.grows.trans hlast.grows
  calm := fun h ↦ hfirst.calm (hlast.calm h)
  covers := by
    intro hcycle key hkey hnode
    rcases List.mem_append.mp hkey with hkey | hkey
    · exact hlast.grows.subset (hfirst.covers (hlast.calm hcycle) key hkey hnode)
    · exact hlast.covers hcycle key hkey hnode

/-- Visits one after the other gain what each of them gains. -/
theorem foldl_visit_reached {keys : List Key}
    (hvisit : ∀ key ∈ keys, ∀ walk, Sound nodes needs path walk →
      Reached nodes needs path [key] walk (visit nodes needs path walk key))
    {walk : Walk} (hsound : Sound nodes needs path walk) :
    Reached nodes needs path keys walk (keys.foldl (visit nodes needs path) walk) := by
  induction keys generalizing walk with
  | nil => exact .refl hsound
  | cons key rest ih =>
    have hfirst := hvisit key List.mem_cons_self walk hsound
    have hrest := ih (fun other hother ↦ hvisit other (List.mem_cons_of_mem key hother))
      hfirst.sound
    exact hfirst.trans hrest

/-- A visit finishes its key, or comes back with a cycle. -/
theorem visit_reached {walk : Walk} {key : Key} (htrail : Trail nodes needs path key)
    (hsound : Sound nodes needs path walk) :
    Reached nodes needs path [key] walk (visit nodes needs path walk key) := by
  fun_induction visit nodes needs path walk key with
  | case1 path walk key hdone =>
    refine { Reached.refl hsound with covers := ?_ }
    intro hcycle other hother _
    rw [List.mem_singleton.mp hother]
    exact hdone.resolve_left (by simp [hcycle])
  | case2 path walk key _ hpath =>
    refine ⟨{ hsound with genuine := ?_ }, List.prefix_rfl, nofun, nofun⟩
    intro cycle hcycle
    exact Option.some.inj hcycle ▸ htrail.simpleCycle hpath
  | case3 path walk key hdone hpath hnode _ inner hcycle ih =>
    have hinner : Reached nodes needs (key :: path) (needs key) walk inner :=
      foldl_visit_reached (fun next hnext w hw ↦ ih w next (htrail.cons hpath hnode hnext) hw)
        (hsound.cons (not_or.mp hdone).2)
    refine ⟨hinner.sound.of_cons, hinner.grows, hinner.calm, ?_⟩
    intro hnone
    simp [hnone] at hcycle
  | case4 path walk key hdone hpath hnode _ inner hcycle ih =>
    have hinner : Reached nodes needs (key :: path) (needs key) walk inner :=
      foldl_visit_reached (fun next hnext w hw ↦ ih w next (htrail.cons hpath hnode hnext) hw)
        (hsound.cons (not_or.mp hdone).2)
    have hnone : inner.cycle = none := Option.not_isSome_iff_eq_none.mp hcycle
    refine ⟨hinner.sound.finish hpath hnode (hinner.covers hnone), ?_, hinner.calm, ?_⟩
    · exact hinner.grows.trans (List.prefix_append _ _)
    · intro _ other hother _
      rw [List.mem_singleton.mp hother]
      exact List.mem_append_right _ List.mem_cons_self
  | case5 path walk key _ _ hnode =>
    refine { Reached.refl hsound with covers := ?_ }
    intro _ other hother hmem
    exact absurd (List.mem_singleton.mp hother ▸ hmem) hnode

/-! ### What a whole walk gives -/

theorem all_reached (nodes : List Key) (needs : Key → List Key) :
    Reached nodes needs [] nodes ⟨[], none⟩ (all nodes needs) :=
  foldl_visit_reached (fun key _ _ hsound ↦ visit_reached (Trail.nil nodes needs key) hsound)
    (sound_start nodes needs)

theorem mem_order_all (hcycle : (all nodes needs).cycle = none) {key : Key} :
    key ∈ (all nodes needs).order ↔ key ∈ nodes :=
  ⟨fun hkey ↦ (all_reached nodes needs).sound.subset hkey,
    fun hkey ↦ (all_reached nodes needs).covers hcycle key hkey hkey⟩

/-- The front part of an ordered list has all the nodes that its keys lead to. -/
theorem Ordered.mem_of_transGen {front back : List Key} {key next : Key}
    (hordered : Ordered nodes needs (front ++ back)) (hkey : key ∈ front)
    (hlead : Relation.TransGen (Need nodes needs) key next) (hnode : next ∈ nodes) :
    next ∈ front := by
  have hstep : ∀ other ∈ front, ∀ after ∈ needs other, after ∈ nodes → after ∈ front := by
    intro other hother after hafter hmem
    obtain ⟨before, rest, rfl⟩ := List.append_of_mem hother
    rw [List.append_assoc, List.cons_append] at hordered
    exact List.mem_append_left _ (hordered before other _ rfl after hafter hmem)
  induction hlead with
  | single hneed => exact hstep key hkey _ hneed.2 hnode
  | tail _ hneed ih => exact hstep _ (ih hneed.1) _ hneed.2 hnode

/-- In an ordered list a key stands after all the nodes that it leads to. -/
theorem Ordered.mem_front_of_transGen {front back : List Key} {key next : Key}
    (hordered : Ordered nodes needs (front ++ key :: back))
    (hlead : Relation.TransGen (Need nodes needs) key next) (hnode : next ∈ nodes) :
    next ∈ front := by
  obtain ⟨first, hneed, hrest⟩ := Relation.TransGen.head'_iff.mp hlead
  have hfirst : first ∈ nodes → first ∈ front := hordered front key back rfl first hneed.2
  rcases hrest.cases_head with rfl | ⟨second, hsecond, htail⟩
  · exact hfirst hnode
  · exact hordered.mem_of_transGen (hfirst hsecond.1) (.head' hsecond htail) hnode

/-- A walk that lists every node has met no cycle, as there is none. -/
theorem acyclic_of_cycle_eq_none (hcycle : (all nodes needs).cycle = none) :
    Acyclic (Need nodes needs) := by
  intro key hlead
  obtain ⟨next, hneed, -⟩ := Relation.TransGen.head'_iff.mp hlead
  have hsound := (all_reached nodes needs).sound
  obtain ⟨front, back, hsplit⟩ := List.append_of_mem ((mem_order_all hcycle).mpr hneed.1)
  have hfront : key ∈ front := (hsplit ▸ hsound.ordered).mem_front_of_transGen hlead hneed.1
  have hnodup := hsound.nodup
  rw [hsplit] at hnodup
  exact List.disjoint_of_nodup_append hnodup hfront List.mem_cons_self

/-- A walk meets a cycle exactly when the nodes have one, wherever it lies. -/
theorem cycle_all_eq_none_iff :
    (all nodes needs).cycle = none ↔ Acyclic (Need nodes needs) := by
  constructor
  · exact acyclic_of_cycle_eq_none
  · intro hacyclic
    rw [Option.eq_none_iff_forall_ne_some]
    intro cycle hcycle
    exact ((all_reached nodes needs).sound.genuine cycle hcycle).not_acyclic hacyclic

/-- Nodes that lead back to themselves have a cycle that passes no key twice. -/
theorem acyclic_iff_forall_not_simpleCycle :
    Acyclic (Need nodes needs) ↔ ∀ path, ¬ SimpleCycle (Need nodes needs) path := by
  constructor
  · intro hacyclic path hpath
    exact hpath.not_acyclic hacyclic
  · intro hnone
    rw [← cycle_all_eq_none_iff, Option.eq_none_iff_forall_ne_some]
    intro cycle hcycle
    exact hnone cycle ((all_reached nodes needs).sound.genuine cycle hcycle)

/-! ### Nodes that stand in order -/

/-- A visit to a finished key, or to one that is no node, changes nothing. -/
theorem visit_eq_self {walk : Walk} {key : Key} (hpath : path ⊆ nodes)
    (hdone : key ∈ nodes → key ∈ walk.order) : visit nodes needs path walk key = walk := by
  rw [visit]
  by_cases hnode : key ∈ nodes
  · rw [if_pos (.inr (hdone hnode))]
  · have hoff : key ∉ path := fun hmem ↦ hnode (hpath hmem)
    rw [dif_neg hoff, dif_neg hnode, ite_self]

theorem foldl_visit_eq_self {walk : Walk} {keys : List Key} (hpath : path ⊆ nodes)
    (hdone : ∀ key ∈ keys, key ∈ nodes → key ∈ walk.order) :
    keys.foldl (visit nodes needs path) walk = walk := by
  induction keys with
  | nil => rfl
  | cons key keys ih =>
    rw [List.foldl_cons, visit_eq_self hpath (hdone key List.mem_cons_self)]
    exact ih fun other hother ↦ hdone other (List.mem_cons_of_mem key hother)

/-- A visit to a node whose needs are finished finishes that node alone. -/
theorem visit_of_ready {order : List Key} {key : Key} (hnode : key ∈ nodes) (hfresh : key ∉ order)
    (hready : ∀ next ∈ needs key, next ∈ nodes → next ∈ order) :
    visit nodes needs [] ⟨order, none⟩ key = ⟨order ++ [key], none⟩ := by
  have hinner : (needs key).foldl (visit nodes needs [key]) ⟨order, none⟩ = ⟨order, none⟩ :=
    foldl_visit_eq_self (List.cons_subset.mpr ⟨hnode, List.nil_subset _⟩) hready
  have hopen : ¬ ((none : Option (List Key)).isSome = true ∨ key ∈ order) := by simpa using hfresh
  rw [visit, if_neg hopen, dif_neg List.not_mem_nil, dif_pos hnode]
  simp only [hinner]
  rfl

/-- Nodes that stand after all they need are finished in their own order. -/
theorem all_of_ordered (hnodup : nodes.Nodup) (hordered : Ordered nodes needs nodes) :
    all nodes needs = ⟨nodes, none⟩ := by
  -- after each visit the finished keys are the front part of the nodes
  have hrest (front back : List Key) (hsplit : nodes = front ++ back) :
      back.foldl (visit nodes needs []) ⟨front, none⟩ = ⟨nodes, none⟩ := by
    induction back generalizing front with
    | nil => rw [hsplit, List.append_nil, List.foldl_nil]
    | cons key back ih =>
      have hnode : key ∈ nodes := hsplit ▸ List.mem_append_right _ List.mem_cons_self
      have hfresh : key ∉ front := fun hmem ↦
        List.disjoint_of_nodup_append (hsplit ▸ hnodup) hmem List.mem_cons_self
      rw [List.foldl_cons, visit_of_ready hnode hfresh (hordered front key back hsplit)]
      exact ih (front ++ [key]) (by rw [hsplit, List.append_assoc, List.singleton_append])
  exact hrest [] nodes rfl

end Walk

end ApiHeader
