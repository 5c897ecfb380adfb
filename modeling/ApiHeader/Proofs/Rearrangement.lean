import ApiHeader.Proofs.Coverage
import Mathlib.Data.List.Perm.Basic

/-!
# Sections in another order

`SameBlocks` says of two lists that they have the same blocks, one for each key, and
differ at most in the order of the blocks. `Rearranges` relates two computations whose
results do so. Gathering the blocks of some subjects in another order rearranges them
(`Rearranges.gather`); so does a section that follows a walk over the same needs, since
a walk lists the same keys wherever it starts (`Walk.order_perm`).
-/

set_option autoImplicit false
set_option relaxedAutoImplicit false

namespace ApiHeader

/-- Both lists are made of the same blocks. A block has all the members of one key, of
which there are some. -/
def SameBlocks {α : Type} (key : α → Key) (as bs : List α) : Prop :=
  ∃ blocks others : List (List α), blocks.Perm others ∧ as = blocks.flatten ∧
    bs = others.flatten ∧ ∀ block ∈ blocks, block ≠ [] ∧
      ∃ k, block = (as.filter fun a ↦ key a = k) ∧ block = bs.filter fun b ↦ key b = k

namespace SameBlocks

variable {α : Type} {key : α → Key} {as bs cs ds : List α}

theorem perm (h : SameBlocks key as bs) : as.Perm bs := by
  obtain ⟨blocks, others, hperm, rfl, rfl, -⟩ := h
  exact hperm.flatten

/-- A key that one of two lists does not have has its block in the other. -/
theorem filter_append_left (hdisjoint : ∀ a ∈ as, ∀ c ∈ cs, key a ≠ key c) {k : Key}
    (hblock : (as.filter fun a ↦ key a = k) ≠ []) :
    ((as ++ cs).filter fun a ↦ key a = k) = as.filter fun a ↦ key a = k := by
  obtain ⟨a, ha⟩ := List.exists_mem_of_ne_nil _ hblock
  rw [List.mem_filter, decide_eq_true_eq] at ha
  rw [List.filter_append, List.append_right_eq_self, List.filter_eq_nil_iff]
  intro c hc hkey
  rw [decide_eq_true_eq] at hkey
  exact hdisjoint a ha.1 c hc (ha.2.trans hkey.symm)

theorem filter_append_right (hdisjoint : ∀ a ∈ as, ∀ c ∈ cs, key a ≠ key c) {k : Key}
    (hblock : (cs.filter fun c ↦ key c = k) ≠ []) :
    ((as ++ cs).filter fun a ↦ key a = k) = cs.filter fun c ↦ key c = k := by
  obtain ⟨c, hc⟩ := List.exists_mem_of_ne_nil _ hblock
  rw [List.mem_filter, decide_eq_true_eq] at hc
  rw [List.filter_append, List.append_left_eq_self, List.filter_eq_nil_iff]
  intro a ha hkey
  rw [decide_eq_true_eq] at hkey
  exact hdisjoint a ha c hc.1 (hkey.trans hc.2.symm)

/-- Lists one after the other keep their blocks if they have no key in common. -/
theorem append (hleft : SameBlocks key as bs) (hright : SameBlocks key cs ds)
    (hdisjoint : ∀ a ∈ as, ∀ c ∈ cs, key a ≠ key c) : SameBlocks key (as ++ cs) (bs ++ ds) := by
  have hother : ∀ b ∈ bs, ∀ d ∈ ds, key b ≠ key d := fun b hb d hd ↦
    hdisjoint b (hleft.perm.mem_iff.mpr hb) d (hright.perm.mem_iff.mpr hd)
  obtain ⟨blocks, others, hperm, has, hbs, hblocks⟩ := hleft
  obtain ⟨blocks', others', hperm', hcs, hds, hblocks'⟩ := hright
  refine ⟨blocks ++ blocks', others ++ others', hperm.append hperm', ?_, ?_, ?_⟩
  · rw [List.flatten_append, ← has, ← hcs]
  · rw [List.flatten_append, ← hbs, ← hds]
  · intro block hblock
    rcases List.mem_append.mp hblock with hblock | hblock
    · obtain ⟨hsome, k, hfirst, hsecond⟩ := hblocks block hblock
      refine ⟨hsome, k, ?_, ?_⟩
      · rw [filter_append_left hdisjoint (hfirst ▸ hsome), ← hfirst]
      · rw [filter_append_left hother (hsecond ▸ hsome), ← hsecond]
    · obtain ⟨hsome, k, hfirst, hsecond⟩ := hblocks' block hblock
      refine ⟨hsome, k, ?_, ?_⟩
      · rw [filter_append_right hdisjoint (hfirst ▸ hsome), ← hfirst]
      · rw [filter_append_right hother (hsecond ▸ hsome), ← hsecond]

end SameBlocks

/-- Whenever the first of two computations gives a list, the second gives one with the
same blocks. -/
def Rearranges {α : Type} (key : α → Key) (x y : Except HeaderError (List α)) : Prop :=
  ∀ as, x = .ok as → ∃ bs, y = .ok bs ∧ SameBlocks key as bs

theorem Rearranges.sameBlocks {α : Type} {key : α → Key} {as bs : List α}
    (h : Rearranges key (.ok as) (.ok bs)) : SameBlocks key as bs := by
  obtain ⟨found, hfound, hsame⟩ := h as rfl
  rwa [Except.ok.inj hfound]

/-- Computations one after the other, with no key in common. -/
theorem Rearranges.append {α : Type} {key : α → Key} {x x' y y' : Except HeaderError (List α)}
    (hx : Rearranges key x x') (hy : Rearranges key y y')
    (hdisjoint : ∀ as bs, x = .ok as → y = .ok bs → ∀ a ∈ as, ∀ b ∈ bs, key a ≠ key b) :
    Rearranges key (x >>= fun as ↦ y >>= fun bs ↦ pure (as ++ bs))
      (x' >>= fun as ↦ y' >>= fun bs ↦ pure (as ++ bs)) := by
  intro all hall
  obtain ⟨as, has, hall⟩ := bind_eq_ok_iff.mp hall
  obtain ⟨bs, hbs, hall⟩ := bind_eq_ok_iff.mp hall
  obtain rfl : as ++ bs = all := Except.ok.inj hall
  obtain ⟨as', has', hfirst⟩ := hx as has
  obtain ⟨bs', hbs', hsecond⟩ := hy bs hbs
  exact ⟨as' ++ bs', bind_eq_ok_iff.mpr ⟨as', has', bind_eq_ok_iff.mpr ⟨bs', hbs', rfl⟩⟩,
    hfirst.append hsecond (hdisjoint as bs has hbs)⟩

section Gather

variable {α β : Type} {block : α → Except HeaderError (List β)} {as others : List α}

theorem gather_eq_ok_iff {bs : List β} : gather block as = .ok bs ↔
    ∃ blocks, List.Forall₂ (fun a own ↦ block a = .ok own) as blocks ∧ bs = blocks.flatten := by
  induction as generalizing bs with
  | nil =>
    constructor
    · intro h
      exact ⟨[], .nil, (Except.ok.inj h).symm⟩
    · rintro ⟨blocks, hblocks, rfl⟩
      cases hblocks
      rfl
  | cons a as ih =>
    rw [gather_cons_eq_ok_iff]
    constructor
    · rintro ⟨own, rest, hown, hrest, rfl⟩
      obtain ⟨blocks, hblocks, rfl⟩ := ih.mp hrest
      exact ⟨own :: blocks, .cons hown hblocks, rfl⟩
    · rintro ⟨_, hblocks, rfl⟩
      obtain ⟨own, rest, hown, hrest, rfl⟩ := List.forall₂_cons_left_iff.mp hblocks
      exact ⟨own, rest.flatten, hown, ih.mpr ⟨rest, hrest, rfl⟩, rfl⟩

variable {key : β → Key} {label : α → Key}

/-- Where each block has a key of its own, it has all the members of that key. -/
theorem filter_flatten_blocks {blocks : List (List β)}
    (hkey : ∀ a own, block a = .ok own → ∀ b ∈ own, key b = label a)
    (hblocks : List.Forall₂ (fun a own ↦ block a = .ok own) as blocks)
    (hnodup : (as.map label).Nodup) :
    ∀ own ∈ blocks, ∀ b ∈ own,
      own = blocks.flatten.filter fun other ↦ key other = key b := by
  induction hblocks with
  | nil =>
    intro own hown
    cases hown
  | @cons a first as blocks hfirst hblocks ih =>
    rw [List.map_cons, List.nodup_cons] at hnodup
    have hrest : ∀ b ∈ blocks.flatten, key b ∈ as.map label := by
      intro b hb
      have hgather : gather block as = .ok blocks.flatten := gather_eq_ok_iff.mpr ⟨_, hblocks, rfl⟩
      obtain ⟨c, hc, own, hown, hmem⟩ := (mem_gather_iff hgather).mp hb
      exact hkey c own hown b hmem ▸ List.mem_map_of_mem hc
    have hapart : ∀ b ∈ first, ∀ c ∈ blocks.flatten, key b ≠ key c := by
      intro b hb c hc heq
      exact hnodup.1 (hkey a first hfirst b hb ▸ heq ▸ hrest c hc)
    intro own hown b hb
    have hsome : own ≠ [] := List.ne_nil_of_mem hb
    rw [List.flatten_cons]
    rcases List.mem_cons.mp hown with rfl | hown
    · have hself : (own.filter fun other ↦ key other = key b) = own := by
        rw [List.filter_eq_self]
        intro c hc
        rw [decide_eq_true_eq, hkey a own hfirst c hc, hkey a own hfirst b hb]
      rw [SameBlocks.filter_append_left hapart (by rwa [hself]), hself]
    · have hself := ih hnodup.2 own hown b hb
      rw [SameBlocks.filter_append_right hapart (by rwa [← hself]), ← hself]

theorem SameBlocks.of_forall₂ {blocks permuted : List (List β)} (hperm : as.Perm others)
    (hnodup : (as.map label).Nodup)
    (hkey : ∀ a own, block a = .ok own → ∀ b ∈ own, key b = label a)
    (hblocks : List.Forall₂ (fun a own ↦ block a = .ok own) as blocks)
    (hpermuted : List.Forall₂ (fun a own ↦ block a = .ok own) others permuted)
    (hsame : blocks.Perm permuted) : SameBlocks key blocks.flatten permuted.flatten := by
  -- empty blocks add nothing and have no key
  refine ⟨blocks.filter (! ·.isEmpty), permuted.filter (! ·.isEmpty), hsame.filter _, ?_, ?_, ?_⟩
  · rw [List.flatten_filter_not_isEmpty]
  · rw [List.flatten_filter_not_isEmpty]
  · intro own hown
    obtain ⟨hown, hsome⟩ := List.mem_filter.mp hown
    have hne : own ≠ [] := by simpa using hsome
    obtain ⟨b, hb⟩ := List.exists_mem_of_ne_nil own hne
    have hother := (hperm.map label).nodup_iff.mp hnodup
    exact ⟨hne, key b, filter_flatten_blocks hkey hblocks hnodup own hown b hb,
      filter_flatten_blocks hkey hpermuted hother own (hsame.mem_iff.mp hown) b hb⟩

/-- The blocks of subjects with distinct keys are the same in every order of these. -/
theorem Rearranges.gather (label : α → Key) (hperm : as.Perm others)
    (hnodup : (as.map label).Nodup)
    (hkey : ∀ a own, block a = .ok own → ∀ b ∈ own, key b = label a) :
    Rearranges key (gather block as) (gather block others) := by
  intro bs hbs
  obtain ⟨blocks, hblocks, rfl⟩ := gather_eq_ok_iff.mp hbs
  obtain ⟨permuted, hpermuted, hsame⟩ := List.perm_comp_forall₂ hperm.symm hblocks
  exact ⟨permuted.flatten, gather_eq_ok_iff.mpr ⟨permuted, hpermuted, rfl⟩,
    .of_forall₂ hperm hnodup hkey hblocks hpermuted hsame.symm⟩

end Gather

/-! ### Walks -/

namespace Walk

variable {nodes others : List Key} {needs needs' : Key → List Key}

theorem cycle_eq_none_of_need_eq (hneed : Need nodes needs = Need others needs')
    (hcycle : (all nodes needs).cycle = none) : (all others needs').cycle = none := by
  rw [cycle_all_eq_none_iff] at hcycle ⊢
  rwa [← hneed]

/-- A walk lists the same keys wherever it starts. -/
theorem order_perm (hnodes : ∀ key, key ∈ nodes ↔ key ∈ others)
    (hcycle : (all nodes needs).cycle = none) (hother : (all others needs').cycle = none) :
    (all nodes needs).order.Perm (all others needs').order := by
  rw [List.perm_ext_iff_of_nodup (all_reached nodes needs).sound.nodup
    (all_reached others needs').sound.nodup]
  intro key
  rw [mem_order_all hcycle, mem_order_all hother, hnodes]

end Walk

end ApiHeader
