import ApiHeader.Logged
import Mathlib.Data.List.Forall2

/-!
# Computations that check for faults

A computation for each member of a list succeeds with their results in order
(`mapM_eq_ok_iff`), or fails as the first of them that fails (`mapM_eq_error_iff`).
`Checks x fault` says what a computation that may fail is for: it fails with a fault
when there is one, and only then. Computations put together from such checks look
for the faults of all their parts: one after the other (`Checks.bind`), for each
member of a list (`Checks.mapM`, `Logged.checks_collect`).
-/

set_option autoImplicit false
set_option relaxedAutoImplicit false

namespace ApiHeader

instance decidableEqExcept {ε α : Type} [DecidableEq ε] [DecidableEq α] :
    DecidableEq (Except ε α)
  | .ok _, .ok _ => decidable_of_iff _ ⟨congrArg Except.ok, Except.ok.inj⟩
  | .error _, .error _ => decidable_of_iff _ ⟨congrArg Except.error, Except.error.inj⟩
  | .ok _, .error _ => isFalse nofun
  | .error _, .ok _ => isFalse nofun

section Except

variable {ε α β : Type} {x : Except ε α} {f : α → Except ε β}

theorem bind_eq_ok_iff {b : β} : x >>= f = .ok b ↔ ∃ a, x = .ok a ∧ f a = .ok b := by
  cases x with
  | ok a =>
    constructor
    · intro h
      exact ⟨a, rfl, h⟩
    · rintro ⟨_, ha, h⟩
      exact Except.ok.inj ha ▸ h
  | error e => exact ⟨nofun, nofun⟩

theorem exists_ok_of_isOk (h : x.isOk = true) : ∃ a, x = .ok a := by
  cases x with
  | ok a => exact ⟨a, rfl⟩
  | error e => cases h

theorem bind_eq_error_iff {e : ε} :
    x >>= f = .error e ↔ x = .error e ∨ ∃ a, x = .ok a ∧ f a = .error e := by
  cases x with
  | ok a =>
    constructor
    · intro h
      exact .inr ⟨a, rfl, h⟩
    · rintro (h | ⟨_, ha, h⟩)
      · cases h
      · exact Except.ok.inj ha ▸ h
  | error first =>
    constructor
    · intro h
      exact .inl (congrArg Except.error (Except.error.inj h))
    · rintro (h | ⟨_, ha, -⟩)
      · exact congrArg Except.error (Except.error.inj h)
      · cases ha

theorem map_eq_ok_iff {g : α → β} {b : β} : x.map g = .ok b ↔ ∃ a, x = .ok a ∧ g a = b := by
  cases x with
  | ok a =>
    constructor
    · intro h
      exact ⟨a, rfl, Except.ok.inj h⟩
    · rintro ⟨_, ha, rfl⟩
      rw [ha]
      rfl
  | error e => exact ⟨nofun, nofun⟩

theorem map_eq_error_iff {g : α → β} {e : ε} : x.map g = .error e ↔ x = .error e := by
  cases x with
  | ok a => exact ⟨nofun, nofun⟩
  | error first =>
    constructor
    · intro h
      exact congrArg Except.error (Except.error.inj h)
    · intro h
      exact congrArg Except.error (Except.error.inj h)

/-! ### One computation for each member of a list -/

variable {as : List α} {bs : List β}

theorem mapM_eq_ok_iff : as.mapM f = .ok bs ↔ List.Forall₂ (fun a b ↦ f a = .ok b) as bs := by
  induction as generalizing bs with
  | nil =>
    rw [List.mapM_nil, List.forall₂_nil_left_iff]
    constructor
    · intro h
      exact (Except.ok.inj h).symm
    · rintro rfl
      rfl
  | cons a as ih =>
    rw [List.mapM_cons, bind_eq_ok_iff, List.forall₂_cons_left_iff]
    constructor
    · rintro ⟨b, hb, h⟩
      obtain ⟨rest, hrest, h⟩ := bind_eq_ok_iff.mp h
      exact ⟨b, rest, hb, ih.mp hrest, (Except.ok.inj h).symm⟩
    · rintro ⟨b, rest, hb, hrest, rfl⟩
      exact ⟨b, hb, bind_eq_ok_iff.mpr ⟨rest, ih.mpr hrest, rfl⟩⟩

theorem exists_ok_of_mapM (h : as.mapM f = .ok bs) {a : α} (ha : a ∈ as) : ∃ b, f a = .ok b := by
  have hall : List.Forall₂ (fun a b ↦ (∃ b, f a = .ok b) ∧ f a = .ok b) as bs :=
    (mapM_eq_ok_iff.mp h).imp fun _ b hb ↦ ⟨⟨b, hb⟩, hb⟩
  exact ((List.forall₂_and_left as bs).mp hall).1 a ha

/-- The first member whose computation fails tells how all of them fail. -/
theorem mapM_eq_error_iff {e : ε} : as.mapM f = .error e ↔
    ∃ front a back, as = front ++ a :: back ∧ (∀ earlier ∈ front, ∃ b, f earlier = .ok b) ∧
      f a = .error e := by
  induction as with
  | nil =>
    rw [List.mapM_nil]
    constructor
    · intro h
      cases h
    · rintro ⟨front, a, back, has, -⟩
      simp at has
  | cons first rest ih =>
    rw [List.mapM_cons, bind_eq_error_iff]
    constructor
    · rintro (h | ⟨b, hb, h⟩)
      · exact ⟨[], first, rest, rfl, by simp, h⟩
      · rcases bind_eq_error_iff.mp h with h | ⟨bs, -, h⟩
        · obtain ⟨front, a, back, rfl, hfront, ha⟩ := ih.mp h
          refine ⟨first :: front, a, back, rfl, ?_, ha⟩
          exact List.forall_mem_cons.mpr ⟨⟨b, hb⟩, hfront⟩
        · cases h
    · rintro ⟨front, a, back, has, hfront, ha⟩
      cases front with
      | nil =>
        obtain ⟨rfl, rfl⟩ := List.cons.inj has
        exact .inl ha
      | cons _ front =>
        obtain ⟨rfl, rfl⟩ := List.cons.inj has
        obtain ⟨⟨b, hb⟩, hfront⟩ := List.forall_mem_cons.mp hfront
        refine .inr ⟨b, hb, bind_eq_error_iff.mpr (.inl ?_)⟩
        exact ih.mpr ⟨front, a, back, rfl, hfront, ha⟩

/-- Computations that agree member by member agree on the lists. -/
theorem mapM_eq_of_forall₂ {γ : Type} {g : γ → Except ε β} {cs : List γ}
    (h : List.Forall₂ (fun a c ↦ f a = g c) as cs) : as.mapM f = cs.mapM g := by
  induction h with
  | nil => rfl
  | cons hhead _ ih => rw [List.mapM_cons, List.mapM_cons, hhead, ih]

end Except

/-- A computation fails with a fault if there is one, and only then. -/
structure Checks {α : Type} (x : Except HeaderError α) (fault : HeaderError → Prop) : Prop where
  genuine : ∀ e, x = .error e → fault e
  thorough : ∀ a, x = .ok a → ∀ e, ¬ fault e

namespace Checks

variable {α β : Type} {x : Except HeaderError α} {fault other : HeaderError → Prop}

theorem exists_ok_iff (hx : Checks x fault) : (∃ a, x = .ok a) ↔ ∀ e, ¬ fault e := by
  constructor
  · rintro ⟨a, ha⟩
    exact hx.thorough a ha
  · intro hnone
    cases x with
    | ok a => exact ⟨a, rfl⟩
    | error e => exact absurd (hx.genuine e rfl) (hnone e)

theorem congr (hx : Checks x fault) (hiff : ∀ e, fault e ↔ other e) : Checks x other :=
  ⟨fun e he ↦ (hiff e).mp (hx.genuine e he),
    fun a ha e he ↦ hx.thorough a ha e ((hiff e).mpr he)⟩

theorem ok (a : α) : Checks (.ok a) fun _ ↦ False :=
  ⟨nofun, fun _ _ _ ↦ id⟩

theorem bind {f : α → Except HeaderError β} (hx : Checks x fault)
    (hf : ∀ a, Checks (f a) other) : Checks (x >>= f) fun e ↦ fault e ∨ other e where
  genuine := by
    intro e he
    rcases bind_eq_error_iff.mp he with he | ⟨a, -, he⟩
    · exact .inl (hx.genuine e he)
    · exact .inr ((hf a).genuine e he)
  thorough := by
    intro b hb e he
    obtain ⟨a, ha, hb⟩ := bind_eq_ok_iff.mp hb
    exact he.elim (hx.thorough a ha e) ((hf a).thorough b hb e)

/-- What is done with a result that can no longer fail finds no more faults. -/
theorem map {f : α → β} (hx : Checks x fault) : Checks (x >>= fun a ↦ pure (f a)) fault :=
  (hx.bind fun a ↦ ok (f a)).congr fun e ↦ by rw [or_false]

theorem mapM {f : α → Except HeaderError β} {faults : α → HeaderError → Prop} {as : List α}
    (hf : ∀ a ∈ as, Checks (f a) (faults a)) :
    Checks (as.mapM f) fun e ↦ ∃ a ∈ as, faults a e := by
  induction as with
  | nil =>
    rw [List.mapM_nil]
    exact (ok _).congr fun e ↦ by simp
  | cons a as ih =>
    rw [List.mapM_cons]
    have hrest := ih fun b hb ↦ hf b (List.mem_cons_of_mem a hb)
    refine ((hf a List.mem_cons_self).bind fun b ↦ hrest.map).congr fun e ↦ ?_
    rw [List.exists_mem_cons_iff]

end Checks

namespace Logged

variable {α β : Type} {f : α → Logged (Option β)} {as : List α}

theorem result_collect_cons (f : α → Logged (Option β)) (a : α) (as : List α) :
    (collect f (a :: as)).result = (f a).result >>= fun b ↦
      (collect f as).result >>= fun bs ↦ pure (b.toList ++ bs) := by
  simp only [collect, result_bind, result_pure]
  rfl

/-- Going through a list finds the faults of all its members. -/
theorem checks_collect {faults : α → HeaderError → Prop}
    (hf : ∀ a ∈ as, Checks (f a).result (faults a)) :
    Checks (collect f as).result fun e ↦ ∃ a ∈ as, faults a e := by
  induction as with
  | nil => exact (Checks.ok _).congr fun e ↦ by simp
  | cons a as ih =>
    rw [result_collect_cons]
    have hrest := ih fun b hb ↦ hf b (List.mem_cons_of_mem a hb)
    refine ((hf a List.mem_cons_self).bind fun b ↦ hrest.map).congr fun e ↦ ?_
    rw [List.exists_mem_cons_iff]

end Logged

end ApiHeader
