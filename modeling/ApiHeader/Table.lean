/-!
# Tables

A `Table` maps keys to values and remembers the order in which keys were first
added. Writing a key again replaces its value and keeps its place: see
`keys_insert` for the keys and `get?_insert` for the values.
-/

set_option autoImplicit false
set_option relaxedAutoImplicit false

namespace ApiHeader

/-- The name under which a description declares something. -/
abbrev Key : Type := String

structure Table (α : Type) where
  entries : List (Key × α)
  nodup : (entries.map Prod.fst).Nodup

namespace Table

variable {α : Type}

def empty : Table α := ⟨[], List.nodup_nil⟩

def keys (t : Table α) : List Key := t.entries.map Prod.fst

def size (t : Table α) : Nat := t.entries.length

def isEmpty (t : Table α) : Bool := t.entries.isEmpty

/-- The value of the first entry with a key. -/
def find (key : Key) : List (Key × α) → Option α
  | [] => none
  | (other, value) :: rest => if other = key then some value else find key rest

def get? (t : Table α) (key : Key) : Option α := find key t.entries

def contains (t : Table α) (key : Key) : Bool := (t.get? key).isSome

/-- Replaces the value of a key where it stands, or adds the key at the end. -/
def write (key : Key) (value : α) : List (Key × α) → List (Key × α)
  | [] => [(key, value)]
  | (other, old) :: rest =>
    if other = key then (key, value) :: rest else (other, old) :: write key value rest

theorem keys_write (key : Key) (value : α) (entries : List (Key × α)) :
    (write key value entries).map Prod.fst =
      if key ∈ entries.map Prod.fst then entries.map Prod.fst
      else entries.map Prod.fst ++ [key] := by
  induction entries with
  | nil => simp [write]
  | cons entry rest ih =>
    obtain ⟨other, old⟩ := entry
    by_cases h : other = key
    · simp [write, h]
    · have h' : ¬ key = other := fun e ↦ h e.symm
      by_cases hm : key ∈ rest.map Prod.fst
      · rw [if_pos hm] at ih
        rw [if_pos (by simp only [List.map_cons, List.mem_cons]; exact .inr hm)]
        simp only [write, if_neg h, List.map_cons, ih]
      · rw [if_neg hm] at ih
        rw [if_neg (by simp only [List.map_cons, List.mem_cons]; exact not_or.mpr ⟨h', hm⟩)]
        simp only [write, if_neg h, List.map_cons, ih, List.cons_append]

theorem nodup_write (key : Key) (value : α) {entries : List (Key × α)}
    (h : (entries.map Prod.fst).Nodup) : ((write key value entries).map Prod.fst).Nodup := by
  rw [keys_write]
  split
  · exact h
  · rename_i hm
    rw [List.nodup_append]
    refine ⟨h, by simp, ?_⟩
    intro a ha b hb hab
    simp only [List.mem_singleton] at hb
    exact hm (hb ▸ hab ▸ ha)

def insert (t : Table α) (key : Key) (value : α) : Table α :=
  ⟨write key value t.entries, nodup_write key value t.nodup⟩

theorem keys_insert (t : Table α) (key : Key) (value : α) :
    (t.insert key value).keys = if key ∈ t.keys then t.keys else t.keys ++ [key] :=
  keys_write key value t.entries

/-- Writes the pairs one after the other. -/
def ofList (entries : List (Key × α)) : Table α :=
  entries.foldl (fun t (key, value) ↦ t.insert key value) empty

theorem sublist_keys_filterMap {β : Type} (f : Key → α → Option β) (entries : List (Key × α)) :
    ((entries.filterMap fun (key, value) ↦ (f key value).map (key, ·)).map Prod.fst).Sublist
      (entries.map Prod.fst) := by
  induction entries with
  | nil => exact .slnil
  | cons entry rest ih =>
    obtain ⟨key, value⟩ := entry
    cases h : f key value with
    | none => simpa [List.filterMap_cons, h] using ih.cons key
    | some new => simpa [List.filterMap_cons, h] using ih

/-- Gives new values to some of the keys and drops the others. -/
def filterMap {β : Type} (f : Key → α → Option β) (t : Table α) : Table β :=
  ⟨t.entries.filterMap fun (key, value) ↦ (f key value).map (key, ·),
    t.nodup.sublist (sublist_keys_filterMap f t.entries)⟩

theorem find_write (key other : Key) (value : α) (entries : List (Key × α)) :
    find other (write key value entries) =
      if key = other then some value else find other entries := by
  induction entries with
  | nil => rfl
  | cons entry rest ih =>
    obtain ⟨first, old⟩ := entry
    by_cases hf : first = key
    · subst hf
      by_cases h : first = other <;> simp [write, find, h]
    · by_cases h : first = other
      · subst h
        have hf' : ¬ key = first := fun e ↦ hf e.symm
        simp [write, find, hf, hf']
      · simp [write, find, hf, h, ih]

theorem get?_insert (t : Table α) (key other : Key) (value : α) :
    (t.insert key value).get? other = if key = other then some value else t.get? other :=
  find_write key other value t.entries

end Table

end ApiHeader
