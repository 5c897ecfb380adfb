import ApiHeader.Schema

/-!
# The order of declarations

`Walk.all` visits the nodes of a graph and finishes each after all nodes it needs.
The walk ends early when a node needs itself along the current path; it then tells
the cycle, and keeps the nodes that were finished before.

Records need the records they hold by value, and aliases the aliases they mention.
`Document.expand` follows a chain of aliases to the type it finally names;
`Schema.links` lists, for each record, the records that its members lead to, and
`Schema.recordWalk` and `Schema.aliasWalk` order the two kinds of declarations.
Tags play no part in this.
-/

set_option autoImplicit false
set_option relaxedAutoImplicit false

namespace ApiHeader

/-! ### Depth-first walks -/

/-- The keys in the order in which they were finished, and the cycle that stopped
the walk, if any: a path whose last key is its first. -/
structure Walk where
  order : List Key
  cycle : Option (List Key)
  deriving DecidableEq, Repr

namespace Walk

/-- The part of a path, given in reverse, from a key on, closed by that key. -/
def closeCycle (path : List Key) (key : Key) : List Key :=
  (path.takeWhile (· ≠ key) ++ [key]).reverse ++ [key]

/-- The number of nodes off the path falls as the path grows. -/
theorem length_filter_cons_lt {nodes path : List Key} {key : Key} (hn : key ∈ nodes)
    (hp : key ∉ path) :
    (nodes.filter (· ∉ key :: path)).length < (nodes.filter (· ∉ path)).length := by
  have h : nodes.filter (· ∉ key :: path) = (nodes.filter (· ∉ path)).filter (· ≠ key) := by
    rw [List.filter_filter]
    apply List.filter_congr
    intro other _
    by_cases ho : other = key <;> by_cases hm : other ∈ path <;> simp [ho, hm]
  rw [h, List.length_filter_lt_length_iff_exists]
  exact ⟨key, List.mem_filter.mpr ⟨hn, by simpa using hp⟩, by simp⟩

/-- Goes on with a key that `path`, in reverse, leads to. Keys that are no nodes
need nothing and are not listed. -/
def visit (nodes : List Key) (needs : Key → List Key) (path : List Key) (walk : Walk)
    (key : Key) : Walk :=
  if walk.cycle.isSome ∨ key ∈ walk.order then walk
  else if hp : key ∈ path then { walk with cycle := some (closeCycle path key) }
  else if hn : key ∈ nodes then
    have := length_filter_cons_lt hn hp
    let inner := (needs key).foldl (fun w next ↦ visit nodes needs (key :: path) w next) walk
    if inner.cycle.isSome then inner else { inner with order := inner.order ++ [key] }
  else walk
termination_by (nodes.filter (· ∉ path)).length
decreasing_by assumption

/-- Walks from every node, in order. -/
def all (nodes : List Key) (needs : Key → List Key) : Walk :=
  nodes.foldl (visit nodes needs []) ⟨[], none⟩

end Walk

/-! ### What declarations need -/

/-- Where a chain of aliases leads, the aliases on the way, last first, and whether
none of them points. -/
structure Expansion where
  target : Key
  through : List Key
  isDirect : Bool
  deriving DecidableEq, Repr

theorem Table.mem_keys_of_get? {α : Type} {t : Table α} {key : Key} {value : α}
    (h : t.get? key = some value) : key ∈ t.keys := by
  have : ∀ entries : List (Key × α), Table.find key entries = some value →
      key ∈ entries.map Prod.fst := by
    intro entries
    induction entries with
    | nil => intro h; cases h
    | cons entry rest ih =>
      intro h
      by_cases he : entry.1 = key
      · simp [he]
      · rw [Table.find, if_neg he] at h
        exact List.mem_cons_of_mem _ (ih h)
  exact this t.entries h

namespace Document

/-- Goes on through aliases after those passed. A chain that comes back to an alias
stops there. -/
def expandFrom (document : Document) (passed : List Key) (isDirect : Bool) (key : Key) :
    Expansion :=
  match h : document.get? key with
  | some (.typedef typedef) =>
    if hp : key ∈ passed then ⟨key, passed, isDirect⟩
    else
      have := Walk.length_filter_cons_lt (Table.mem_keys_of_get? h) hp
      expandFrom document (key :: passed) (isDirect && typedef.indirection.isNone) typedef.target
  | _ => ⟨key, passed, isDirect⟩
termination_by (document.keys.filter (· ∉ passed)).length
decreasing_by assumption

/-- The type that a type name finally stands for. -/
def expand (document : Document) (type : Key) : Expansion :=
  expandFrom document [] true type

end Document

/-- A record that another record refers to; `byValue` when some member holds it. -/
structure Link where
  target : Key
  byValue : Bool
  deriving DecidableEq, Repr

namespace Link

/-- Adds a link; of two links to the same record one stays, by value if either is. -/
def merge (link : Link) : List Link → List Link
  | [] => [link]
  | first :: rest =>
    if first.target = link.target then
      { first with byValue := first.byValue || link.byValue } :: rest
    else first :: merge link rest

end Link

namespace Schema

/-- The record that the type of a member leads to. -/
def link? (schema : Schema) (member : Member) : Option Link :=
  let expansion := schema.document.expand member.type
  match schema.catalogue.get? expansion.target with
  | some entry =>
    if entry.category.isRecord then
      some ⟨expansion.target, member.isByValue && expansion.isDirect⟩
    else none
  | none => none

/-- The links of a record, in the order of its members. -/
def recordLinks (schema : Schema) (record : Record) : List Link :=
  (record.members.filterMap schema.link?).foldl (fun links link ↦ link.merge links) []

/-- The links of all records of the catalogue. -/
def links (schema : Schema) : Table (List Link) :=
  schema.catalogue.filterMap fun key entry ↦
    if entry.category.isRecord then
      ((schema.document.get? key).bind Node.record?).map schema.recordLinks
    else none

end Schema

/-- The records that a record holds by value. -/
def heldBy (links : Table (List Link)) (key : Key) : List Key :=
  (((links.get? key).getD []).filter (·.byValue)).map Link.target

namespace Schema

/-- The walk over the records that finishes each after those it holds by value. -/
def recordWalk (schema : Schema) : Walk :=
  let links := schema.links
  Walk.all links.keys (heldBy links)

/-- The keys of the aliases in the catalogue. -/
def aliasKeys (schema : Schema) : List Key :=
  (schema.catalogue.entries.filter fun (_, entry) ↦ entry.category.isAlias).map Prod.fst

def isAliasKey (schema : Schema) (key : Key) : Bool :=
  (schema.catalogue.get? key).any (·.category.isAlias)

/-- The type names in the declaration of an alias, in order. -/
def aliasMentions : Node → List String
  | .typedef a => [a.target]
  | .functionPointer s | .callback s => s.returns.toList ++ s.arguments.map Member.type
  | _ => []

/-- The aliases that the declaration of an alias mentions. -/
def aliasNeeds (schema : Schema) (key : Key) : List Key :=
  (((schema.document.get? key).map aliasMentions).getD []).filter schema.isAliasKey

/-- The walk over the aliases that finishes each after those it mentions. -/
def aliasWalk (schema : Schema) : Walk :=
  Walk.all schema.aliasKeys schema.aliasNeeds

end Schema

end ApiHeader
