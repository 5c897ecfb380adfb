import ApiHeader.Proofs.Checks
import ApiHeader.Proofs.Loading

/-!
# Keys and their last values

A text may repeat a key. The document has a key where it first occurs and with the node that
its last value gives, so reading depends on two things alone: the public keys in the order in
which they first occur (`Json.Members.publicKeys`), and for each the value that comes last
(`map_entries_ofMembers`). It succeeds exactly if all these values are nodes, and else tells
what is wrong with the first one that is none (`last_values_read`).
-/

set_option autoImplicit false
set_option relaxedAutoImplicit false

namespace ApiHeader

/-! ### Tables of pairs with repeated keys -/

namespace Json.Members

/-- The keys of an object, each where it first occurs. -/
def keys (members : Members) : List Key :=
  (members.map Prod.fst).eraseDups

/-- The keys that belong to the interface, each where it first occurs. -/
def publicKeys (members : Members) : List Key :=
  members.keys.filter fun key ↦ ! isPrivate key

end Json.Members

namespace Table

variable {α : Type}

/-- Writing pairs into a table keeps its keys and adds the new ones in order. -/
theorem keys_foldl_insert {entries : List (Key × α)} {t : Table α} {seen : List Key}
    (hseen : t.keys = seen.eraseDups) :
    (entries.foldl (fun t entry ↦ t.insert entry.1 entry.2) t).keys =
      (seen ++ entries.map Prod.fst).eraseDups := by
  induction entries generalizing t seen with
  | nil => simpa using hseen
  | cons entry rest ih =>
    have hstep : (t.insert entry.1 entry.2).keys = (seen ++ [entry.1]).eraseDups := by
      rw [keys_insert, hseen, eraseDups_concat]
      simp only [List.mem_eraseDups]
    rw [List.foldl_cons, ih hstep, List.map_cons, List.append_assoc, List.singleton_append]

theorem keys_ofList (members : Json.Members) : (ofList members).keys = members.keys := by
  have hempty : (empty : Table Json.Value).keys = ([] : List Key).eraseDups := rfl
  show (members.foldl (fun t entry ↦ t.insert entry.1 entry.2) empty).keys = members.keys
  rw [keys_foldl_insert hempty, List.nil_append]
  rfl

/-- The last pair with a key is the one that counts. -/
theorem get?_foldl_insert (members : Json.Members) (t : Table Json.Value) (key : Key) :
    (members.foldl (fun t entry ↦ t.insert entry.1 entry.2) t).get? key =
      members.foldl (fun found entry ↦ if entry.1 = key then some entry.2 else found)
        (t.get? key) := by
  induction members generalizing t with
  | nil => rfl
  | cons entry rest ih => rw [List.foldl_cons, List.foldl_cons, ih, get?_insert]

theorem get?_ofList (members : Json.Members) (key : Key) :
    (ofList members).get? key = members.last? key :=
  get?_foldl_insert members empty key

/-- The entries of a table follow a list of keys if these are its keys and their values are as
they should be. -/
theorem forall₂_entries_iff {t : Table α} {keys : List Key} {p : Key → α → Prop} :
    List.Forall₂ (fun key entry ↦ entry.1 = key ∧ p key entry.2) keys t.entries ↔
      t.keys = keys ∧ ∀ key ∈ keys, ∃ value, t.get? key = some value ∧ p key value := by
  have hkeys (h : List.Forall₂ (fun key entry ↦ entry.1 = key ∧ p key entry.2) keys t.entries) :
      t.keys = keys := by
    have hfst : List.Forall₂ (fun key entry ↦ key = entry.1) keys t.entries :=
      h.imp fun key entry hentry ↦ hentry.1.symm
    rw [← List.forall₂_map_right_iff, List.forall₂_eq_eq_eq] at hfst
    exact hfst.symm
  rw [← and_iff_right_of_imp hkeys]
  apply and_congr_right
  rintro rfl
  unfold Table.keys
  rw [List.forall₂_map_left_iff, List.forall₂_same, List.forall_mem_map]
  apply forall₂_congr
  intro entry hentry
  simp only [get?_eq_some_iff.mpr hentry, true_and, Option.some.injEq, exists_eq_left']

theorem ext_entries {t u : Table α} (h : t.entries = u.entries) : t = u := by
  cases t
  cases u
  congr

end Table

/-! ### Reading key by key -/

namespace Document

open Json (Members)

/-- The last value of a key is an object that has the type of a node. -/
def LastNode (members : Members) (key : Key) (node : Node) : Prop :=
  ∃ fields, members.last? key = some (.object fields) ∧ Typing.node fields = .ok node

/-- What is wrong with the last value of a key: it is no object, or has not the type of a
node. -/
inductive LastFault (members : Members) (key : Key) : DocumentError → Prop where
  | notObject {value : Json.Value} (hvalue : members.last? key = some value)
      (hother : ∀ fields, value ≠ .object fields) : LastFault members key (.notObject key)
  | badNode {fields : Members} {mismatch : Mismatch}
      (hvalue : members.last? key = some (.object fields))
      (hnode : Typing.node fields = .error mismatch) :
      LastFault members key (.badNode key mismatch)

/-- The node that the last value of a key gives. -/
def readLast (members : Members) (key : Key) : Except DocumentError Node :=
  match members.last? key with
  | some value => readNode key value
  | none => .error (.notObject key)

variable {members : Members} {key : Key} {node : Node} {e : DocumentError}

theorem readLast_of_last? {value : Json.Value} (h : members.last? key = some value) :
    readLast members key = readNode key value := by
  unfold readLast
  rw [h]

theorem readNode_eq_ok_iff {value : Json.Value} : readNode key value = .ok node ↔
    ∃ fields, value = .object fields ∧ Typing.node fields = .ok node := by
  cases value with
  | object fields => cases h : Typing.node fields <;> simp [readNode, h]
  | _ => simp [readNode]

theorem readNode_eq_error_iff {value : Json.Value} : readNode key value = .error e ↔
    (∀ fields, value ≠ .object fields) ∧ e = .notObject key ∨
      ∃ fields mismatch, value = .object fields ∧ Typing.node fields = .error mismatch ∧
        e = .badNode key mismatch := by
  cases value with
  | object fields => cases h : Typing.node fields <;> simp [readNode, h, eq_comm]
  | _ => simp [readNode, eq_comm]

theorem mem_publicKeys_iff : key ∈ members.publicKeys ↔
    isPrivate key = false ∧ ∃ value, members.last? key = some value := by
  unfold Members.publicKeys
  rw [← Table.keys_ofList, List.mem_filter, Table.mem_keys_iff, and_comm, Bool.not_eq_true']
  simp only [Table.get?_ofList]

theorem readLast_eq_ok_iff : readLast members key = .ok node ↔ LastNode members key node := by
  unfold LastNode
  cases hlast : members.last? key with
  | none => simp [readLast, hlast]
  | some value =>
    rw [readLast_of_last? hlast, readNode_eq_ok_iff]
    simp only [Option.some.injEq]

/-- Reading a key that occurs fails for its last value. -/
theorem readLast_eq_error_iff (hkey : key ∈ members.publicKeys) :
    readLast members key = .error e ↔ LastFault members key e := by
  obtain ⟨-, value, hlast⟩ := mem_publicKeys_iff.mp hkey
  rw [readLast_of_last? hlast, readNode_eq_error_iff]
  constructor
  · rintro (⟨hother, rfl⟩ | ⟨fields, mismatch, rfl, hnode, rfl⟩)
    · exact .notObject hlast hother
    · exact .badNode hlast hnode
  · intro h
    cases h with
    | notObject hvalue hother =>
      rw [hlast] at hvalue
      rw [Option.some.inj hvalue]
      exact .inl ⟨hother, rfl⟩
    | badNode hvalue hnode =>
      rw [hlast] at hvalue
      exact .inr ⟨_, _, Option.some.inj hvalue, hnode, rfl⟩

/-- Adding nodes to a document that has none of their keys appends those of the public keys,
up to the first that fails. -/
theorem map_entries_addNodes {document : Document} {entries : Members}
    (hfresh : (document.keys ++ entries.map Prod.fst).Nodup) :
    (addNodes document entries).map Table.entries =
      ((entries.filter fun entry ↦ ! isPrivate entry.1).mapM fun entry ↦
        (readNode entry.1 entry.2).map (entry.1, ·)).map (document.entries ++ ·) := by
  induction entries generalizing document with
  | nil =>
    show Except.ok document.entries = Except.ok (document.entries ++ [])
    rw [List.append_nil]
  | cons entry rest ih =>
    obtain ⟨key, value⟩ := entry
    have hrest : (document.keys ++ rest.map Prod.fst).Nodup :=
      hfresh.sublist ((List.sublist_cons_self _ _).append_left _)
    by_cases hprivate : isPrivate key = true
    · rw [List.filter_cons_of_neg (by simpa using hprivate), ← ih hrest]
      simp only [addNodes, hprivate, if_true]
    · rw [List.filter_cons_of_pos (by simpa using hprivate), List.mapM_cons]
      simp only [addNodes, hprivate, Bool.false_eq_true, if_false]
      cases hnode : readNode key value with
      | error e => rfl
      | ok node =>
        have hkey : key ∉ document.keys := by
          intro hmem
          exact List.disjoint_of_nodup_append hfresh hmem List.mem_cons_self
        have hkeys : (document.insert key node).keys = document.keys ++ [key] := by
          rw [Table.keys_insert, if_neg hkey]
        have hentries : (document.insert key node).entries = document.entries ++ [(key, node)] :=
          Table.write_of_notMem hkey node
        have hnext : ((document.insert key node).keys ++ rest.map Prod.fst).Nodup := by
          rw [hkeys, List.append_assoc]
          exact hfresh
        show (addNodes (document.insert key node) rest).map Table.entries = _
        rw [ih hnext, hentries]
        cases (rest.filter fun entry ↦ ! isPrivate entry.1).mapM fun entry ↦
            (readNode entry.1 entry.2).map (entry.1, ·) with
        | error e => rfl
        | ok nodes =>
          show Except.ok (document.entries ++ [(key, node)] ++ nodes) = Except.ok _
          rw [List.append_assoc]
          rfl

/-- A document is read from the last values of its public keys. -/
theorem map_entries_ofMembers (members : Members) :
    (ofMembers members).map Table.entries =
      members.publicKeys.mapM fun key ↦ (readLast members key).map (key, ·) := by
  have hempty :
      ((Table.empty : Document).keys ++ (Table.ofList members).entries.map Prod.fst).Nodup :=
    (Table.ofList members).nodup
  have hkeys : members.publicKeys =
      ((Table.ofList members).entries.filter fun entry ↦ ! isPrivate entry.1).map Prod.fst := by
    unfold Members.publicKeys
    rw [← Table.keys_ofList]
    exact List.filter_map
  have hnothing {ε α : Type} (x : Except ε (List α)) : x.map ([] ++ ·) = x := by
    cases x <;> rfl
  unfold ofMembers
  rw [map_entries_addNodes hempty]
  show Except.map ([] ++ ·) _ = _
  rw [hnothing, hkeys]
  apply mapM_eq_of_forall₂
  rw [List.forall₂_map_right_iff, List.forall₂_same]
  intro entry hentry
  have hlast : members.last? entry.1 = some entry.2 := by
    rw [← Table.get?_ofList, Table.get?_eq_some_iff]
    exact (List.mem_filter.mp hentry).1
  rw [readLast_of_last? hlast]

/-- Reading gives a document exactly if it has the public keys in order, each with the node
that its last value gives. -/
theorem ofMembers_eq_ok_iff {document : Document} : ofMembers members = .ok document ↔
    document.keys = members.publicKeys ∧
      ∀ key ∈ members.publicKeys, ∃ node, document.get? key = some node ∧
        LastNode members key node := by
  have hentries : ofMembers members = .ok document ↔
      (ofMembers members).map Table.entries = .ok document.entries := by
    rw [map_eq_ok_iff]
    constructor
    · intro h
      exact ⟨document, h, rfl⟩
    · rintro ⟨other, h, hsame⟩
      rw [h, Table.ext_entries hsame]
  have hentry (key : Key) (entry : Key × Node) :
      (readLast members key).map (key, ·) = .ok entry ↔
        entry.1 = key ∧ LastNode members key entry.2 := by
    simp only [map_eq_ok_iff, readLast_eq_ok_iff, Prod.ext_iff]
    constructor
    · rintro ⟨node, hnode, rfl, rfl⟩
      exact ⟨rfl, hnode⟩
    · rintro ⟨rfl, hnode⟩
      exact ⟨entry.2, hnode, rfl, rfl⟩
  rw [hentries, map_entries_ofMembers, mapM_eq_ok_iff, ← Table.forall₂_entries_iff]
  simp only [hentry]

/-- Reading fails for the first public key whose last value is no node. -/
theorem ofMembers_eq_error_iff : ofMembers members = .error e ↔
    ∃ front key back, members.publicKeys = front ++ key :: back ∧
      (∀ earlier ∈ front, ∃ node, LastNode members earlier node) ∧ LastFault members key e := by
  have hearlier (key : Key) :
      (∃ entry, (readLast members key).map (key, ·) = .ok entry) ↔
        ∃ node, LastNode members key node := by
    simp only [map_eq_ok_iff, readLast_eq_ok_iff]
    constructor
    · rintro ⟨_, node, hnode, -⟩
      exact ⟨node, hnode⟩
    · rintro ⟨node, hnode⟩
      exact ⟨_, node, hnode, rfl⟩
  rw [← map_eq_error_iff, map_entries_ofMembers, mapM_eq_error_iff]
  simp only [hearlier, map_eq_error_iff]
  constructor
  · rintro ⟨front, key, back, hkeys, hfront, hkey⟩
    refine ⟨front, key, back, hkeys, hfront, (readLast_eq_error_iff ?_).mp hkey⟩
    rw [hkeys]
    exact List.mem_append_right front List.mem_cons_self
  · rintro ⟨front, key, back, hkeys, hfront, hkey⟩
    refine ⟨front, key, back, hkeys, hfront, (readLast_eq_error_iff ?_).mpr hkey⟩
    rw [hkeys]
    exact List.mem_append_right front List.mem_cons_self

/-- Nothing but the public keys and their last values counts. -/
theorem ofMembers_congr {rest : Members} (hkeys : members.publicKeys = rest.publicKeys)
    (hlast : ∀ key ∈ members.publicKeys, readLast members key = readLast rest key) :
    ofMembers members = ofMembers rest := by
  have hentries : (ofMembers members).map Table.entries = (ofMembers rest).map Table.entries := by
    rw [map_entries_ofMembers, map_entries_ofMembers, ← hkeys]
    apply mapM_eq_of_forall₂
    rw [List.forall₂_same]
    intro key hkey
    rw [hlast key hkey]
  cases hrest : ofMembers rest with
  | error e =>
    rw [hrest] at hentries
    exact map_eq_error_iff.mp hentries
  | ok document =>
    rw [hrest] at hentries
    obtain ⟨other, hother, hsame⟩ := map_eq_ok_iff.mp hentries
    rw [hother, Table.ext_entries hsame]

theorem read_of_readMembers {text : String} (hmembers : Json.readMembers text = .ok members) :
    read text = ofMembers members := by
  unfold read
  rw [hmembers]

/-- A text that holds an object is a document exactly if the last value of every public key
is a node. The document has these keys, each where it first occurs, and these nodes. Else the
first of them whose last value is no node is told. Values before the last, private keys and
their values have no effect. -/
theorem last_values_read {text : String} (hmembers : Json.readMembers text = .ok members) :
    ((∃ document, read text = .ok document) ↔
      ∀ key ∈ members.publicKeys, ∃ node, LastNode members key node) ∧
    (∀ document, read text = .ok document ↔ document.keys = members.publicKeys ∧
      ∀ key ∈ members.publicKeys, ∃ node, document.get? key = some node ∧
        LastNode members key node) ∧
    (∀ e, read text = .error e ↔ ∃ front key back, members.publicKeys = front ++ key :: back ∧
      (∀ earlier ∈ front, ∃ node, LastNode members earlier node) ∧
        LastFault members key e) ∧
    ∀ other rest, Json.readMembers other = .ok rest → rest.publicKeys = members.publicKeys →
      (∀ key ∈ members.publicKeys, rest.last? key = members.last? key) →
        read other = read text := by
  rw [read_of_readMembers hmembers]
  refine ⟨⟨?_, ?_⟩, fun document ↦ ofMembers_eq_ok_iff, fun e ↦ ofMembers_eq_error_iff, ?_⟩
  · rintro ⟨document, hok⟩ key hkey
    obtain ⟨node, -, hnode⟩ := (ofMembers_eq_ok_iff.mp hok).2 key hkey
    exact ⟨node, hnode⟩
  · intro hnodes
    cases hread : ofMembers members with
    | ok document => exact ⟨document, rfl⟩
    | error e =>
      obtain ⟨front, key, back, hkeys, -, hfault⟩ := ofMembers_eq_error_iff.mp hread
      have hkey : key ∈ members.publicKeys := by
        rw [hkeys]
        exact List.mem_append_right front List.mem_cons_self
      obtain ⟨node, hnode⟩ := hnodes key hkey
      rw [← readLast_eq_ok_iff, (readLast_eq_error_iff hkey).mpr hfault] at hnode
      cases hnode
  · intro other rest hother hkeys hlast
    rw [read_of_readMembers hother]
    apply ofMembers_congr hkeys
    intro key hkey
    unfold readLast
    rw [hlast key (hkeys ▸ hkey)]

/-- A key whose first value is a number and whose last one is a node. -/
def repeatingText : String :=
  "\x7b\"_note\":[],\"b\":7,\"a\":\x7b\"category\":\"object\"\x7d," ++
    "\"b\":\x7b\"category\":\"native\"\x7d,\"_note\":\x7b\x7d\x7d"

/-- Two keys whose first values are nodes and whose last ones are none. -/
def spoilingText : String :=
  "\x7b\"a\":\x7b\"category\":\"object\"\x7d,\"b\":\x7b\"category\":\"native\"\x7d," ++
    "\"_note\":7,\"b\":[],\"a\":\x7b\"category\":\"enum\",\"values\":7\x7d\x7d"

/-- The first text is a document with the key that it repeats in front. In the second one the
key that comes first is told, although the value of the other is replaced before. -/
theorem repeated_keys_read :
    (∃ members, Json.readMembers repeatingText = .ok members ∧
      members.publicKeys = ["b", "a"] ∧ ∃ document, read repeatingText = .ok document ∧
        document.keys = ["b", "a"] ∧ document.get? "b" = some (.native [])) ∧
    ∃ members, Json.readMembers spoilingText = .ok members ∧
      members.publicKeys = ["a", "b"] ∧
        read spoilingText = .error (.badNode "a" (.wrongKind "integer `7`" .sequence)) := by
  constructor
  · have htext : (Json.readMembers repeatingText).map (fun members ↦
        (members.publicKeys, readLast members "b", readLast members "a")) =
          .ok (["b", "a"], .ok (.native []), .ok (.object ⟨[], []⟩)) := by
      decide +kernel
    obtain ⟨members, hmembers, htext⟩ := map_eq_ok_iff.mp htext
    simp only [Prod.mk.injEq] at htext
    obtain ⟨hkeys, hb, ha⟩ := htext
    obtain ⟨hread, hdocument, -⟩ := last_values_read hmembers
    obtain ⟨document, hok⟩ := hread.mpr (by
      rw [hkeys]
      simp only [List.forall_mem_cons]
      exact ⟨⟨_, readLast_eq_ok_iff.mp hb⟩, ⟨_, readLast_eq_ok_iff.mp ha⟩, by simp⟩)
    obtain ⟨hdocumentKeys, hvalues⟩ := (hdocument document).mp hok
    rw [hkeys] at hdocumentKeys hvalues
    obtain ⟨node, hnode, hlast⟩ := hvalues "b" (by simp)
    rw [← readLast_eq_ok_iff, hb] at hlast
    rw [← Except.ok.inj hlast] at hnode
    exact ⟨members, hmembers, hkeys, document, hok, hdocumentKeys, hnode⟩
  · have htext : (Json.readMembers spoilingText).map (fun members ↦
        (members.publicKeys, readLast members "a")) =
          .ok (["a", "b"], .error (.badNode "a" (.wrongKind "integer `7`" .sequence))) := by
      decide +kernel
    obtain ⟨members, hmembers, htext⟩ := map_eq_ok_iff.mp htext
    simp only [Prod.mk.injEq] at htext
    obtain ⟨hkeys, hfault⟩ := htext
    have hkey : "a" ∈ members.publicKeys := by
      rw [hkeys]
      exact List.mem_cons_self
    refine ⟨members, hmembers, hkeys, ((last_values_read hmembers).2.2.1 _).mpr ?_⟩
    exact ⟨[], "a", ["b"], hkeys, by simp,
      (readLast_eq_error_iff hkey).mp hfault⟩

end Document

end ApiHeader
