import ApiHeader.Schema

/-!
# Events, failures and logged results

An `Event` is noted while a header is written, at one of two levels of detail, and a
`HeaderError` tells why a header could not be written. `Logged` is a result with the
events noted on the way to it. A failure keeps the events that came before it, and
events have no influence on results (`result_bind`).
-/

set_option autoImplicit false
set_option relaxedAutoImplicit false

namespace ApiHeader

/-! ### Events -/

inductive Level where
  | info
  | debug
  deriving DecidableEq, Repr

inductive Event where
  | reading (path : String)
  | excluding (tags : List Tag)
  | generating (typeCount : Nat)
  | aliasExcluded (key : Key)
  | recordExcluded (key : Key)
  | noChainTag
  | recordCount (count : Nat)
  | prototypeCount (count : Nat)
  | wrote (byteCount : Nat) (path : String)
  deriving DecidableEq, Repr

namespace Event

def level : Event → Level
  | .reading _ | .excluding _ | .generating _ | .wrote _ _ => .info
  | .aliasExcluded _ | .recordExcluded _ | .noChainTag | .recordCount _
  | .prototypeCount _ => .debug

def message : Event → String
  | .reading path => "reading " ++ path
  | .excluding tags => "excluding tags: " ++ ", ".intercalate tags
  | .generating count => "generating header for " ++ toString count ++ " registered types"
  | .aliasExcluded key => "alias '" ++ key ++ "' excluded by tag"
  | .recordExcluded key => "struct '" ++ key ++ "' excluded by tag"
  | .noChainTag => "no 's type' enum declared, chain links use uint32_t"
  | .recordCount count => toString count ++ " struct nodes in dependency graph"
  | .prototypeCount count => toString count ++ " prototypes emitted"
  | .wrote count path => "wrote " ++ toString count ++ " bytes to " ++ path

end Event

/-! ### Failures -/

inductive HeaderError where
  | document (e : DocumentError)
  | schema (e : SchemaError)
  | unwritable (failure : FileFailure)
  | unresolved (type context : String)
  | cyclic (path : List Key)
  deriving DecidableEq, Repr

def HeaderError.message : HeaderError → String
  | .document e => "document parse error: " ++ e.message
  | .schema e => "schema error: " ++ e.message
  | .unwritable failure => "IO error: " ++ failure.message
  | .unresolved type context =>
    "unresolved type '" ++ type ++ "' referenced by '" ++ context ++ "'"
  | .cyclic path => "cyclic by-value dependency: " ++ " -> ".intercalate path

/-! ### Logged results -/

structure Logged (α : Type) where
  events : List Event
  result : Except HeaderError α

namespace Logged

variable {α β : Type}

def bind (x : Logged α) (f : α → Logged β) : Logged β :=
  match x.result with
  | .ok a => ⟨x.events ++ (f a).events, (f a).result⟩
  | .error e => ⟨x.events, .error e⟩

instance : Monad Logged where
  pure a := ⟨[], .ok a⟩
  bind := bind

def note (event : Event) : Logged Unit := ⟨[event], .ok ()⟩

def lift (x : Except HeaderError α) : Logged α := ⟨[], x⟩

/-- Treats the members of a list in turn and keeps what they give. -/
def collect (f : α → Logged (Option β)) : List α → Logged (List β)
  | [] => pure []
  | a :: as => do
    let b ← f a
    let bs ← collect f as
    return b.toList ++ bs

@[simp] theorem result_pure (a : α) : (pure a : Logged α).result = .ok a := rfl

/-- Events have no influence on results. -/
@[simp] theorem result_bind (x : Logged α) (f : α → Logged β) :
    (x >>= f).result = x.result >>= fun a ↦ (f a).result := by
  change (bind x f).result = _
  unfold bind
  cases x.result <;> rfl

@[simp] theorem result_note (event : Event) : (note event).result = .ok () := rfl

@[simp] theorem result_lift (x : Except HeaderError α) : (lift x).result = x := rfl

end Logged

end ApiHeader
