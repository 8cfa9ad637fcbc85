import LinkState.Datum

/-!
An observable snapshot of the last computation. It is held by a store, and stores are made by a
library: what a network uses of it is that a store holds a state, takes an update of it and tells
its listeners.
-/

namespace LinkState

/-- Route counts under node names, each name once. -/
abbrev Tally := List (String × Number)

namespace Tally

/-- The name that a tally does not take. -/
def reserved : String := "__proto__"

/-- Sets the count under a name; the reserved name is passed over. -/
def record (name : String) (count : Number) (t : Tally) : Tally :=
  if name = reserved then t
  else if t.any (·.1 = name) then t.map fun e => if e.1 = name then (name, count) else e
  else t ++ [(name, count)]

/-- The entries in ascending order of name. -/
def sorted (t : Tally) : Tally := t.mergeSort fun x y => x.1 ≤ y.1

end Tally

/-- The last build is kept as it was recorded. -/
structure RoutingState where
  lastBuild : Option Datum
  installed : Tally
  computations : Nat
deriving Inhabited

namespace RoutingState

def initial : RoutingState := ⟨none, [], 0⟩

end RoutingState

/-- New values of some fields of a state. -/
structure RoutingUpdate where
  lastBuild : Option (Option Datum)
  installed : Option Tally
  computations : Option Nat

namespace RoutingUpdate

/-- The state with the new values; the other fields stay. -/
def mergeInto (u : RoutingUpdate) (s : RoutingState) : RoutingState where
  lastBuild := u.lastBuild.getD s.lastBuild
  installed := u.installed.getD s.installed
  computations := u.computations.getD s.computations

def initial : RoutingUpdate := ⟨some none, some [], some 0⟩

def recordBuild (summary : Datum) (_ : RoutingState) : RoutingUpdate :=
  ⟨some (some summary), none, none⟩

def recordRoutes (installed : Tally) (s : RoutingState) : RoutingUpdate :=
  ⟨none, some installed, some (s.computations + 1)⟩

end RoutingUpdate

/-- What a listener notes of an action: the number of computations before and after it. -/
structure Note where
  listener : Nat
  before : Nat
  after : Nat
deriving DecidableEq, Inhabited

/-- A store, with the state that it gives when it is asked for it. -/
structure Store where
  state : RoutingState
  listeners : List Nat
deriving Inhabited

namespace Store

/-- A library of stores. An update is worked out from the state that it finds. -/
structure Library where
  create : RoutingState → Store
  /-- Takes an update and tells what the listeners note of it. -/
  set : (RoutingState → RoutingUpdate) → Store → List Note × Store
  subscribe : Nat → Store → Store
  unsubscribe : Nat → Store → Store

namespace Library

/-- An update changes the fields that it has values for and no others, and is there at once. -/
def Merges (l : Library) : Prop :=
  ∀ update s, (l.set update s).2.state = (update s.state).mergeInto s.state

/-- Every action, also one that changes nothing, is noted once for each listener, in the order in
which they subscribed. -/
def standard : Library where
  create s := ⟨s, []⟩
  set update s :=
    let after := (update s.state).mergeInto s.state
    (s.listeners.map (⟨·, s.state.computations, after.computations⟩), { s with state := after })
  subscribe listener s := { s with listeners := s.listeners ++ [listener] }
  unsubscribe listener s := { s with listeners := s.listeners.filter (· ≠ listener) }

theorem merges_standard : standard.Merges := fun _ _ => rfl

end Library

end Store

end LinkState
