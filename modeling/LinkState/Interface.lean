import LinkState.Mask
import LinkState.Metric

/-!
Interfaces of a node: a name, perhaps an address with its mask, a cost of its own or none, and
perhaps the channel that the interface is attached to.
-/

namespace LinkState

inductive Medium where
  | serial
  | ethernet
  | fiber
  | other (name : String)
deriving DecidableEq, Inhabited

namespace Medium

def name : Medium → String
  | serial => "serial"
  | ethernet => "ethernet"
  | fiber => "fiber"
  | other s => s

def known : List Medium := [serial, ethernet, fiber]

def ofName (s : String) : Medium := (known.find? (·.name = s)).getD (other s)

/-- No name is lost. -/
theorem name_ofName (s : String) : (ofName s).name = s := by
  cases h : known.find? (·.name = s) with
  | none => rw [ofName, h]; rfl
  | some t =>
    have same := List.find?_some h
    rw [ofName, h]
    exact of_decide_eq_true same

end Medium

/-- Channels are known by their number, names apart. -/
abbrev ChannelId := Nat

structure Interface where
  name : String
  medium : Medium
  nodeId : String
  channel : Option ChannelId
  address : Option Address
  mask : Option Mask
  isUp : Bool
  cost : Option Metric
deriving DecidableEq, Inhabited

namespace Interface

/-- Up, not configured and on no channel. -/
def make (name : String) (medium : Medium) : Interface :=
  ⟨name, medium, "", none, none, none, true, none⟩

end Interface

end LinkState
