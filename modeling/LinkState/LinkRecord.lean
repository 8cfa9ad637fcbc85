import LinkState.Address
import LinkState.Metric

/-!
One link of a router's advertisement. A point-to-point link has the neighbour's router ID and the
local interface address, a stub network its network address and mask.
-/

namespace LinkState

inductive LinkType where
  | unknown
  | pointToPoint
  | transitNetwork
  | stubNetwork
  | virtualLink
  /-- A type without a meaning here. -/
  | other (name : String)
deriving DecidableEq, Inhabited

namespace LinkType

def known : List LinkType := [unknown, pointToPoint, transitNetwork, stubNetwork, virtualLink]

def name : LinkType → String
  | unknown => "unknown"
  | pointToPoint => "point-to-point"
  | transitNetwork => "transit-network"
  | stubNetwork => "stub-network"
  | virtualLink => "virtual-link"
  | other s => s

def ofName (s : String) : LinkType := (known.find? (·.name = s)).getD (other s)

/-- No name is lost. -/
theorem name_ofName (s : String) : (ofName s).name = s := by
  cases h : known.find? (·.name = s) with
  | none => rw [ofName, h]; rfl
  | some t =>
    have same := List.find?_some h
    rw [ofName, h]
    exact of_decide_eq_true same

end LinkType

structure LinkRecord where
  type : LinkType
  id : Address
  data : Address
  metric : Metric
deriving DecidableEq, Inhabited

namespace LinkRecord

def blank : LinkRecord := ⟨.unknown, .any, .any, .zero⟩

def checkMetric (n : Number) : Except Fault Metric := Metric.check n .linkMetric

def text (r : LinkRecord) : String :=
  s!"{r.type.name} linkId={r.id.text} linkData={r.data.text} metric={r.metric.text}"

/-- Is this a link to the router `id`? -/
def leadsTo (r : LinkRecord) (id : Address) : Bool := r.type = .pointToPoint && r.id = id

end LinkRecord

end LinkState
