import LinkState.Number.Text

/-!
What can go wrong, as causes, and the wording of each (`Fault.message`). Two causes belong to route
computation itself and carry a name and a code beside their text: a malformed channel and a metric
overflow.
-/

namespace LinkState

/-- An error of route computation, as it is reported. -/
structure RoutingError where
  name : String
  code : String
  message : String
deriving DecidableEq

namespace RoutingError

def make (code message : String) : RoutingError := ⟨"RoutingError", code, message⟩

def text (e : RoutingError) : String := s!"{e.name} [{e.code}]: {e.message}"

end RoutingError

/-- A point-to-point channel with other than two attached interfaces, seen from a node. -/
structure MalformedChannel where
  nodeId : String
  channelId : String
  endpoints : Number
deriving DecidableEq

namespace MalformedChannel

def error (m : MalformedChannel) : RoutingError :=
  ⟨"MalformedTopologyError", "MALFORMED_TOPOLOGY",
    s!"channel {m.channelId} has {m.endpoints.text} attached interfaces, point-to-point requires 2"⟩

end MalformedChannel

/-- A distance and a metric whose sum has no 32-bit form. -/
structure MetricOverflow where
  distance : Number
  metric : Number
deriving DecidableEq

namespace MetricOverflow

def error (m : MetricOverflow) : RoutingError :=
  ⟨"MetricOverflowError", "METRIC_OVERFLOW",
    s!"distance {m.distance.text} + metric {m.metric.text} exceeds 4294967295"⟩

end MetricOverflow

/-- Why an operation failed. The numbers and texts are those that the message shows. -/
inductive Fault where
  | addressText (text : String)
  | addressSize (octets : Nat)
  | addressOctet (text : String)
  | maskText (text : String)
  | maskNotContiguous (text : String)
  | lengthOutOfRange (length : Number)
  | linkMetric (metric : Number)
  | interfaceCost (cost : Number)
  | stubCost (cost : Number)
  | configuredCost (field : String) (value : String)
  | routerIdsExhausted
  | interfaceOccupied (nodeId interface channelId : String)
  | interfaceExists (node interface : String)
  | routerExists (node : String)
  | vertexExists (key : String)
  | noVertex (handle : Number)
  /-- A vertex is its own ancestor. -/
  | endlessAncestry
  /-- An advertisement is copied onto itself. -/
  | endlessCopy
  | malformedChannel (channel : MalformedChannel)
  | metricOverflow (overflow : MetricOverflow)
  /-- A subscriber of the journal stopped the operation. -/
  | stopped (text : String)
deriving DecidableEq

namespace Fault

/-- How a fault is classified: a value outside its range, one of the two routing errors, or
anything else. -/
inductive Kind where
  | general
  | range
  | malformedTopology
  | metricOverflow
deriving DecidableEq

def kind : Fault → Kind
  | linkMetric _ | interfaceCost _ | stubCost _ | configuredCost .. => .range
  | noVertex _ | endlessAncestry | endlessCopy => .range
  | malformedChannel _ => .malformedTopology
  | metricOverflow _ => .metricOverflow
  | _ => .general

def message : Fault → String
  | addressText s => s!"Invalid IP address: {s}"
  | addressSize n => s!"Invalid IP: expected 4 octets, got {n}"
  | addressOctet s => s!"Invalid IP octet: {s}"
  | maskText s => s!"Invalid subnet mask: {s}"
  | maskNotContiguous s => s!"Invalid subnet mask: {s} is not contiguous"
  | lengthOutOfRange n => s!"Invalid prefix length: {n.text}"
  | linkMetric n => s!"Invalid link metric: {n.text}. Must be an integer in [0, 4294967295]."
  | interfaceCost n => s!"Invalid interface cost: {n.text}. Must be an integer in [0, 4294967295]."
  | stubCost n => s!"Invalid stub cost: {n.text}. Must be an integer in [0, 4294967295]."
  | configuredCost field value => s!"Invalid {field}: {value}"
  | routerIdsExhausted => "Router ID space exhausted"
  | interfaceOccupied nodeId name channelId =>
    s!"{nodeId}.{name} is already attached to channel {channelId}"
  | interfaceExists node name => s!"{node}: interface {name} already exists"
  | routerExists node => s!"{node}: a router is already attached to this node"
  | vertexExists key => s!"SPF vertex {key} already exists"
  | noVertex handle => s!"No SPF vertex with handle {handle.text}"
  | endlessAncestry => "Maximum call stack size exceeded"
  | endlessCopy => "Copying an LSA onto itself does not end"
  | malformedChannel m => m.error.message
  | metricOverflow m => m.error.message
  | stopped text => text

end Fault

end LinkState
