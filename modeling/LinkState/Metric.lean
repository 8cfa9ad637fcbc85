import LinkState.Fault

/-!
Metrics: integers of 32 bits, added up along a path. A sum past the largest metric is refused.
-/

namespace LinkState

/-- The largest metric and the largest path distance. -/
def maxMetric : Nat := 4294967295

structure Metric where
  value : Nat
  le_max : value ≤ maxMetric := by decide
deriving DecidableEq

namespace Metric

instance : Inhabited Metric := ⟨⟨0, by decide⟩⟩

def zero : Metric := ⟨0, by decide⟩

def ofNat? (n : Nat) : Option Metric := if h : n ≤ maxMetric then some ⟨n, h⟩ else none

def ofNumber? (n : Number) : Option Metric := n.toNat?.bind ofNat?

def toNumber (m : Metric) : Number := .ofNat m.value

def text (m : Metric) : String := toString m.value

/-- The metric that `n` is, or the fault that says it is none. -/
def check (n : Number) (fault : Number → Fault) : Except Fault Metric :=
  match ofNumber? n with
  | some m => .ok m
  | none => .error (fault n)

/-- A distance one link further, unless it is past the largest one. -/
def extend? (distance : Nat) (m : Metric) : Option Nat :=
  if distance + m.value ≤ maxMetric then some (distance + m.value) else none

theorem extend?_eq_some_iff {d e : Nat} {m : Metric} :
    m.extend? d = some e ↔ d + m.value = e ∧ e ≤ maxMetric := by
  unfold extend?
  split <;> simp <;> omega

end Metric

/-- Adds two numbers, whether or not they are metrics; only a sum past the largest metric is
refused. -/
def addMetrics (distance metric : Number) : Except Fault Number :=
  let sum := distance.add metric
  if (Number.ofNat maxMetric).lt sum then .error (.metricOverflow ⟨distance, metric⟩) else .ok sum

end LinkState
