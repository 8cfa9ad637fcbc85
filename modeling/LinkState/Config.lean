import LinkState.Metric

/-!
What a router is configured with: the costs of interfaces and stub networks that have none of their
own, and which interfaces discovery leaves out.
-/

namespace LinkState

/-- A configured value, before it is known what it is for. -/
inductive Setting where
  | flag (on : Bool)
  | number (value : Number)
deriving DecidableEq, Inhabited

namespace Setting

/-- A number other than zero counts as on. -/
def isOn : Setting → Bool
  | flag on => on
  | number n => n.isTruthy

def text : Setting → String
  | flag on => if on then "true" else "false"
  | number n => n.text

def metric? : Setting → Option Metric
  | flag _ => none
  | number n => Metric.ofNumber? n

end Setting

def defaultInterfaceCost : Metric := ⟨1, by decide⟩

def defaultStubCost : Metric := .zero

/-- Settings under a name that is not known are kept and have no effect. -/
structure Config where
  interfaceCost : Metric
  stubCost : Metric
  skipDown : Setting
  advertiseUnconnected : Setting
  others : List (String × Setting)
deriving DecidableEq, Inhabited

/-- The settings that are given; the others have their defaults. -/
structure ConfigOverrides where
  interfaceCost : Option Setting
  stubCost : Option Setting
  skipDown : Option Setting
  advertiseUnconnected : Option Setting
  others : List (String × Setting)
deriving Inhabited

namespace ConfigOverrides

def empty : ConfigOverrides := ⟨none, none, none, none, []⟩

/-- Gives a setting by its name. -/
def set (o : ConfigOverrides) (name : String) (s : Setting) : ConfigOverrides :=
  match name with
  | "defaultInterfaceCost" => { o with interfaceCost := some s }
  | "defaultStubCost" => { o with stubCost := some s }
  | "skipDownInterfaces" => { o with skipDown := some s }
  | "advertiseUnconnectedInterfaces" => { o with advertiseUnconnected := some s }
  | _ => { o with others := o.others ++ [(name, s)] }

/-- Named settings, no name twice. -/
def ofList (settings : List (String × Setting)) : ConfigOverrides :=
  settings.foldl (fun o e => o.set e.1 e.2) empty

end ConfigOverrides

namespace Config

/-- A given cost has to be a metric. -/
def cost (field : String) (dflt : Metric) : Option Setting → Except Fault Metric
  | none => .ok dflt
  | some s =>
    match s.metric? with
    | some m => .ok m
    | none => .error (.configuredCost field s.text)

def make (o : ConfigOverrides) : Except Fault Config := do
  return {
    interfaceCost := ← cost "defaultInterfaceCost" defaultInterfaceCost o.interfaceCost
    stubCost := ← cost "defaultStubCost" defaultStubCost o.stubCost
    skipDown := o.skipDown.getD (.flag true)
    advertiseUnconnected := o.advertiseUnconnected.getD (.flag true)
    others := o.others }

end Config

end LinkState
