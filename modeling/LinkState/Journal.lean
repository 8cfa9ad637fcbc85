import LinkState.Datum

/-!
The journal of events. Publishing an event stores it and hands it to the subscriptions that admit
it, in the order in which they were made, also to those that are dropped meanwhile. Of more than
10000 stored events only the last 5000 are kept.
-/

namespace LinkState

inductive Level where
  | debug
  | info
  | warn
  | error
  /-- A level without a rank. -/
  | other (name : String)
deriving DecidableEq, Inhabited

namespace Level

def rank? : Level → Option Nat
  | debug => some 0
  | info => some 1
  | warn => some 2
  | error => some 3
  | other _ => none

/-- A level without a rank is neither below another nor above it. -/
def below (l m : Level) : Bool :=
  match l.rank?, m.rank? with
  | some a, some b => a < b
  | _, _ => false

def name : Level → String
  | debug => "debug"
  | info => "info"
  | warn => "warn"
  | error => "error"
  | other s => s

def known : List Level := [debug, info, warn, error]

def ofName (s : String) : Level := (known.find? (·.name = s)).getD (other s)

/-- No name is lost. -/
theorem name_ofName (s : String) : (ofName s).name = s := by
  cases h : known.find? (·.name = s) with
  | none => rw [ofName, h]; rfl
  | some t =>
    have same := List.find?_some h
    rw [ofName, h]
    exact of_decide_eq_true same

end Level

structure Event where
  level : Level
  source : String
  name : String
  message : String
  data : Option Datum
deriving Inhabited

/-- Which events a subscription asks for. An absent or empty field admits all. -/
structure EventFilter where
  source : Option String
  event : Option String
  level : Option Level
deriving DecidableEq, Inhabited

namespace EventFilter

def admits (f : EventFilter) (e : Event) : Bool :=
  f.source.all (fun s => s = "" || s = e.source) &&
  f.event.all (fun s => s.toList.isPrefixOf e.name.toList) &&
  f.level.all (fun l => l.name = "" || l = e.level)

end EventFilter

/-- A subscription, with what is stated of its subscriber: that on a delivery it drops a
subscription, then stops the publisher with a text. What subscribers do is for `Reactions` to
say. -/
structure Subscription where
  id : Nat
  filter : EventFilter
  drops : Option Nat
  stops : Option String
deriving DecidableEq, Inhabited

structure Delivery where
  subscription : Nat
  event : Event
deriving Inhabited

/-- What a subscriber does on one delivery: it drops subscriptions, one after the other, then may
stop the publisher with a text. -/
structure Reaction where
  drops : List Nat
  stops : Option String
deriving DecidableEq, Inhabited

/-- How subscribers react, each from all that was delivered so far, its own delivery the last. -/
abbrev Reactions := Subscription → Array Delivery → Reaction

/-- The reaction that a subscription states. -/
def Subscription.reaction : Reactions := fun s _ => ⟨s.drops.toList, s.stops⟩

structure Journal where
  events : Array Event
  subscriptions : List Subscription
  nextId : Nat
  minLevel : Level
  deliveries : Array Delivery
deriving Inhabited

namespace Journal

def empty : Journal := ⟨#[], [], 1, .debug, #[]⟩

/-- No events, no subscriptions and the default level. What was delivered stays delivered. -/
def reset (j : Journal) : Journal := { empty with deliveries := j.deliveries }

def capacity : Nat := 10000

/-- Stores an event; a journal over its capacity keeps its newest half. -/
def store (j : Journal) (e : Event) : Journal :=
  let events := j.events.push e
  { j with events :=
      if capacity < events.size then events.extract (events.size - capacity / 2) events.size
      else events }

def subscribe (j : Journal) (f : EventFilter) (drops : Option Nat) (stops : Option String) :
    Nat × Journal :=
  (j.nextId,
    { j with
      subscriptions := j.subscriptions ++ [⟨j.nextId, f, drops, stops⟩]
      nextId := j.nextId + 1 })

def unsubscribe (j : Journal) (id : Nat) : Journal :=
  { j with subscriptions := j.subscriptions.filter (·.id ≠ id) }

theorem foldl_unsubscribe (ids : List Nat) (j : Journal) :
    ids.foldl unsubscribe j = { j with subscriptions := j.subscriptions.filter (·.id ∉ ids) } := by
  induction ids generalizing j with
  | nil => simp [List.filter_eq_self.2]
  | cons id ids ih => simp [ih, unsubscribe, not_or, Bool.and_comm]

def setMinLevel (j : Journal) (l : Level) : Journal := { j with minLevel := l }

def note (j : Journal) (s : Subscription) (e : Event) : Journal :=
  { j with deliveries := j.deliveries.push ⟨s.id, e⟩ }

/-- Calls a subscriber, which notes the delivery and reacts to it. -/
def call (react : Reactions) (e : Event) (s : Subscription) (j : Journal) :
    Option String × Journal :=
  let noted := j.note s e
  let reaction := react s noted.deliveries
  (reaction.stops, reaction.drops.foldl unsubscribe noted)

/-- Hands an event to each subscription that admits it, up to the first that stops the publisher;
the text it stops with is returned. -/
def deliver (react : Reactions) (e : Event) : List Subscription → Journal → Option String × Journal
  | [], j => (none, j)
  | s :: rest, j =>
    if s.filter.admits e then
      match j.call react e s with
      | (some text, j) => (some text, j)
      | (none, j) => deliver react e rest j
    else deliver react e rest j

/-- Events below the minimum level are neither stored nor delivered. Whatever is dropped during the
delivery, the event is handed to the subscriptions that there were before it. -/
def publishTo (react : Reactions) (e : Event) (j : Journal) : Option String × Journal :=
  if e.level.below j.minLevel then (none, j)
  else deliver react e j.subscriptions (j.store e)

/-- Publishes to subscribers that do what their subscriptions state. -/
def publish : Event → Journal → Option String × Journal := publishTo Subscription.reaction

def eventsOf (j : Journal) (source : String) : Array Event :=
  j.events.filter (·.source = source)

/-- What was delivered so far, and the journal without it. -/
def takeDeliveries (j : Journal) : Array Delivery × Journal :=
  (j.deliveries, { j with deliveries := #[] })

/-- The events whose name begins with `start`. -/
def eventsNamed (j : Journal) (start : String) : Array Event :=
  j.events.filter fun e => start.toList.isPrefixOf e.name.toList

end Journal

end LinkState
