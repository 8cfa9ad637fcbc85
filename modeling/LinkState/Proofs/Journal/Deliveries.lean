import LinkState.Journal
import LinkState.Proofs.Lasting

/-! Who is called for an event. Callers publish, subscribe, unsubscribe and set the minimum level,
and the subscribers drop whatever they like while they are called. What is due to a subscription is
read off the history of these acts alone: the events that are published while it stands, at a level
that is let in, and that its filter matches. Each is delivered once, and nothing else is. -/

namespace LinkState

/-- An absent or empty field matches everything, a source and a level what is equal to them, and an
event what begins with it. -/
def EventFilter.Matches (f : EventFilter) (e : Event) : Prop :=
  (∀ s, f.source = some s → s = "" ∨ s = e.source) ∧
    (∀ s, f.event = some s → s.toList <+: e.name.toList) ∧
    ∀ l, f.level = some l → l.name = "" ∨ l = e.level

theorem EventFilter.admits_iff {f : EventFilter} {e : Event} : f.admits e = true ↔ f.Matches e := by
  simp [admits, Matches, Option.all_eq_true, and_assoc]

namespace Journal

/-- What a subscriber drops on a delivery, from all that was delivered so far. -/
abbrev Drops := Subscription → Array Delivery → List Nat

/-- The reactions of subscribers that stop no publisher. -/
def quiet (drops : Drops) : Reactions := fun s ds => ⟨drops s ds, none⟩

inductive Call where
  | publish (e : Event)
  | subscribe (f : EventFilter) (drops : Option Nat)
  | unsubscribe (id : Nat)
  | setMinLevel (l : Level)

inductive Act where
  | published (e : Event)
  | subscribed (s : Subscription)
  | dropped (id : Nat)
  | levelSet (l : Level)

/-! ### What is due -/

def Standing (acts : List Act) (s : Subscription) : Prop :=
  Lasting (· = .dropped s.id) (.subscribed s) acts

/-- The minimum level that was set last. -/
def levelAfter (acts : List Act) : Level :=
  acts.foldl (fun l a => match a with | .levelSet l' => l' | _ => l) .debug

/-- An event published after the acts is to be delivered under the id. -/
def Due (acts : List Act) (id : Nat) (e : Event) : Prop :=
  e.level.below (levelAfter acts) = false ∧ ∃ s, Standing acts s ∧ s.id = id ∧ s.filter.Matches e

open Classical in
/-- The event of an act, if it is to be delivered under the id. -/
noncomputable def dueOf (id : Nat) (before : List Act) : Act → Option Event
  | .published e => if Due before id e then some e else none
  | _ => none

/-- All that is to be delivered under an id, in the order in which it was published. -/
noncomputable def due (id : Nat) (acts : List Act) : List Event :=
  (List.range acts.length).filterMap fun k => acts[k]?.bind (dueOf id (acts.take k))

def subscriptionsOf (acts : List Act) : List Subscription :=
  acts.filterMap fun
    | .subscribed s => some s
    | _ => none

/-! ### Sessions -/

/-- The ids that the subscribers drop, one after the other, while they are called. -/
def droppedOn (drops : Drops) (e : Event) : List Subscription → Array Delivery → List Nat
  | [], _ => []
  | s :: rest, ds =>
    drops s (ds.push ⟨s.id, e⟩) ++ droppedOn drops e rest (ds.push ⟨s.id, e⟩)

def audience (j : Journal) (e : Event) : List Subscription :=
  if e.level.below j.minLevel then [] else j.subscriptions.filter (·.filter.admits e)

def Call.apply (drops : Drops) (j : Journal) : Call → Journal
  | .publish e => (publishTo (quiet drops) e j).2
  | .subscribe f d => (j.subscribe f d none).2
  | .unsubscribe id => j.unsubscribe id
  | .setMinLevel l => j.setMinLevel l

def Call.acts (drops : Drops) (j : Journal) : Call → List Act
  | .publish e => .published e :: (droppedOn drops e (j.audience e) j.deliveries).map .dropped
  | .subscribe f d => [.subscribed ⟨(j.subscribe f d none).1, f, d, none⟩]
  | .unsubscribe id => [.dropped id]
  | .setMinLevel l => [.levelSet l]

structure Session where
  journal : Journal
  acts : List Act

def Session.call (drops : Drops) (s : Session) (c : Call) : Session :=
  ⟨c.apply drops s.journal, s.acts ++ c.acts drops s.journal⟩

/-- The calls to a journal that was reset before and has stored these events since. -/
def afterCalls (drops : Drops) (j : Journal) (stored : Array Event) (calls : List Call) : Session :=
  calls.foldl (Session.call drops) ⟨{ j.reset with events := stored }, []⟩

variable {drops : Drops} {j : Journal} {stored : Array Event} {calls : List Call} {c : Call}
  {acts : List Act} {a : Act} {s : Subscription} {e : Event} {id : Nat}

theorem afterCalls_append_singleton :
    afterCalls drops j stored (calls ++ [c]) = (afterCalls drops j stored calls).call drops c :=
  List.foldl_concat _ _ _ _

/-! ### One act more -/

theorem standing_append_published : Standing (acts ++ [.published e]) s ↔ Standing acts s := by
  simp [Standing, lasting_append_singleton]

theorem standing_append_levelSet {l : Level} :
    Standing (acts ++ [.levelSet l]) s ↔ Standing acts s := by
  simp [Standing, lasting_append_singleton]

theorem standing_append_subscribed {t : Subscription} :
    Standing (acts ++ [.subscribed t]) s ↔ t = s ∨ Standing acts s := by
  simp [Standing, lasting_append_singleton]

theorem standing_append_dropped :
    Standing (acts ++ [.dropped id]) s ↔ id ≠ s.id ∧ Standing acts s := by
  simp [Standing, lasting_append_singleton]

theorem standing_append_allDropped {ids : List Nat} :
    Standing (acts ++ ids.map .dropped) s ↔ s.id ∉ ids ∧ Standing acts s := by
  induction ids using List.reverseRecOn with
  | nil => simp
  | append_singleton ids id ih =>
    rw [List.map_append, ← List.append_assoc, List.map_singleton, standing_append_dropped, ih]
    simp only [List.mem_append, List.mem_singleton, not_or, ne_eq, eq_comm (a := id)]
    tauto

theorem due_append_singleton :
    due id (acts ++ [a]) = due id acts ++ (dueOf id acts a).toList := by
  have old : ∀ k ∈ List.range acts.length,
      (acts ++ [a])[k]?.bind (dueOf id ((acts ++ [a]).take k)) =
        acts[k]?.bind (dueOf id (acts.take k)) := by
    intro k hk
    have hk := List.mem_range.1 hk
    rw [List.getElem?_append_left hk, List.take_append_of_le_length hk.le]
  have last : (acts ++ [a])[acts.length]?.bind (dueOf id ((acts ++ [a]).take acts.length)) =
      dueOf id acts a := by simp
  rw [due, List.length_append, List.length_singleton, List.range_succ, List.filterMap_append,
    List.filterMap_congr old, ← due, List.filterMap_cons, List.filterMap_nil, last]
  cases dueOf id acts a <;> rfl

theorem due_append_allDropped {ids : List Nat} :
    due id (acts ++ ids.map .dropped) = due id acts := by
  induction ids using List.reverseRecOn with
  | nil => simp
  | append_singleton ids i ih =>
    rw [List.map_append, ← List.append_assoc, List.map_singleton, due_append_singleton, ih]
    simp [dueOf]

theorem levelAfter_append_allDropped {ids : List Nat} :
    levelAfter (acts ++ ids.map .dropped) = levelAfter acts := by
  rw [levelAfter, List.foldl_append, ← levelAfter]
  induction ids with
  | nil => rfl
  | cons id ids ih => exact ih

theorem subscriptionsOf_append_allDropped {ids : List Nat} :
    subscriptionsOf (acts ++ ids.map .dropped) = subscriptionsOf acts := by
  simp [subscriptionsOf, List.filterMap_map]

theorem subscriptionsOf_append_subscribed :
    subscriptionsOf (acts ++ [.subscribed s]) = subscriptionsOf acts ++ [s] := by
  simp [subscriptionsOf]

/-! ### One call more -/

/-- Whom an event is handed to is settled before the first of them is called. -/
theorem deliver_quiet (ss : List Subscription) (j : Journal) :
    (deliver (quiet drops) e ss j).2 =
      { j with
        subscriptions := j.subscriptions.filter
          (·.id ∉ droppedOn drops e (ss.filter (·.filter.admits e)) j.deliveries)
        deliveries := j.deliveries ++
          (ss.filter (·.filter.admits e)).map fun s => Delivery.mk s.id e } := by
  induction ss generalizing j with
  | nil => simp [deliver, droppedOn]
  | cons s ss ih =>
    rw [deliver]
    by_cases hs : s.filter.admits e = true
    · have hcall : j.call (quiet drops) e s = (none,
          { j.note s e with
            subscriptions := j.subscriptions.filter
              (·.id ∉ drops s (j.deliveries.push ⟨s.id, e⟩)) }) := by
        rw [call, foldl_unsubscribe]
        rfl
      rw [if_pos hs, hcall]
      simp [ih, note, hs, droppedOn, Bool.and_comm]
    · simp [hs, ih]

theorem publishTo_quiet (j : Journal) :
    (publishTo (quiet drops) e j).2 =
      { j with
        events := if e.level.below j.minLevel then j.events else (j.store e).events
        subscriptions := j.subscriptions.filter
          (·.id ∉ droppedOn drops e (j.audience e) j.deliveries)
        deliveries := j.deliveries ++ (j.audience e).map fun s => Delivery.mk s.id e } := by
  rw [publishTo, audience]
  split
  · simp [droppedOn]
  · exact deliver_quiet j.subscriptions (j.store e)

theorem mem_audience_iff :
    s ∈ j.audience e ↔
      e.level.below j.minLevel = false ∧ s ∈ j.subscriptions ∧ s.filter.Matches e := by
  rw [audience, ← EventFilter.admits_iff]
  split <;> simp_all

/-- No two of them have one id, so that at most one is handed the event under an id. -/
theorem filter_deliveries {ss : List Subscription} (hss : (ss.map (·.id)).Nodup) :
    ((ss.map fun s => Delivery.mk s.id e).filter (·.subscription = id)).map (·.event) =
      if id ∈ ss.map (·.id) then [e] else [] := by
  induction ss with
  | nil => rfl
  | cons s ss ih =>
    rw [List.map_cons, List.nodup_cons] at hss
    have hrest := ih hss.2
    by_cases hs : s.id = id
    · subst hs
      simp_all
    · simp_all [Ne.symm hs]

/-! ### Whole sessions -/

structure Session.Kept (j : Journal) (s : Session) : Prop where
  level : s.journal.minLevel = levelAfter s.acts
  standing : ∀ x, x ∈ s.journal.subscriptions ↔ Standing s.acts x
  nextId : s.journal.nextId = (subscriptionsOf s.acts).length + 1
  numbered : (subscriptionsOf s.acts).map (·.id) = List.range' 1 (subscriptionsOf s.acts).length
  distinct : (s.journal.subscriptions.map (·.id)).Nodup
  silent : ∀ x ∈ s.journal.subscriptions, x.stops = none
  delivered : ∃ new, s.journal.deliveries.toList = j.deliveries.toList ++ new ∧
    ∀ id, (new.filter (·.subscription = id)).map (·.event) = due id s.acts

namespace Session.Kept

variable {s : Session}

theorem of_reset (j : Journal) (stored : Array Event) :
    Session.Kept j ⟨{ j.reset with events := stored }, []⟩ where
  level := rfl
  standing _ := iff_of_false List.not_mem_nil not_lasting_nil
  nextId := rfl
  numbered := rfl
  distinct := List.nodup_nil
  silent := nofun
  delivered := ⟨[], (List.append_nil _).symm, fun _ => rfl⟩

theorem due_iff (h : s.Kept j) :
    Due s.acts id e ↔ id ∈ (s.journal.audience e).map (·.id) := by
  simp only [Due, List.mem_map, mem_audience_iff, h.level, h.standing]
  constructor
  · rintro ⟨hl, x, hx, rfl, hm⟩
    exact ⟨x, ⟨hl, hx, hm⟩, rfl⟩
  · rintro ⟨x, ⟨hl, hx, hm⟩, rfl⟩
    exact ⟨hl, x, hx, rfl, hm⟩

theorem nodup_audience (h : s.Kept j) (e : Event) : ((s.journal.audience e).map (·.id)).Nodup := by
  rw [audience]
  split
  · exact List.nodup_nil
  · exact h.distinct.sublist (List.filter_sublist.map _)

theorem published (h : s.Kept j) (e : Event) (events : Array Event) :
    Session.Kept j
      ⟨{ s.journal with
          events := events
          deliveries := s.journal.deliveries ++
            (s.journal.audience e).map fun x => Delivery.mk x.id e },
        s.acts ++ [.published e]⟩ where
  level := by simp [levelAfter, h.level]
  standing x := (h.standing x).trans standing_append_published.symm
  nextId := by simpa [subscriptionsOf] using h.nextId
  numbered := by simpa [subscriptionsOf] using h.numbered
  distinct := h.distinct
  silent := h.silent
  delivered := by
    obtain ⟨new, hnew, hdue⟩ := h.delivered
    refine ⟨new ++ (s.journal.audience e).map fun x => Delivery.mk x.id e, ?_, fun id => ?_⟩
    · simp [hnew]
    · rw [List.filter_append, List.map_append, hdue, filter_deliveries (h.nodup_audience e),
        due_append_singleton, dueOf]
      by_cases hd : Due s.acts id e
      · rw [if_pos hd, if_pos (h.due_iff.1 hd), Option.toList_some]
      · rw [if_neg hd, if_neg (mt h.due_iff.2 hd), Option.toList_none]

theorem dropped (h : s.Kept j) (ids : List Nat) :
    Session.Kept j
      ⟨{ s.journal with subscriptions := s.journal.subscriptions.filter (·.id ∉ ids) },
        s.acts ++ ids.map .dropped⟩ where
  level := h.level.trans levelAfter_append_allDropped.symm
  standing x := by
    rw [standing_append_allDropped, ← h.standing, List.mem_filter, decide_eq_true_iff]
    exact and_comm
  nextId := by simpa only [subscriptionsOf_append_allDropped] using h.nextId
  numbered := by simpa only [subscriptionsOf_append_allDropped] using h.numbered
  distinct := h.distinct.sublist (List.filter_sublist.map _)
  silent x hx := h.silent x (List.mem_filter.1 hx).1
  delivered := by simpa only [due_append_allDropped] using h.delivered

theorem id_lt (h : s.Kept j) {x : Subscription} (hx : x ∈ s.journal.subscriptions) :
    x.id < s.journal.nextId := by
  obtain ⟨before, after, hacts, -⟩ := (h.standing x).1 hx
  have hmem : x.id ∈ (subscriptionsOf s.acts).map (·.id) := by
    rw [hacts]
    simp [subscriptionsOf]
  rw [h.numbered, List.mem_range'_1] at hmem
  rw [h.nextId]
  omega

theorem subscribed (h : s.Kept j) (f : EventFilter) (d : Option Nat) :
    (s.call drops (.subscribe f d)).Kept j where
  level := by simpa [Session.call, Call.apply, Call.acts, subscribe, levelAfter] using h.level
  standing x := by
    simp only [Session.call, Call.apply, Call.acts, subscribe, standing_append_subscribed,
      List.mem_append, List.mem_singleton, h.standing, eq_comm (a := x)]
    exact or_comm
  nextId := by
    simp [Session.call, Call.apply, Call.acts, subscribe, subscriptionsOf_append_subscribed,
      h.nextId]
  numbered := by
    rw [Session.call, Call.acts, subscriptionsOf_append_subscribed, List.map_append, h.numbered,
      List.length_append, List.length_singleton, List.range'_concat, List.map_singleton, subscribe,
      h.nextId, Nat.one_mul, Nat.add_comm]
  distinct := by
    simp only [Session.call, Call.apply, subscribe, List.map_append, List.map_cons, List.map_nil]
    refine List.nodup_append.2 ⟨h.distinct, List.nodup_singleton _, fun a ha b hb => ?_⟩
    obtain ⟨x, hx, rfl⟩ := List.mem_map.1 ha
    rw [List.mem_singleton.1 hb]
    exact (h.id_lt hx).ne
  silent x hx := by
    rcases List.mem_append.1 hx with hx | hx
    · exact h.silent x hx
    · rw [List.mem_singleton.1 hx]
  delivered := by
    simpa [Session.call, Call.apply, Call.acts, subscribe, due_append_singleton, dueOf]
      using h.delivered

theorem call (h : s.Kept j) (c : Call) : (s.call drops c).Kept j := by
  cases c with
  | publish e =>
    rw [Session.call, Call.apply, publishTo_quiet, Call.acts, ← List.singleton_append,
      ← List.append_assoc]
    exact (h.published e _).dropped _
  | subscribe f d => exact h.subscribed f d
  | unsubscribe id => simpa [Session.call, Call.apply, Call.acts, unsubscribe] using h.dropped [id]
  | setMinLevel l =>
    exact {
      level := by simp [Session.call, Call.apply, Call.acts, setMinLevel, levelAfter]
      standing := fun x => (h.standing x).trans standing_append_levelSet.symm
      nextId := by
        simpa [Session.call, Call.apply, Call.acts, setMinLevel, subscriptionsOf] using h.nextId
      numbered := by
        simpa [Session.call, Call.acts, subscriptionsOf] using h.numbered
      distinct := h.distinct
      silent := h.silent
      delivered := by
        simpa [Session.call, Call.apply, Call.acts, setMinLevel, due_append_singleton, dueOf]
          using h.delivered }

end Session.Kept

theorem kept_afterCalls (drops : Drops) (j : Journal) (stored : Array Event) (calls : List Call) :
    (afterCalls drops j stored calls).Kept j := by
  induction calls using List.reverseRecOn with
  | nil => exact .of_reset j stored
  | append_singleton calls c ih =>
    rw [afterCalls_append_singleton]
    exact ih.call c

def unstored (j : Journal) : Journal := { j with events := #[] }

theorem Call.unstored_apply (c : Call) (j : Journal) :
    (c.apply drops j).unstored = (c.apply drops j.unstored).unstored := by
  cases c with
  | publish e =>
    rw [apply, apply, publishTo_quiet, publishTo_quiet]
    rfl
  | _ => rfl

/-- What is stored has no part in who is called and what that leads to. -/
theorem afterCalls_unstored (drops : Drops) (j : Journal) (stored stored' : Array Event)
    (calls : List Call) :
    (afterCalls drops j stored calls).acts = (afterCalls drops j stored' calls).acts ∧
      (afterCalls drops j stored calls).journal.unstored =
        (afterCalls drops j stored' calls).journal.unstored := by
  induction calls using List.reverseRecOn with
  | nil => exact ⟨rfl, rfl⟩
  | append_singleton calls c ih =>
    obtain ⟨hacts, hjournal⟩ := ih
    have same (j : Journal) : c.acts drops j = c.acts drops j.unstored := by cases c <;> rfl
    rw [afterCalls_append_singleton, afterCalls_append_singleton]
    constructor
    · rw [Session.call, Session.call, hacts, same, hjournal, ← same]
    · rw [Session.call, Session.call, c.unstored_apply, hjournal, ← c.unstored_apply]

theorem deliver_congr {react react' : Reactions} {ss : List Subscription}
    (h : ∀ s ∈ ss, react s = react' s) (j : Journal) :
    deliver react e ss j = deliver react' e ss j := by
  induction ss generalizing j with
  | nil => rfl
  | cons s ss ih =>
    rw [List.forall_mem_cons] at h
    simp only [deliver, call, h.1, ih h.2]

/-- Subscribers that state no text to stop a publisher with do nothing but drop what they state. -/
theorem publish_of_silent (h : ∀ s ∈ j.subscriptions, s.stops = none) :
    publish e j = publishTo (quiet fun s _ => s.drops.toList) e j := by
  rw [publish, publishTo, publishTo]
  split
  · rfl
  · refine deliver_congr (fun s hs => ?_) _
    funext ds
    rw [Subscription.reaction, quiet, h s hs]

/-- What is delivered in a session is what is due by its acts. -/
structure Session.Served (drops : Drops) (j : Journal) (calls : List Call) (s : Session) :
    Prop where
  standing : ∀ x, x ∈ s.journal.subscriptions ↔ Standing s.acts x
  /-- Under each id the events that are due are delivered, each once and in their order. -/
  delivered : ∃ new, s.journal.deliveries.toList = j.deliveries.toList ++ new ∧
    ∀ id, (new.filter (·.subscription = id)).map (·.event) = due id s.acts
  distinct : ((subscriptionsOf s.acts).map (·.id)).Nodup
  /-- Had other events been stored before, and others been lost, the deliveries would be these. -/
  unstored : ∀ stored, (afterCalls drops j stored calls).acts = s.acts ∧
    (afterCalls drops j stored calls).journal.deliveries = s.journal.deliveries
  /-- Subscribers that do what their subscriptions state are among those that this is about. -/
  stated : ∀ e, publish e s.journal = publishTo (quiet fun x _ => x.drops.toList) e s.journal

/-- Whatever the subscribers drop while they are called, each subscription is called once for each
event that is published while it stands, is let in and matches its filter, and for no other; what is
stored has no part in it, and no two subscriptions have one id. -/
theorem afterCalls_served (drops : Drops) (j : Journal) (stored : Array Event)
    (calls : List Call) : (afterCalls drops j stored calls).Served drops j calls := by
  have hkept := kept_afterCalls drops j stored calls
  refine ⟨hkept.standing, hkept.delivered, ?_, fun stored' => ?_,
    fun e => publish_of_silent hkept.silent⟩
  · rw [hkept.numbered]
    exact List.nodup_range'
  · obtain ⟨hacts, hjournal⟩ := afterCalls_unstored drops j stored' stored calls
    refine ⟨hacts, ?_⟩
    injection hjournal

/-- Who is dropped while an event is handed out is still called for it, and then no more. -/
example (e : Event) :
    (afterCalls (fun s _ => s.drops.toList) .empty #[] [.subscribe default (some 2),
      .subscribe default none, .publish e, .publish e]).journal.deliveries =
        #[⟨1, e⟩, ⟨2, e⟩, ⟨1, e⟩] := by
  cases e with
  | mk level source name message data => cases level <;> rfl

end Journal

end LinkState
