import LinkState.Proofs.Search.Agreement

/-! What a search drops. A record of a router is dropped or not for reasons that the order of its
records does not matter for: what it leads to, how far that is, and whether it was settled before
the router was relaxed. So the counts add up over the records of all routers. -/

namespace LinkState

def SearchStats.pair (s : SearchStats) : Nat × Nat := (s.rejectedPaths, s.unresolvedLinks)

theorem SearchStats.pair_injective {s s' : SearchStats} (h : s.pair = s'.pair) : s = s' := by
  cases s
  cases s'
  simp_all [SearchStats.pair]

namespace Search

variable {db db' : Database Advertisement} {root : Address} {s : Search} {h : Nat} {v : PathVertex}

/-- What a record of the router `u` adds to the counts, where the vertices of the keys `seen` are
settled and the router is at the distance. -/
def dropped (db : Database Advertisement) (seen : List VertexKey) (u : Address) (distance : Nat)
    (r : LinkRecord) : Nat × Nat :=
  match (target? db u r).map Target.key with
  | some k => if k ∉ seen ∧ maxMetric < distance + r.metric.value then (1, 0) else 0
  | none => if r.type = .pointToPoint then (0, 1) else 0

/-- What relaxing a vertex of a key and distance adds to the counts. -/
def droppedOver (db : Database Advertisement) (seen : List VertexKey) :
    VertexKey × Nat → Nat × Nat
  | (.router u, d) => (((db.get? u).elim [] Advertisement.records).map (dropped db seen u d)).sum
  | (.network .., _) => 0

/-- What relaxing vertices one after the other adds up to. A vertex is settled when it is relaxed,
and so are those before it. -/
def allDropped (db : Database Advertisement) (seen : List VertexKey) :
    List (VertexKey × Nat) → Nat × Nat
  | [] => 0
  | e :: es => droppedOver db (seen ++ [e.1]) e + allDropped db (seen ++ [e.1]) es

theorem allDropped_append_singleton (seen : List VertexKey) (es : List (VertexKey × Nat))
    (e : VertexKey × Nat) : allDropped db seen (es ++ [e]) =
      allDropped db seen es + droppedOver db (seen ++ (es ++ [e]).map Prod.fst) e := by
  induction es generalizing seen with
  | nil => simp [allDropped]
  | cons x es ih => simp [allDropped, ih, add_assoc]

def log (t : PathTree) : List (VertexKey × Nat) :=
  t.order.toList.filterMap fun i => (t.view i).map fun v => (v.key, v.distance)

def settledKeys (t : PathTree) : List VertexKey := (log t).map Prod.fst

theorem mem_settledKeys (hs : Sound db root s) {k : VertexKey} :
    k ∈ settledKeys s.tree ↔ ∃ i u, Settled s.tree.view i u ∧ u.key = k := by
  simp only [settledKeys, log, List.mem_map, List.mem_filterMap, Option.map_eq_some_iff]
  constructor
  · intro hk
    obtain ⟨_, ⟨i, hi, u, hu, rfl⟩, rfl⟩ := hk
    obtain ⟨u', hu'⟩ := (hs.frontier.settled i).1 (Array.mem_toList_iff.1 hi)
    obtain rfl := Option.some.inj (hu.symm.trans hu'.1)
    exact ⟨i, u, hu', rfl⟩
  · intro hk
    obtain ⟨i, u, hu, rfl⟩ := hk
    exact ⟨_, ⟨i, Array.mem_toList_iff.2 ((hs.frontier.settled i).2 ⟨u, hu⟩), u, hu.1, rfl⟩, rfl⟩

/-- What is settled keeps its place in the log. -/
theorem Step.log_eq {s' : Search} (hstep : Step db root s s') (hs : Sound db root s) :
    log s'.tree = log s.tree := by
  rw [log, log, hstep.order]
  apply List.filterMap_congr
  intro i hi
  obtain ⟨u, hu⟩ := (hs.frontier.settled i).1 (Array.mem_toList_iff.1 hi)
  rw [hu.1, ((hstep.grows.settled i u).2 hu).1]

/-! ### Counts -/

def counts (s : Search) : Nat × Nat := s.stats.pair

theorem stats_report (s : Search) (f : Finding) : (s.report f).stats = s.stats.count f := by
  simp [stats, report]

theorem locate?_settled_iff (hs : Sound db root s) {k : VertexKey} :
    (locate? s.tree k).any (·.2.status = .inTree) = true ↔ k ∈ settledKeys s.tree := by
  rw [mem_settledKeys hs]
  cases hl : locate? s.tree k with
  | none =>
    refine iff_of_false (by simp) ?_
    intro hk
    obtain ⟨i, u, hu, rfl⟩ := hk
    exact key_ne_of_locate?_eq_none hl hu.1 rfl
  | some found =>
    obtain ⟨i, w⟩ := found
    obtain ⟨hw, hk⟩ := locate?_eq_some hl
    have hview := Tree.view_of_getElem? hw
    simp only [Option.any_some, decide_eq_true_eq]
    constructor
    · intro hin
      exact ⟨i, w.bare, ⟨hview, hin⟩, hk⟩
    · intro hset
      obtain ⟨j, u, hu, hku⟩ := hset
      obtain rfl := hs.arena.keys i j w.bare u hview hu.1 (hk.trans hku.symm)
      obtain rfl := Option.some.inj (hview.symm.trans hu.1)
      exact hu.2

theorem counts_discover (s : Search) (h : Nat) (t : Target) (d : Nat) :
    counts (s.discover h t d) = counts s := by
  unfold discover
  split
  · exact congrArg SearchStats.pair (stats_report s (.marked t.id .candidate))
  · rfl

theorem counts_improve (s : Search) (h i : Nat) (w : PathVertex) (d : Nat) :
    counts (s.improve h i w d) = counts s := by
  unfold improve
  split
  · rfl
  · split <;> rfl

theorem counts_offer (hs : Sound db root s) (t : Target) (m : Metric) :
    counts (s.offer h v t m) = counts s +
      if t.key ∉ settledKeys s.tree ∧ maxMetric < v.distance + m.value then (1, 0) else 0 := by
  have hiff := locate?_settled_iff hs (k := t.key)
  rw [offer]
  split
  · next hin =>
    rw [if_neg fun hno => hno.1 (hiff.1 hin)]
    rfl
  · next hin =>
    have hnot : t.key ∉ settledKeys s.tree := fun hk => hin (hiff.2 hk)
    cases hd : m.extend? v.distance with
    | none =>
      rw [if_pos ⟨hnot, lt_of_extend?_eq_none hd⟩]
      exact congrArg SearchStats.pair (stats_report s _)
    | some d =>
      obtain ⟨hsum, hmax⟩ := Metric.extend?_eq_some_iff.1 hd
      rw [if_neg fun hno => by omega, add_zero]
      cases locate? s.tree t.key with
      | none => exact counts_discover s h t d
      | some found => exact counts_improve s h found.1 found.2 d

theorem counts_relaxLink (hs : Sound db root s) (r : LinkRecord) :
    counts (relaxLink db h v s r) =
      counts s + dropped db (settledKeys s.tree) v.id v.distance r := by
  unfold relaxLink dropped target?
  generalize htype : r.type = type
  cases type with
  | pointToPoint =>
    cases (db.get? r.id).filter (linksBack · v.id) with
    | some a => exact counts_offer hs (.router r.id a) r.metric
    | none => exact congrArg SearchStats.pair (stats_report s (.unresolved v.id r.id))
  | stubNetwork =>
    cases Mask.ofAddress r.data with
    | ok m => exact counts_offer hs (.network r.id m) r.metric
    | error f => exact congrArg SearchStats.pair (stats_report s (.badMask r.id f))
  | unknown | transitNetwork | virtualLink | other => rfl

theorem counts_foldl_relaxLink {a : Advertisement} (own : db.get? v.id = some a)
    (rs : List LinkRecord) (hrs : ∀ r ∈ rs, r ∈ a.records) (s : Search) (hs : Sound db root s)
    (hc : Current s.tree.view h v) :
    counts (rs.foldl (relaxLink db h v) s) =
      counts s + (rs.map (dropped db (settledKeys s.tree) v.id v.distance)).sum := by
  induction rs generalizing s with
  | nil => simp
  | cons r rs ih =>
    rw [List.forall_mem_cons] at hrs
    obtain ⟨hstep, -⟩ := relaxLink_step hs hc own hrs.1
    have hkeys : settledKeys (relaxLink db h v s r).tree = settledKeys s.tree :=
      congrArg (List.map Prod.fst) (hstep.log_eq hs)
    rw [List.foldl_cons, ih hrs.2 _ hstep.sound (hc.grows hstep.grows), hkeys,
      counts_relaxLink hs, List.map_cons, List.sum_cons, add_assoc]

/-- Relaxing the vertex that was settled last. -/
theorem Choice.counts_relax (hc : Choice db root s h) (hv : s.tree.view h = some v) :
    counts (s.relax db h) =
      counts s + droppedOver db (settledKeys s.tree) (v.key, v.distance) := by
  obtain ⟨v', hv', hfar⟩ := hc.settled
  obtain rfl := Option.some.inj (hv.symm.trans hv'.1)
  obtain ⟨cs, hw, hbare⟩ := Tree.view_eq_some_iff.1 hv
  have same : Vertex.bare { v with children := cs } = v := by rw [Vertex.bare, ← hbare]
  have hg := hc.sound.arena.genuine h v hv
  cases htype : v.type with
  | network =>
    rw [relax_network hc.sound hw htype, Vertex.key, htype]
    rfl
  | router =>
    have hg := hg.router htype
    obtain ⟨a, own⟩ := Option.isSome_iff_exists.1 hg.2.2
    have hrecords : v.advertisement.elim [] Advertisement.records = a.records := by
      rw [hg.2.1.trans own, Option.elim_some]
    rw [Search.relax, hw, key_of_router htype]
    dsimp only
    rw [hrecords, counts_foldl_relaxLink (v := { v with children := cs }) own a.records
      (fun _ hr => hr) s hc.sound ⟨same ▸ hv', htype, hfar⟩, droppedOver, own]
    rfl

theorem counts_enter (s : Search) (h : Nat) : counts (s.enter h) = counts s := by
  unfold enter
  split
  · next v _ =>
    split
    · exact congrArg SearchStats.pair (stats_report s (.marked v.id .inTree))
    · rfl
  · rfl

/-- A settled vertex is entered in the log as the last one. -/
theorem log_enter (hv : s.tree.view h = some v) (hnot : h ∉ s.tree.order)
    (hps : ∀ p ∈ v.parents, (s.tree.view p).isSome) :
    log (s.enter h).tree = log s.tree ++ [((settle v).key, (settle v).distance)] := by
  obtain ⟨-, horder, hview⟩ := enter_order hv hps
  rw [log, log, horder, hview, Array.toList_push, List.filterMap_append]
  congr 1
  · apply List.filterMap_congr
    intro i hi
    rw [Function.update_of_ne]
    rintro rfl
    exact hnot (Array.mem_toList_iff.1 hi)
  · simp [settle, Vertex.key]

/-! ### A whole search -/

/-- Before the vertex that was settled last is relaxed, the counts are those of the others. -/
def Counted (db : Database Advertisement) (s : Search) (h : Nat) : Prop :=
  ∃ es v, s.tree.view h = some v ∧ log s.tree = es ++ [(v.key, v.distance)] ∧
    counts s = allDropped db [] es

theorem Choice.counted_relax (hc : Choice db root s h) (hcount : Counted db s h) :
    counts (s.relax db h) = allDropped db [] (log (s.relax db h).tree) := by
  obtain ⟨es, v, hv, hlog, hes⟩ := hcount
  obtain ⟨hstep, -⟩ := hc.relax
  rw [hstep.log_eq hc.sound, hc.counts_relax hv, hes, hlog, allDropped_append_singleton,
    List.nil_append, ← hlog]
  rfl

theorem counted_enter (hv : s.tree.view h = some v) (hnot : h ∉ s.tree.order)
    (hps : ∀ p ∈ v.parents, (s.tree.view p).isSome)
    (hcount : counts s = allDropped db [] (log s.tree)) : Counted db (s.enter h) h := by
  obtain ⟨-, -, hview⟩ := enter_order hv hps
  exact ⟨log s.tree, settle v, by rw [hview, Function.update_self], log_enter hv hnot hps,
    (counts_enter s h).trans hcount⟩


theorem Counted.choose {next : Nat} {queue : Queue Nat} (hs : Sound db root s)
    (hpop : s.queue.pop? (order s.tree) = some (next, queue))
    (hcount : counts s = allDropped db [] (log s.tree)) :
    Counted db ({ s with queue := queue }.enter next) next := by
  obtain ⟨v, hv, hnot, hps⟩ := hs.popped hpop
  exact counted_enter (s := { s with queue := queue }) hv.1 hnot hps hcount

/-- The counts of a search are what its settled vertices add up to. -/
theorem counts_run (db : Database Advertisement) (root : Address) :
    counts (run db root) = allDropped db [] (log (run db root).tree) := by
  cases hroot : db.get? root with
  | none =>
    rw [run, hroot]
    rfl
  | some a =>
    obtain ⟨hchoice, hsize⟩ := choice_root hroot
    obtain ⟨s', h', hloop, hc, hcount, -⟩ := loop_induction (P := Counted db)
      (fun s h next queue hc hp hpop => .choose hc.relax.1.sound hpop (hc.counted_relax hp))
      (vertexBound db) _ 0 hchoice
      (counted_enter (view_start_zero root a) (Array.not_mem_empty 0)
        (fun _ h => absurd h List.not_mem_nil) rfl) (by omega)
    rw [run_eq hroot, hloop]
    exact (congrArg SearchStats.pair (stats_report ..)).trans (hc.counted_relax hcount)

end Search

end LinkState
