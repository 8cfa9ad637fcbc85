import LinkState.Proofs.Calculation

/-! Which routers reach each other. A link that counts has one back that counts too, so what a
router reaches can reach it, and the routers fall into components. A search gives up paths that are
too long, but none without detours is, if the metrics of all links together are admitted: then the
routers in a tree are the component of its root. -/

namespace LinkState

def Advertisement.linkTotal (a : Advertisement) : Nat :=
  ((a.records.filter (·.type = .pointToPoint)).map (·.metric.value)).sum

theorem Advertisement.metric_le_linkTotal {a : Advertisement} {r : LinkRecord}
    (hr : r ∈ a.records) (htype : r.type = .pointToPoint) : r.metric.value ≤ a.linkTotal := by
  apply List.le_sum_of_mem
  exact List.mem_map_of_mem (List.mem_filter.2 ⟨hr, decide_eq_true htype⟩)

namespace Database

variable {db : Database Advertisement} {u v : Address}

def linkTotal (db : Database Advertisement) : Nat := (db.entries.map fun e => e.2.linkTotal).sum

/-- What the links of one router add up to. -/
def linkTotalAt (db : Database Advertisement) (u : Address) : Nat :=
  (db.get? u).elim 0 Advertisement.linkTotal

theorem linkTotal_eq (db : Database Advertisement) :
    db.linkTotal = (db.keys.map db.linkTotalAt).sum := by
  rw [linkTotal, keys, List.map_map]
  refine congrArg List.sum (List.map_congr_left fun e he => ?_)
  simp [linkTotalAt, get?_of_mem he]

/-- Different routers have no link in common. -/
theorem sum_linkTotalAt_le {us : List Address} (hn : us.Nodup)
    (hus : ∀ u ∈ us, (db.get? u).isSome) : (us.map db.linkTotalAt).sum ≤ db.linkTotal := by
  have hsub : us ⊆ db.keys := fun u hu => mem_keys_iff.2 (hus u hu)
  obtain ⟨vs, hperm, hvs⟩ := List.subperm_iff.1 (hn.subperm hsub)
  rw [linkTotal_eq, ← (hperm.map _).sum_eq]
  exact (hvs.map _).sum_le_sum fun _ _ => Nat.zero_le _

/-- A link that counts joins two routers, whichever of them has it. -/
def graph (db : Database Advertisement) : SimpleGraph Address where
  Adj u v := u ≠ v ∧ ∃ w, Leads db u (.router v) w
  symm := ⟨fun u v h => by
    obtain ⟨hne, w, hl⟩ := h
    obtain ⟨r, l, hr, hto, -, hl, hback⟩ := leads_router_iff.1 hl
    exact ⟨hne.symm, _, leads_router_iff.2 ⟨l, r, hl, hback, rfl, hr, hto⟩⟩⟩
  loopless := ⟨fun _ h => h.1 rfl⟩

/-- A walk over the links stays in one component. -/
theorem reachable_of_walk {k : VertexKey} {d : Nat} (h : Walk db u k d) (hk : k = .router v) :
    db.graph.Reachable u v := by
  induction h generalizing v with
  | start =>
    obtain rfl := VertexKey.router.inj hk
    exact .refl _
  | @step x k d w hx hl ih =>
    subst hk
    by_cases hxv : x = v
    · exact hxv ▸ ih rfl
    · have hadj : db.graph.Adj x v := ⟨hxv, w, hl⟩
      exact (ih rfl).trans hadj.reachable

section Path

variable (p : db.graph.Walk u v) (hu : (db.get? u).isSome)
include hu

theorem isSome_of_mem_support : ∀ x ∈ p.support, (db.get? x).isSome := by
  induction p with
  | nil => simpa using hu
  | cons hadj p ih =>
    obtain ⟨w, hl⟩ := hadj.2
    simpa [hu] using ih hl.far_isSome

/-- It is no longer than the links of the routers on the way together. -/
theorem exists_walk_of_support :
    ∃ d ≤ (p.support.map db.linkTotalAt).sum, Walk db u (.router v) d := by
  induction p with
  | nil => exact ⟨0, Nat.zero_le _, .start hu⟩
  | @cons u x v hadj p ih =>
    obtain ⟨w, hl⟩ := hadj.2
    obtain ⟨d, hd, hwalk⟩ := ih hl.far_isSome
    have hw : w ≤ db.linkTotalAt u := by
      cases hl with
      | router own mem type =>
        simpa [linkTotalAt, own] using Advertisement.metric_le_linkTotal mem type
    refine ⟨0 + w + d, ?_, ((Walk.start hu).step hl).trans hwalk⟩
    simp only [SimpleGraph.Walk.support_cons, List.map_cons, List.sum_cons]
    omega

end Path

/-- Without detours a walk has each router's links to spend but once. -/
theorem exists_walk_le (hu : (db.get? u).isSome) (h : db.graph.Reachable u v) :
    ∃ d ≤ db.linkTotal, Walk db u (.router v) d := by
  obtain ⟨p, hp⟩ := h.exists_isPath
  obtain ⟨d, hd, hwalk⟩ := exists_walk_of_support p hu
  have htotal := sum_linkTotalAt_le hp.support_nodup (isSome_of_mem_support p hu)
  exact ⟨d, hd.trans htotal, hwalk⟩

end Database

/-! ### The routers in a tree -/

def Tree.routers (t : PathTree) : Set Address := {id | ∃ d, t.Holds (.router id) d}

/-- The routers in a tree are those in the component of its root. -/
theorem mem_routers_iff {db : Database Advertisement} {u v : Address}
    (hsum : db.linkTotal ≤ maxMetric) (hu : (db.get? u).isSome) :
    v ∈ (shortestPaths db u).routers ↔ db.graph.Reachable u v := by
  refine ((shortestPaths_isShortestPathTree db u).router_mem v).trans ?_
  constructor
  · intro h
    obtain ⟨d, hd, -⟩ := h
    exact Database.reachable_of_walk hd rfl
  · intro h
    obtain ⟨d, hd, hwalk⟩ := Database.exists_walk_le hu h
    exact ⟨d, hwalk, hd.trans hsum⟩

theorem isSome_of_mem_routers {db : Database Advertisement} {u v : Address}
    (h : v ∈ (shortestPaths db u).routers) : (db.get? v).isSome := by
  obtain ⟨d, hwalk, -⟩ := ((shortestPaths_isShortestPathTree db u).router_mem v).1 h
  exact hwalk.far_isSome

theorem SameRecords.routers_eq {db db' : Database Advertisement} (h : SameRecords db db')
    (u : Address) : (shortestPaths db u).routers = (shortestPaths db' u).routers :=
  Set.ext fun _ => exists_congr fun _ => h.holds_iff

/-- The IDs of the routers in a database. -/
abbrev Database.Router (db : Database Advertisement) : Type := {u : Address // (db.get? u).isSome}

/-- The routers in the trees of all roots partition the routers: they are the classes of those that
can reach each other. -/
theorem isPartition_routers {db : Database Advertisement} (hsum : db.linkTotal ≤ maxMetric) :
    Setoid.IsPartition
      {c | ∃ u : db.Router, c = {v : db.Router | v.1 ∈ (shortestPaths db u.1).routers}} := by
  have hclass (u : db.Router) : {v : db.Router | v.1 ∈ (shortestPaths db u.1).routers} =
      {v : db.Router | db.graph.Reachable v.1 u.1} := by
    ext v
    exact (mem_routers_iff hsum u.2).trans (SimpleGraph.reachable_comm ..)
  simp only [hclass]
  exact Setoid.isPartition_classes (db.graph.reachableSetoid.comap Subtype.val)

namespace Network

variable {n : Network} {s : SearcherId}

def calculateEach (s : SearcherId) (roots : List Address) : NetworkM (List (Address × PathTree)) :=
  roots.mapM fun u => do return (u, ← calculate s u)

/-- A search leaves nothing behind that the next ones go by. -/
theorem completes_calculateEach (s : SearcherId) (roots : List Address) :
    Completes (calculateEach s roots) n fun ts n' => Marks n n' ∧ ts = roots.map fun u =>
      (u, shortestPaths (n.unexplored (n.searcher s).database) u) := by
  induction roots generalizing n with
  | nil => exact completes_pure ⟨.refl n, rfl⟩
  | cons u roots ih =>
    rw [calculateEach, List.mapM_cons, bind_assoc]
    refine Completes.bind ((completes_calculate_exact s u).mono fun t n₁ h₁ => ?_)
    rw [pure_bind]
    refine Completes.bind (ih.mono fun ts n₂ h₂ => completes_pure ?_)
    obtain ⟨hmarks, hts⟩ := h₂
    rw [h₁.marks.sameTopology.searcher, h₁.marks.unexplored] at hts
    exact ⟨h₁.marks.trans hmarks, by rw [h₁.tree, hts, List.map_cons]⟩

/-- Where the metrics of all links together are admitted, two routers are in each other's trees or
in neither, and the trees of all routers partition them. -/
theorem calculate_mutual (n : Network) (s : SearcherId) (roots : List Address)
    (hsum : (n.snapshot (n.searcher s).database).linkTotal ≤ maxMetric)
    (hroots : ∀ u ∈ roots, ((n.snapshot (n.searcher s).database).get? u).isSome) :
    Completes (calculateEach s roots) n fun ts _ => ts.map Prod.fst = roots ∧
      (∀ e ∈ ts, ∀ f ∈ ts, f.1 ∈ e.2.routers ↔ e.1 ∈ f.2.routers) ∧
      (∀ e ∈ ts, ∀ v ∈ e.2.routers, ((n.snapshot (n.searcher s).database).get? v).isSome) ∧
      ((∀ u : (n.snapshot (n.searcher s).database).Router, u.1 ∈ roots) →
        Setoid.IsPartition {c : Set (n.snapshot (n.searcher s).database).Router |
          ∃ e ∈ ts, c = {v | v.1 ∈ e.2.routers}}) := by
  refine (completes_calculateEach s roots).mono fun ts n' h => ?_
  obtain ⟨-, rfl⟩ := h
  have hsame := (sameRecords_unexplored n (n.searcher s).database).symm
  generalize n.unexplored (n.searcher s).database = db' at hsame ⊢
  generalize n.snapshot (n.searcher s).database = db at *
  simp only [List.map_map, Function.comp_def, List.map_id', List.forall_mem_map, hsame.routers_eq,
    true_and]
  refine ⟨fun u hu v hv => ?_, fun u hu v hv => isSome_of_mem_routers hv, fun hall => ?_⟩
  · rw [mem_routers_iff hsum (hroots u hu), mem_routers_iff hsum (hroots v hv)]
    exact SimpleGraph.reachable_comm ..
  · have hsets : {c : Set db.Router | ∃ e ∈ roots.map fun u => (u, shortestPaths db' u),
        c = {v | v.1 ∈ e.2.routers}} =
        {c | ∃ u : db.Router, c = {v | v.1 ∈ (shortestPaths db u.1).routers}} := by
      ext c
      constructor
      · intro h
        obtain ⟨e, he, hc⟩ := h
        obtain ⟨u, hu, rfl⟩ := List.mem_map.1 he
        exact ⟨⟨u, hroots u hu⟩, hc.trans (by simp only [hsame.routers_eq])⟩
      · intro h
        obtain ⟨u, hc⟩ := h
        exact ⟨_, List.mem_map_of_mem (hall u), hc.trans (by simp only [hsame.routers_eq])⟩
    rw [hsets]
    exact isPartition_routers hsum

/-- Two pairs of routers, and a link from one pair to the other with none back. -/
def islands : Network :=
  (exec (searcherOver
    [⟨⟨1, 1, 1, 1⟩, ⟨1, 1, 1, 1⟩, .notExplored,
      [⟨.pointToPoint, ⟨2, 2, 2, 2⟩, ⟨10, 1, 0, 1⟩, defaultInterfaceCost⟩]⟩,
     ⟨⟨2, 2, 2, 2⟩, ⟨2, 2, 2, 2⟩, .notExplored,
      [⟨.pointToPoint, ⟨1, 1, 1, 1⟩, ⟨10, 1, 0, 2⟩, .zero⟩,
       ⟨.pointToPoint, ⟨3, 3, 3, 3⟩, ⟨10, 2, 0, 1⟩, .zero⟩]⟩,
     ⟨⟨3, 3, 3, 3⟩, ⟨3, 3, 3, 3⟩, .notExplored,
      [⟨.pointToPoint, ⟨4, 4, 4, 4⟩, ⟨10, 3, 0, 1⟩, .zero⟩]⟩,
     ⟨⟨4, 4, 4, 4⟩, ⟨4, 4, 4, 4⟩, .notExplored,
      [⟨.pointToPoint, ⟨3, 3, 3, 3⟩, ⟨10, 3, 0, 2⟩, defaultInterfaceCost⟩]⟩]) .empty).2

theorem calculate_mutual_islands :
    (islands.snapshot (islands.searcher 0).database).linkTotal ≤ maxMetric ∧
      ∃ ts, (exec (calculateEach 0 (islands.snapshot (islands.searcher 0).database).keys)
        islands).1 = .ok ts ∧
        (∀ e ∈ ts, ∀ f ∈ ts, f.1 ∈ e.2.routers ↔ e.1 ∈ f.2.routers) ∧
        Setoid.IsPartition {c : Set (islands.snapshot (islands.searcher 0).database).Router |
          ∃ e ∈ ts, c = {v | v.1 ∈ e.2.routers}} := by
  have hsum : (islands.snapshot (islands.searcher 0).database).linkTotal ≤ maxMetric := by
    decide +kernel
  have hquiet : islands.Quiet := quiet_of_nil (by decide +kernel)
  have h := calculate_mutual islands 0 _ hsum fun _ hu => Database.mem_keys_iff.1 hu
  obtain ⟨ts, hts, -, hmutual, -, hparts⟩ := h.of_quiet hquiet
  exact ⟨hsum, ts, hts, hmutual, hparts fun u => Database.mem_keys_iff.2 u.2⟩

end Network

end LinkState
