import LinkState.Proofs.Build
import LinkState.Proofs.Calculation
import LinkState.Proofs.Reachable
import LinkState.Proofs.Routes

/-! Putting routes into tables. What one node has done to it is `refill`, a function of the topology
and of the database without marks. Whatever comes of a run over all nodes, a stop by a subscriber
included, the tables are those with the nodes up to some point refilled. At the end of it the store
is told how many routes each node has. -/

namespace LinkState

namespace Routes

theorem without_replace (rs : Routes) (s : RouteSource) (new : List (Route Number)) :
    (rs.replace s new).without s = rs.without s := by
  have hnone : (new.map fun r => (⟨r, s⟩ : TableEntry)).filter (·.source ≠ s) = [] := by
    rw [List.filter_eq_nil_iff]
    intro e he
    obtain ⟨r, -, rfl⟩ := List.mem_map.1 he
    simp
  rw [replace, without, List.filter_append, hnone, List.append_nil, without, List.filter_filter]
  simp only [Bool.and_self]

theorem replace_replace (rs : Routes) (s : RouteSource) (old new : List (Route Number)) :
    (rs.replace s old).replace s new = rs.replace s new := by
  rw [replace, without_replace, replace]

end Routes

namespace Network

variable {n n' m m' : Network} {d : DatabaseId} {db : Database Advertisement} {k : NodeId}
  {ks : List NodeId} {x : Router}

def globals (n : Network) (k : NodeId) : Routes := (n.table (n.node k).table).routes.of .global

/-- Routes as entries of a table. -/
def entries (rs : List (Route Nat)) : Routes := rs.map fun r => ⟨r.map .ofNat, .global⟩

theorem lt_of_routerOf {k : NodeId} {x : Router} (h : n.routerOf k = some x) :
    k < n.nodes.size := by
  by_contra hk
  have hnode : n.node k = default := getD_of_le _ (Nat.le_of_not_lt hk) _
  rw [routerOf, hnode] at h
  cases h

def routesOver (names : NameOrder) (db : Database Advertisement) (root : Address)
    (interfaces : List Interface) : List (Route Nat) :=
  ((shortestPaths db root).routes names interfaces).toOption.getD []

theorem routes_eq_ok (names : NameOrder) (db : Database Advertisement) (root : Address)
    (interfaces : List Interface) :
    (shortestPaths db root).routes names interfaces =
      .ok (routesOver names db root interfaces) := by
  obtain ⟨rs, hrs⟩ := exists_routes db root names interfaces
  rw [routesOver, hrs]
  rfl

def setRoutes (n : Network) (t : TableId) (f : Routes → Routes) : Network :=
  { n with tables := n.tables.modify t fun x => { x with routes := f x.routes } }

theorem SameTopology.setRoutes (n : Network) (t : TableId) (f : Routes → Routes) :
    SameTopology n (n.setRoutes t f) :=
  ⟨rfl, rfl, rfl, rfl, rfl, rfl, rfl, rfl, Array.size_modify, rfl⟩

theorem table_setRoutes (n : Network) (t u : TableId) (f : Routes → Routes) :
    (n.setRoutes t f).table u =
      if u = t ∧ t < n.tables.size then { n.table t with routes := f (n.table t).routes }
      else n.table u := getD_modify ..

/-- A table with the routes in place of its computed ones. -/
def renewed (t : ForwardingTable) (rs : List (Route Nat)) : ForwardingTable :=
  { t with routes := t.routes.replace .global (rs.map (·.map .ofNat)) }

theorem renewed_renewed (t : ForwardingTable) (old new : List (Route Nat)) :
    renewed (renewed t old) new = renewed t new := by
  rw [renewed, renewed, renewed, Routes.replace_replace]

theorem globals_renewed (t : ForwardingTable) (rs : List (Route Nat)) :
    (renewed t rs).routes.of .global = entries rs := by
  rw [renewed, Routes.of_replace_self, entries, List.map_map]
  rfl

/-- A network with the routes of the router of a node, if it has one, in place of its computed
routes. -/
def refill (n : Network) (db : Database Advertisement) (m : Network) (k : NodeId) : Network :=
  (n.routerOf k).elim m fun x => m.setRoutes (n.node k).table (·.replace .global
    ((routesOver n.environment.names db x.id (n.interfacesOf k)).map (·.map .ofNat)))

theorem refill_of_none (hk : n.routerOf k = none) : n.refill db m k = m := by
  rw [refill, hk, Option.elim_none]

theorem refill_of_some (hk : n.routerOf k = some x) :
    n.refill db m k = m.setRoutes (n.node k).table (·.replace .global
      ((routesOver n.environment.names db x.id (n.interfacesOf k)).map (·.map .ofNat))) := by
  rw [refill, hk, Option.elim_some]

def refillAll (n : Network) (db : Database Advertisement) (ks : List NodeId) (m : Network) :
    Network := ks.foldl (n.refill db) m

/-! ### The tables -/

theorem SameTopology.refill (n : Network) (db : Database Advertisement) (m : Network) (k : NodeId) :
    SameTopology m (n.refill db m k) := by
  cases hk : n.routerOf k with
  | none =>
    rw [refill_of_none hk]
    exact .refl m
  | some x =>
    rw [refill_of_some hk]
    exact .setRoutes ..

theorem SameTopology.refillAll (n : Network) (db : Database Advertisement) (ks : List NodeId)
    (m : Network) : SameTopology m (n.refillAll db ks m) := by
  induction ks generalizing m with
  | nil => exact .refl m
  | cons k ks ih => exact (SameTopology.refill n db m k).trans (ih _)

theorem stores_refill : (n.refill db m k).stores = m.stores := by
  cases hk : n.routerOf k with
  | none => rw [refill_of_none hk]
  | some x => rw [refill_of_some hk, setRoutes]

theorem stores_refillAll : (n.refillAll db ks m).stores = m.stores := by
  induction ks generalizing m with
  | nil => rfl
  | cons k ks ih => exact ih.trans stores_refill

theorem tables_refillAll (h : m'.tables = m.tables) :
    (n.refillAll db ks m').tables = (n.refillAll db ks m).tables := by
  induction ks generalizing m m' with
  | nil => exact h
  | cons k ks ih =>
    refine ih ?_
    cases hk : n.routerOf k with
    | none => rwa [refill_of_none hk, refill_of_none hk]
    | some x => rw [refill_of_some hk, refill_of_some hk, setRoutes, setRoutes, h]

theorem table_refill_of_ne {t : TableId}
    (h : ∀ x, n.routerOf k = some x → (n.node k).table ≠ t) :
    (n.refill db m k).table t = m.table t := by
  cases hx : n.routerOf k with
  | none => rw [refill_of_none hx]
  | some x =>
    rw [refill_of_some hx, table_setRoutes, if_neg]
    exact fun hc => h x hx hc.1.symm

theorem table_refill (hx : n.routerOf k = some x) (hlt : (n.node k).table < m.tables.size) :
    (n.refill db m k).table (n.node k).table =
      renewed (m.table (n.node k).table)
        (routesOver n.environment.names db x.id (n.interfacesOf k)) := by
  rw [refill_of_some hx, table_setRoutes, if_pos ⟨rfl, hlt⟩]
  rfl

theorem table_refillAll_of_ne {t : TableId}
    (h : ∀ k ∈ ks, ∀ x, n.routerOf k = some x → (n.node k).table ≠ t) :
    (n.refillAll db ks m).table t = m.table t := by
  induction ks generalizing m with
  | nil => rfl
  | cons k ks ih =>
    rw [List.forall_mem_cons] at h
    exact (ih h.2).trans (table_refill_of_ne h.1)

theorem table_ne_of_ne (hn : n.WellFormed) {j k : NodeId} {y : Router} (hy : n.routerOf j = some y)
    (hk : k < n.nodes.size) (hjk : j ≠ k) : (n.node j).table ≠ (n.node k).table :=
  fun ht => hjk (hn.ownTable j (lt_of_routerOf hy) k hk ht)

/-- The table of a node that has no router, or is not refilled, stays as it is. -/
theorem table_refillAll_of_not (hn : n.WellFormed) (hk : k < n.nodes.size)
    (h : k ∈ ks → n.routerOf k = none) :
    (n.refillAll db ks m).table (n.node k).table = m.table (n.node k).table := by
  refine table_refillAll_of_ne fun j hj y hy => table_ne_of_ne hn hy hk ?_
  rintro rfl
  rw [h hj] at hy
  cases hy

/-- Only the routes of its own router come into a table, and they come last. -/
theorem table_refillAll (hn : n.WellFormed) (hsize : m.tables.size = n.tables.size) (hk : k ∈ ks)
    (hx : n.routerOf k = some x) :
    (n.refillAll db ks m).table (n.node k).table =
      renewed (m.table (n.node k).table)
        (routesOver n.environment.names db x.id (n.interfacesOf k)) := by
  induction ks generalizing m with
  | nil => cases hk
  | cons j ks ih =>
    have hlt := lt_of_routerOf hx
    have htable : (n.node k).table < m.tables.size := hsize ▸ hn.tables k hlt
    have hsize' : (n.refill db m j).tables.size = n.tables.size :=
      (SameTopology.refill n db m j).tables.trans hsize
    show (n.refillAll db ks (n.refill db m j)).table _ = _
    by_cases hks : k ∈ ks
    · rw [ih hsize' hks]
      by_cases hjk : j = k
      · rw [hjk, table_refill hx htable, renewed_renewed]
      · rw [table_refill_of_ne fun y hy => table_ne_of_ne hn hy hlt hjk]
    · obtain rfl : k = j := (List.mem_cons.1 hk).resolve_right hks
      rw [table_refillAll_of_ne, table_refill hx htable]
      intro i hi y hy
      exact table_ne_of_ne hn hy hlt fun hik => hks (hik ▸ hi)

theorem without_refill (t : TableId) :
    ((n.refill db m k).table t).routes.without .global = (m.table t).routes.without .global := by
  cases hk : n.routerOf k with
  | none => rw [refill_of_none hk]
  | some x =>
    rw [refill_of_some hk, table_setRoutes]
    split
    · next h =>
      rw [h.1]
      exact Routes.without_replace ..
    · rfl

/-- The other entries keep their values and their order. -/
theorem without_refillAll (t : TableId) :
    ((n.refillAll db ks m).table t).routes.without .global =
      (m.table t).routes.without .global := by
  induction ks generalizing m with
  | nil => rfl
  | cons k ks ih => exact ih.trans (without_refill t)

/-- Tables that were refilled once stay as they are when they are refilled again. -/
theorem table_refillAll_refillAll (hn : n.WellFormed) (hsize : m.tables.size = n.tables.size)
    (hsize' : m'.tables.size = n.tables.size)
    (h : ∀ t, m'.table t = (n.refillAll db ks m).table t) (t : TableId) :
    (n.refillAll db ks m').table t = m'.table t := by
  by_cases hex : ∃ k ∈ ks, ∃ x, n.routerOf k = some x ∧ (n.node k).table = t
  · obtain ⟨k, hk, x, hx, rfl⟩ := hex
    rw [table_refillAll hn hsize' hk hx, h, table_refillAll hn hsize hk hx, renewed_renewed]
  · refine table_refillAll_of_ne fun k hk x hx ht => hex ⟨k, hk, x, hx, ht⟩

/-! ### The database -/

def explore (n : Network) (db cur : Database Advertisement) (k : NodeId) : Database Advertisement :=
  (n.routerOf k).elim cur fun x => explored db x.id

/-- The searches of the nodes one after the other. -/
def exploreAll (n : Network) (db : Database Advertisement) (ks : List NodeId)
    (cur : Database Advertisement) : Database Advertisement := ks.foldl (n.explore db) cur

theorem sameRecords_exploreAll {cur : Database Advertisement} (h : SameRecords db cur) :
    SameRecords db (n.exploreAll db ks cur) := by
  induction ks generalizing cur with
  | nil => exact h
  | cons k ks ih =>
    refine ih ?_
    rw [explore]
    cases n.routerOf k with
    | none => exact h
    | some x => exact sameRecords_explored db x.id

/-! ### One node -/

theorem Marks.refill (h : Marks m m') (n : Network) (db : Database Advertisement) (k : NodeId) :
    Marks (n.refill db m k) (n.refill db m' k) := by
  cases hk : n.routerOf k with
  | none => rwa [refill_of_none hk, refill_of_none hk]
  | some x =>
    rw [refill_of_some hk, refill_of_some hk]
    obtain ⟨hs, ha⟩ := h
    exact ⟨hs, ha⟩

theorem completes_replaceRoutes (t : TableId) (source : RouteSource) (new : List (Route Number)) :
    Completes (replaceRoutes t source new) n fun count n' =>
      count = new.length ∧ Logged (n.setRoutes t (·.replace source new)) n' := by
  refine Completes.bind (completes_get ?_)
  refine Completes.bind (completes_modify rfl ?_)
  refine Completes.bind (completes_get ?_)
  exact Completes.bind (completes_log fun j => completes_pure ⟨rfl, j, rfl⟩)

/-- A stop comes when the routes are in the table already. -/
theorem logged_replaceRoutes (n : Network) (t : TableId) (source : RouteSource)
    (new : List (Route Number)) :
    Logged (n.setRoutes t (·.replace source new)) (exec (replaceRoutes t source new) n).2 := by
  have start : exec (replaceRoutes t source new) n = exec (do
      debug ((n.setRoutes t (·.replace source new)).table t).owner "fib:replace"
        s!"{source.code}: {((n.table t).routes.of source).length} removed, {new.length} installed"
      return new.length) (n.setRoutes t (·.replace source new)) := rfl
  rw [start]
  exact exec_bind_post logged_log fun _ _ => id

/-- Where a run stands that is to refill a node: over a topology and a database without marks. -/
structure Refills (n : Network) (d : DatabaseId) (db : Database Advertisement) (m : Network) :
    Prop where
  topology : SameTopology n m
  copies : m.OwnCopies d
  unexplored : m.unexplored d = db

theorem Refills.marks (h : Refills n d db m) (hm : Marks m m') : Refills n d db m' :=
  ⟨h.topology.trans hm.sameTopology, hm.ownCopies h.copies, (hm.unexplored d).trans h.unexplored⟩

theorem Refills.setRoutes (h : Refills n d db m) (t : TableId) (f : Routes → Routes) :
    Refills n d db (m.setRoutes t f) :=
  ⟨h.topology.trans (.setRoutes ..), h.copies.of_eq rfl le_rfl, h.unexplored⟩

theorem Refills.refillAll (h : Refills n d db m) (ks : List NodeId) :
    Refills n d db (n.refillAll db ks m) := by
  induction ks generalizing m with
  | nil => exact h
  | cons k ks ih =>
    refine ih ?_
    cases hk : n.routerOf k with
    | none => rwa [refill_of_none hk]
    | some x =>
      rw [refill_of_some hk]
      exact h.setRoutes _ _

/-- The counts with that of the routes of a node's router added, if it has one. -/
def tallied (n : Network) (db : Database Advertisement) (counts : Installed) (k : NodeId) :
    Installed :=
  (n.routerOf k).elim counts fun x =>
    let count := (routesOver n.environment.names db x.id (n.interfacesOf k)).length
    ⟨counts.tally.record (n.node k).name (.ofNat count), counts.total + count⟩

def talliedAll (n : Network) (db : Database Advertisement) (ks : List NodeId)
    (counts : Installed) : Installed := ks.foldl (n.tallied db) counts

theorem completesOr_installNode (s : SearcherId) (counts : Installed) (k : NodeId)
    (hs : (n.searcher s).database = d) (h : Refills n d db m) :
    CompletesOr (installNode s counts k) m
      (fun counts' m' => counts' = n.tallied db counts k ∧ Marks (n.refill db m k) m' ∧
        m'.snapshot d = n.explore db (m.snapshot d) k)
      fun m' => Marks m m' ∨ Marks (n.refill db m k) m' := by
  refine CompletesOr.bind (Completes.or (completes_get ?_) (.inl (.refl m)))
  have hrouter := h.topology.routerOf k
  cases hx : n.routerOf k with
  | none =>
    rw [hx, Option.map_none, Option.map_eq_none_iff] at hrouter
    rw [hrouter]
    refine Completes.or (completes_pure ?_) (.inl (.refl m))
    rw [tallied, refill, explore, hx]
    exact ⟨rfl, .refl m, rfl⟩
  | some x =>
    rw [hx, Option.map_some, Option.map_eq_some_iff] at hrouter
    obtain ⟨y, hy, hyx⟩ := hrouter
    have hid : y.id = x.id := (Router.blank_eq_iff.1 hyx).2.1
    rw [hy]
    dsimp only
    rw [hid]
    have hd : (m.searcher s).database = d := (h.topology.searcher s).trans hs
    refine CompletesOr.bind (Completes.or ((completes_calculate_exact s x.id).mono ?_)
      (.inl (marks_calculate m s x.id)))
    intro t m₁ h₁
    have hm₁ := h₁.marks
    have hsnap : m₁.snapshot d = explored db x.id := by
      have := h₁.snapshot
      rw [hd, h.unexplored] at this
      exact this h.copies
    refine CompletesOr.bind (Completes.or (completes_get ?_) (.inl hm₁))
    have hsame := h.topology.trans hm₁.sameTopology
    rw [hsame.interfacesOf, hsame.node, hsame.environment]
    have hroutes : t.routes n.environment.names (n.interfacesOf k) =
        .ok (routesOver n.environment.names db x.id (n.interfacesOf k)) := by
      rw [h₁.tree, hd, h.unexplored]
      exact routes_eq_ok ..
    have hfill : Marks (n.refill db m k) (n.refill db m₁ k) := hm₁.refill n db k
    rw [hroutes]
    refine CompletesOr.bind (Completes.or (completes_lift rfl ?_) (.inl (exec_lift _ m₁ ▸ hm₁)))
    -- from here on the routes are in the table
    rw [refill_of_some (m := m₁) hx] at hfill
    have hlogged {m₂ : Network} (h₂ : Logged (m₁.setRoutes (n.node k).table (·.replace .global
        ((routesOver n.environment.names db x.id (n.interfacesOf k)).map (·.map .ofNat)))) m₂) :
        Marks (n.refill db m k) m₂ ∧ m₂.snapshot d = n.explore db (m.snapshot d) k := by
      obtain ⟨j, rfl⟩ := h₂
      refine ⟨hfill.journal j, ?_⟩
      rw [explore, hx, Option.elim_some, ← hsnap]
      rfl
    refine CompletesOr.bind (Completes.or ((completes_replaceRoutes _ _ _).mono ?_)
      (.inr (hlogged (logged_replaceRoutes ..)).1))
    intro count m₂ hcount
    obtain ⟨rfl, h₂⟩ := hcount
    refine CompletesOr.bind (Completes.or (completes_get ?_) (.inr (hlogged h₂).1))
    have hlog {level : Level} {source name message : String} {data : Option Datum} :
        Logged _ (exec (log level source name message data) m₂).2 := h₂.trans logged_log
    refine CompletesOr.bind (Completes.or (completes_log fun j => ?_) (.inr (hlogged hlog).1))
    refine Completes.or (completes_pure ⟨?_, hlogged (h₂.trans ⟨j, rfl⟩)⟩)
      (.inr (hlogged (h₂.trans ⟨j, rfl⟩)).1)
    rw [tallied, hx, Option.elim_some, List.length_map]

/-! ### All nodes of a manager -/

theorem refillAll_append_singleton (n : Network) (db : Database Advertisement) (ks : List NodeId)
    (k : NodeId) (m : Network) :
    n.refillAll db (ks ++ [k]) m = n.refill db (n.refillAll db ks m) k := by
  simp [refillAll]

theorem exploreAll_append_singleton (n : Network) (db cur : Database Advertisement)
    (ks : List NodeId) (k : NodeId) :
    n.exploreAll db (ks ++ [k]) cur = n.explore db (n.exploreAll db ks cur) k := by
  simp [exploreAll]

theorem talliedAll_append_singleton (n : Network) (db : Database Advertisement) (ks : List NodeId)
    (k : NodeId) (counts : Installed) :
    n.talliedAll db (ks ++ [k]) counts = n.tallied db (n.talliedAll db ks counts) k := by
  simp [talliedAll]

/-- A run over all nodes refills every one and counts its routes, or it is stopped with some of them
refilled, up to a point. -/
theorem completesOr_installNodes {n₁ : Network} (s : SearcherId) (counts : Installed)
    (hs : (n.searcher s).database = d) (h : Refills n d db n₁) (ks : List NodeId) :
    CompletesOr (ks.foldlM (installNode s) counts) n₁
      (fun counts' n₂ => counts' = n.talliedAll db ks counts ∧
        Marks (n.refillAll db ks n₁) n₂ ∧ n₂.snapshot d = n.exploreAll db ks (n₁.snapshot d))
      fun n₂ => ∃ done rest, ks = done ++ rest ∧ Marks (n.refillAll db done n₁) n₂ := by
  refine (completesOr_foldlM (fun l now m => ∃ done, ks = done ++ l ∧
      now = n.talliedAll db done counts ∧ Marks (n.refillAll db done n₁) m ∧
        m.snapshot d = n.exploreAll db done (n₁.snapshot d))
    (fun k l now m hinv => ?_) ks counts ⟨[], rfl, rfl, .refl n₁, rfl⟩).mono ?_ fun _ => id
  · obtain ⟨done, hks, hnow, hm, hsnap⟩ := hinv
    have happend : ks = done ++ [k] ++ l := by rw [hks, List.append_assoc, List.singleton_append]
    have hfill (m' : Network) (hm' : Marks (n.refill db m k) m') :
        Marks (n.refillAll db (done ++ [k]) n₁) m' := by
      rw [refillAll_append_singleton]
      exact (hm.refill n db k).trans hm'
    refine (completesOr_installNode s now k hs ((h.refillAll done).marks hm)).mono ?_ ?_
    · intro now' m' h'
      refine ⟨done ++ [k], happend, ?_, hfill m' h'.2.1, ?_⟩
      · rw [h'.1, hnow, talliedAll_append_singleton]
      · rw [h'.2.2, hsnap, exploreAll_append_singleton]
    · intro m' h'
      rcases h' with h' | h'
      · exact ⟨done, k :: l, hks, hm.trans h'⟩
      · exact ⟨done ++ [k], l, happend, hfill m' h'⟩
  · intro now m hinv
    obtain ⟨done, hks, hnow, hm⟩ := hinv
    rw [List.append_nil] at hks
    rw [hks]
    exact ⟨hnow, hm⟩

/-- The store of the manager is told of the counts when all nodes are refilled, and their total is
returned. -/
theorem completesOr_initializeRoutes_tallied {n₁ : Network} {m : ManagerId} (hn : n.WellFormed)
    (hm : m < n.managers.size) (h : Refills n (n.manager m).database db n₁) :
    CompletesOr (initializeRoutes m) n₁
      (fun total n' => ∃ n₂ counts,
        counts = n.talliedAll db (n.byIndex (n.nodesOf m)) ⟨[], 0⟩ ∧ total = counts.total ∧
        Marks (n.refillAll db (n.byIndex (n.nodesOf m)) n₁) n₂ ∧
        n₂.snapshot (n.manager m).database =
          n.exploreAll db (n.byIndex (n.nodesOf m)) (n₁.snapshot (n.manager m).database) ∧
        n' = (exec (act (n.manager m).store (.recordRoutes counts.tally)) n₂).2)
      fun n' => ∃ done rest, n.byIndex (n.nodesOf m) = done ++ rest ∧
        Marks (n.refillAll db done n₁) n' := by
  have start : ∃ done rest, n.byIndex (n.nodesOf m) = done ++ rest ∧
      Marks (n.refillAll db done n₁) n₁ := ⟨[], _, rfl, .refl n₁⟩
  refine CompletesOr.bind (Completes.or (completes_get ?_) start)
  refine CompletesOr.bind (Completes.or (completes_get ?_) start)
  refine CompletesOr.bind (Completes.or (completes_get ?_) start)
  dsimp only
  rw [h.topology.manager, h.topology.nodesOf, h.topology.byIndex]
  refine CompletesOr.bind ((completesOr_installNodes _ _ (hn.searchers m hm).2 h _).mono ?_
    fun _ => id)
  intro counts n₂ h₂
  refine ⟨Completes.bind (completes_modify rfl (completes_pure ?_)), nofun⟩
  exact ⟨n₂, counts, h₂.1, rfl, h₂.2.1, h₂.2.2, rfl⟩

theorem completesOr_initializeRoutes {n₁ : Network} {m : ManagerId} (hn : n.WellFormed)
    (hm : m < n.managers.size) (h : Refills n (n.manager m).database db n₁) :
    CompletesOr (initializeRoutes m) n₁
      (fun _ n' => ∃ n₂ tally, Marks (n.refillAll db (n.byIndex (n.nodesOf m)) n₁) n₂ ∧
        n₂.snapshot (n.manager m).database =
          n.exploreAll db (n.byIndex (n.nodesOf m)) (n₁.snapshot (n.manager m).database) ∧
        n' = (exec (act (n.manager m).store (.recordRoutes tally)) n₂).2)
      fun n' => ∃ done rest, n.byIndex (n.nodesOf m) = done ++ rest ∧
        Marks (n.refillAll db done n₁) n' := by
  refine (completesOr_initializeRoutes_tallied hn hm h).mono ?_ fun _ => id
  rintro _ n' ⟨n₂, counts, -, -, hrest⟩
  exact ⟨n₂, counts.tally, hrest⟩

end Network

end LinkState
