import LinkState.Proofs.Refilling

/-! Filling the tables of nodes. After it each node with a router has, in place of the computed
routes it had, those of its shortest-path tree over the database of all the nodes. -/

namespace LinkState

namespace Network

variable {n n' n₁ : Network} {m : ManagerId}

theorem local_linkState {ks : List NodeId} (hids : n.DistinctIds ks) {k : NodeId} (hk : k ∈ ks)
    (hown : n.OwnRouter k) {x : Router} (hx : n.routerOf k = some x) :
    Local (n.linkState ks) x.id (n.interfacesOf k) := by
  rintro r ⟨a, ha, hr⟩ htype
  rw [hids.get?_linkState hk hx] at ha
  obtain ⟨y, hy, -, hfound, -⟩ := advertised_eq_some ha
  obtain rfl := Option.some.inj (hx.symm.trans hy)
  have hlink := address_of_found hfound hr htype
  rwa [hown.node_eq hx] at hlink

/-- Every link in the database is what the router of one of the nodes sees. -/
theorem sighting_of_lists {ks : List NodeId} (hown : ∀ k, n.OwnRouter k) {u : Address}
    {r : LinkRecord} (h : Lists (n.linkState ks) u r) (htype : r.type = .pointToPoint) :
    ∃ k ∈ ks, ∃ x, n.routerOf k = some x ∧ x.id = u ∧
      ∃ i ∈ (n.node k).interfaces, n.sighting x i = .record r := by
  obtain ⟨a, ha, hr⟩ := h
  obtain ⟨k, hk, hadv, rfl⟩ := get?_linkState ha
  obtain ⟨x, hx, hid, hfound, -⟩ := advertised_eq_some hadv
  obtain ⟨p, hp, hs⟩ := sighting_of_found hfound hr htype
  rw [(hown k).node_eq hx] at hp
  exact ⟨k, hk, x, hx, hid.symm, p, hp, hs⟩

/-- What the router of one of the nodes sees is in the database, if the router is. -/
theorem lists_of_sighting {ks : List NodeId} (hids : n.DistinctIds ks) {k : NodeId} (hk : k ∈ ks)
    (hown : n.OwnRouter k) {x : Router} (hx : n.routerOf k = some x) {i : InterfaceId}
    (hi : i ∈ (n.node k).interfaces) {r : LinkRecord} (hs : n.sighting x i = .record r)
    (hsome : ((n.linkState ks).get? x.id).isSome) : Lists (n.linkState ks) x.id r := by
  obtain ⟨a, ha⟩ := Option.isSome_iff_exists.1 hsome
  refine ⟨a, ha, ?_⟩
  rw [hids.get?_linkState hk hx] at ha
  obtain ⟨y, hy, -, hfound, -⟩ := advertised_eq_some ha
  obtain rfl := Option.some.inj (hx.symm.trans hy)
  rw [← hown.node_eq hx] at hi
  exact mem_of_sighting hfound hi hs

/-! ### Stores -/

def computations (n : Network) (s : StoreId) : Nat := (n.store s).state.computations

theorem store_act (n : Network) (s t : StoreId) (f : RoutingState → RoutingUpdate) :
    (exec (act s f) n).2.store t =
      if t = s ∧ s < n.stores.size then (n.environment.stores.set f (n.store s)).2
      else n.store t :=
  getD_setIfInBounds ..

/-- An action is there at once, in the store that it is on. -/
theorem state_act (hset : n.environment.stores.Merges) (s t : StoreId)
    (f : RoutingState → RoutingUpdate) :
    ((exec (act s f) n).2.store t).state =
      if t = s ∧ s < n.stores.size then (f (n.store s).state).mergeInto (n.store s).state
      else (n.store t).state := by
  rw [store_act]
  split
  · exact hset f (n.store s)
  · rfl

theorem computations_recordBuild (hset : n.environment.stores.Merges) (s t : StoreId)
    (summary : Datum) :
    (exec (act s (.recordBuild summary)) n).2.computations t = n.computations t := by
  rw [computations, state_act hset]
  split
  · next h =>
    rw [h.1]
    rfl
  · rfl

theorem state_recordRoutes (hset : n.environment.stores.Merges) {s : StoreId}
    (hs : s < n.stores.size) (tally : Tally) :
    ((exec (act s (.recordRoutes tally)) n).2.store s).state =
      ⟨(n.store s).state.lastBuild, tally, n.computations s + 1⟩ := by
  rw [state_act hset, if_pos ⟨rfl, hs⟩]
  rfl

theorem computations_congr (h : n'.stores = n.stores) (s : StoreId) :
    n'.computations s = n.computations s := by
  rw [computations, store, h, computations, store]

/-! ### A manager -/

theorem mem_byIndex {k : NodeId} {ks : List NodeId} : k ∈ n.byIndex ks ↔ k ∈ ks :=
  List.mem_mergeSort

/-- The database that a manager builds. -/
def linkStateOf (n : Network) (m : ManagerId) : Database Advertisement :=
  n.linkState (n.byIndex (n.nodesOf m))

def lsdb (n : Network) (m : ManagerId) : Database Advertisement :=
  n.snapshot (n.manager m).database

/-- The nodes of a manager have masks of four whole octets, and routers with distinct IDs. -/
structure Admissible (n : Network) (m : ManagerId) : Prop where
  masks : ∀ k ∈ n.nodesOf m, n.WholeMasks k
  ids : n.DistinctIds (n.nodesOf m)

instance (n : Network) (k : NodeId) : Decidable (n.WholeMasks k) :=
  decidable_of_iff ((∀ i ∈ n.interfacesOf k, ∀ m ∈ i.mask, m.Whole) ∧
    ∀ s ∈ (n.node k).stubs, s.mask.Whole) ⟨fun h => ⟨h.1, h.2⟩, fun h => ⟨h.1, h.2⟩⟩

instance (n : Network) (ks : List NodeId) : Decidable (n.DistinctIds ks) :=
  decidable_of_iff (∀ j ∈ ks, ∀ k ∈ ks, ∀ x ∈ n.routerOf j, ∀ y ∈ n.routerOf k, x.id = y.id → j = k)
    ⟨fun h j hj k hk x y hx hy => h j hj k hk x hx y hy,
      fun h j hj k hk x hx y hy => h j hj k hk x y hx hy⟩

instance (n : Network) (m : ManagerId) : Decidable (n.Admissible m) :=
  decidable_of_iff ((∀ k ∈ n.nodesOf m, n.WholeMasks k) ∧ n.DistinctIds (n.nodesOf m))
    ⟨fun h => ⟨h.1, h.2⟩, fun h => ⟨h.1, h.2⟩⟩

theorem Admissible.ids_byIndex {m : ManagerId} (h : n.Admissible m) :
    n.DistinctIds (n.byIndex (n.nodesOf m)) := fun j hj k hk =>
  h.ids j (mem_byIndex.1 hj) k (mem_byIndex.1 hk)

/-- A database is built without marks. -/
theorem map_unmarked_linkState (n : Network) (ks : List NodeId) :
    (n.linkState ks).map unmarked = n.linkState ks := by
  have key (db : Database Advertisement) (hdb : db.map unmarked = db) :
      (ks.foldl n.absorb db).map unmarked = ks.foldl n.absorb db := by
    induction ks generalizing db with
    | nil => exact hdb
    | cons k ks ih =>
      refine ih _ ?_
      rw [absorb]
      cases hk : n.advertised k with
      | none => exact hdb
      | some a =>
        have ha : unmarked a = a := by
          obtain ⟨hb, -⟩ := Option.filter_eq_some_iff.1 hk
          obtain ⟨x, -, hd⟩ := Option.bind_eq_some_iff.1 hb
          obtain ⟨rs, -, rfl⟩ := Option.map_eq_some_iff.1 hd
          rfl
        rw [Option.elim_some, Database.map_insert, ha, hdb]
  exact key .empty rfl

/-- A manager has its database, and is yet to replace the routes. -/
structure Prepared (n : Network) (m : ManagerId) (n₁ : Network) : Prop where
  topology : SameTopology n n₁
  tables : n₁.tables = n.tables
  copies : n₁.OwnCopies (n.manager m).database
  snapshot : n₁.snapshot (n.manager m).database = n.linkStateOf m
  size : n₁.stores.size = n.stores.size
  computations : n.environment.stores.Merges → ∀ s, n₁.computations s = n.computations s

theorem Prepared.logged (h : Prepared n m n₁) (hl : Logged n₁ n') : Prepared n m n' := by
  obtain ⟨j, rfl⟩ := hl
  exact ⟨h.topology.trans (Logged.sameTopology ⟨j, rfl⟩), h.tables, h.copies.of_eq rfl le_rfl,
    h.snapshot, h.size, h.computations⟩

theorem ends_buildDatabase (hn : n.WellFormed) (hm : m < n.managers.size) :
    Ends (buildDatabase m) n fun res n₁ =>
      res = n.buildReport (n.byIndex (n.nodesOf m)) ∧ ∀ r, res = .ok r → Prepared n m n₁ := by
  refine Completes.bind (completes_get (Completes.bind (completes_get ?_)))
  refine Ends.bind ((ends_build (hn.databases m hm) hn.routers).mono ?_)
  rintro res n₁ - ⟨rfl, hb⟩
  cases hr : n.buildReport (n.byIndex (n.nodesOf m)) with
  | error f => exact ⟨rfl, nofun⟩
  | ok report =>
    obtain ⟨htop, htables, hstores, -, hcopies, hrest⟩ := hb report hr
    have hp : Prepared n m (exec (act (n.manager m).store (.recordBuild report.summary)) n₁).2 := by
      refine ⟨htop.trans ⟨rfl, rfl, rfl, rfl, rfl, rfl, rfl, rfl, rfl, rfl⟩, htables,
        hcopies.of_eq rfl le_rfl, hrest, ?_, fun hset s => ?_⟩
      · show (n₁.stores.setIfInBounds _ _).size = _
        rw [Array.size_setIfInBounds, hstores]
      · rw [computations_recordBuild (htop.environment ▸ hset), computations_congr hstores]
    refine Completes.bind (completes_modify rfl ?_)
    dsimp only
    split
    · exact ends_pure ⟨rfl, fun _ _ => hp⟩
    · exact Completes.bind (completes_log fun j => ends_pure ⟨rfl, fun _ _ => hp.logged ⟨j, rfl⟩⟩)

/-- What filling its nodes leaves of a manager: functions of the layout, and the entries that the
tables had. -/
structure Populated (n : Network) (m : ManagerId) (report : BuildReport) (n₁ : Network) :
    Prop where
  topology : SameTopology n n₁
  report : n.buildReport (n.byIndex (n.nodesOf m)) = .ok report
  lsdb : n₁.lsdb m =
    n.exploreAll (n.linkStateOf m) (n.byIndex (n.nodesOf m)) (n.linkStateOf m)
  tables : n₁.tables = (n.refillAll (n.linkStateOf m) (n.byIndex (n.nodesOf m)) n).tables
  computations : n.environment.stores.Merges → (n.manager m).store < n.stores.size →
    n₁.computations (n.manager m).store = n.computations (n.manager m).store + 1

/-- Whether the nodes are filled depends on the layout alone, but for the subscribers. -/
theorem ends_populate (hn : n.WellFormed) (hm : m < n.managers.size) :
    Ends (populate m) n fun res n' => match res with
      | .ok report => Populated n m report n'
      | .error f => n.buildReport (n.byIndex (n.nodesOf m)) = .error f := by
  refine Ends.bind ((ends_buildDatabase hn hm).mono ?_)
  rintro res n₁ - ⟨rfl, hp⟩
  cases hr : n.buildReport (n.byIndex (n.nodesOf m)) with
  | error f => rfl
  | ok report =>
    obtain ⟨htop, htables, hcopies, hsnap, hsize, hcomp⟩ := hp report hr
    have start : Refills n (n.manager m).database (n.linkStateOf m) n₁ := by
      refine ⟨htop, hcopies, ?_⟩
      rw [unexplored, hsnap, linkStateOf, map_unmarked_linkState]
    dsimp only
    rw [discard_eq_bind, bind_assoc]
    refine Completes.bind
      ((completesOr_initializeRoutes hn hm start).completes.mono ?_)
    rintro _ n' ⟨n₂, tally, h₂, hdb, rfl⟩
    refine Completes.bind (completes_pure (ends_pure ?_))
    have htop₂ := htop.trans
      ((SameTopology.refillAll n (n.linkStateOf m) _ n₁).trans h₂.sameTopology)
    have hstores : n₂.stores = n₁.stores := h₂.stores.trans stores_refillAll
    refine ⟨htop₂.trans ⟨rfl, rfl, rfl, rfl, rfl, rfl, rfl, rfl, rfl, rfl⟩, hr, ?_, ?_,
      fun hset hs => ?_⟩
    · rw [lsdb, show (exec (act (n.manager m).store (.recordRoutes tally)) n₂).2.manager m =
        n.manager m from htop₂.manager m]
      rw [hsnap] at hdb
      exact hdb
    · exact h₂.tables.trans (tables_refillAll htables)
    · rw [computations, state_recordRoutes (htop₂.environment ▸ hset) (by rwa [hstores, hsize]),
        computations_congr hstores, hcomp hset]

/-- Where nothing is to be reported as a fault, nothing but a subscriber keeps the nodes from being
filled. -/
theorem completes_populate_exact {report : BuildReport} (hn : n.WellFormed)
    (hm : m < n.managers.size) (hr : n.buildReport (n.byIndex (n.nodesOf m)) = .ok report) :
    Completes (populate m) n fun report' n' => report' = report ∧ Populated n m report n' := by
  refine (ends_populate hn hm).mono ?_
  rintro (f | report') n' - h
  · cases hr.symm.trans h
  · obtain rfl := Except.ok.inj (hr.symm.trans h.report)
    exact ⟨_, rfl, rfl, h⟩

theorem Populated.globals {report : BuildReport} (h : Populated n m report n₁) (hn : n.WellFormed)
    {k : NodeId} (hk : k ∈ n.nodesOf m) {x : Router} (hx : n.routerOf k = some x) :
    n₁.globals k =
      entries (routesOver n.environment.names (n.linkStateOf m) x.id (n.interfacesOf k)) := by
  rw [Network.globals, h.topology.node, table, h.tables, ← table,
    table_refillAll hn rfl (mem_byIndex.2 hk) hx, globals_renewed]

def Routed (n : Network) (db : Database Advertisement) (k : NodeId) (m : Network) : Prop :=
  ∀ x, n.routerOf k = some x →
    ∃ rs, m.globals k = entries rs ∧ RoutesOf db x.id (n.interfacesOf k) rs

theorem completes_populate {m : ManagerId} (hn : n.WellFormed) (hm : m < n.managers.size)
    (ha : n.Admissible m) :
    Completes (populate m) n fun _ n' => SameTopology n n' ∧
      SameRecords (n.linkStateOf m) (n'.lsdb m) ∧
      ∀ k ∈ n.nodesOf m, n.Routed (n.linkStateOf m) k n' := by
  obtain ⟨report, hr⟩ : ∃ r, n.buildReport (n.byIndex (n.nodesOf m)) = .ok r :=
    exists_buildReport fun k hk => ⟨ha.masks k (mem_byIndex.1 hk), hn.routers k⟩
  refine (completes_populate_exact hn hm hr).mono ?_
  rintro _ n' ⟨-, h⟩
  refine ⟨h.topology, h.lsdb ▸ sameRecords_exploreAll (.refl _), fun k hk x hx => ?_⟩
  have hlocal := local_linkState ha.ids_byIndex (mem_byIndex.2 hk) (hn.routers k) hx
  obtain ⟨rs, hrs, hof⟩ := routes_spec n.environment.names hlocal
  obtain rfl := Except.ok.inj ((routes_eq_ok ..).symm.trans hrs)
  exact ⟨_, h.globals hn hk hx, hof⟩

/-! ### The computed routes -/

/-- The computed routes of a router: one to each destination that a vertex of its tree contributes,
at the distance of the nearest that does. -/
structure ExactRoutes (db : Database Advertisement) (root : Address) (es : Routes) : Prop where
  destinations : ∀ x l, (∃ e ∈ es, e.network = x ∧ e.mask.length = l) ↔
    ∃ d, Contributes db root x l d
  ascending : es.Pairwise fun e f =>
    e.network.toNat < f.network.toNat ∨ e.network = f.network ∧ e.mask.length < f.mask.length
  metric : ∀ e ∈ es, ∃ d, e.metric = .ofNat d ∧
    IsLeast {d | Contributes db root e.network e.mask.length d} d
  whole : ∀ e ∈ es, e.mask.Whole
  noRoot : db.get? root = none → es = []

theorem ExactRoutes.nodup {db : Database Advertisement} {root : Address} {es : Routes}
    (h : ExactRoutes db root es) : (es.map fun e => (e.network, e.mask.length)).Nodup := by
  rw [List.Nodup, List.pairwise_map]
  refine h.ascending.imp fun {e f} hef heq => ?_
  rw [Prod.mk.injEq] at heq
  rw [heq.1, heq.2] at hef
  omega

theorem mem_entries {rs : List (Route Nat)} {e : TableEntry} :
    e ∈ entries rs ↔ ∃ r ∈ rs, (⟨r.map .ofNat, .global⟩ : TableEntry) = e := List.mem_map

theorem exact_entries {db : Database Advertisement} {root : Address}
    {interfaces : List Interface} {rs : List (Route Nat)} (h : RoutesOf db root interfaces rs) :
    ExactRoutes db root (entries rs) := by
  constructor
  · intro x l
    constructor
    · rintro ⟨e, he, rfl, rfl⟩
      obtain ⟨r, hr, rfl⟩ := mem_entries.1 he
      exact ⟨_, (h.least r hr).1⟩
    · rintro ⟨d, hd⟩
      obtain ⟨r, hr, hx, hl⟩ := h.complete x l d hd
      exact ⟨_, mem_entries.2 ⟨r, hr, rfl⟩, hx, hl⟩
  · rw [entries, List.pairwise_map]
    exact h.ascending
  · intro e he
    obtain ⟨r, hr, rfl⟩ := mem_entries.1 he
    exact ⟨r.metric, rfl, h.least r hr⟩
  · intro e he
    obtain ⟨r, hr, rfl⟩ := mem_entries.1 he
    exact h.whole r hr
  · intro hroot
    rw [List.eq_nil_iff_forall_not_mem]
    intro e he
    obtain ⟨r, hr, rfl⟩ := mem_entries.1 he
    obtain ⟨v, hv, -⟩ := (h.least r hr).1
    have hwalk := (holds_shortestPaths_iff.1 hv).1.1.root_isSome
    rw [hroot] at hwalk
    cases hwalk

/-- Every node of a manager gets the exact routes of its router. -/
theorem populate_exactRoutes {m : ManagerId} (hn : n.Reachable) (hm : m < n.managers.size)
    (ha : n.Admissible m) :
    Completes (populate m) n fun _ n' =>
      SameRecords (n.linkStateOf m) (n'.lsdb m) ∧
      ∀ k ∈ n.nodesOf m, ∀ x, n.routerOf k = some x →
        (n.linkStateOf m).get? x.id = n.advertised k ∧
          ExactRoutes (n.linkStateOf m) x.id (n'.globals k) := by
  refine (completes_populate hn.wellFormed hm ha).mono ?_
  rintro report n' ⟨-, hdb, hrouted⟩
  refine ⟨hdb, fun k hk x hx => ⟨ha.ids_byIndex.get?_linkState (mem_byIndex.2 hk) hx, ?_⟩⟩
  obtain ⟨rs, hrs, hof⟩ := hrouted k hk x hx
  rw [hrs]
  exact exact_entries hof

/-! ### A network of two routers -/

def newRouterNode (name : String) : NetworkM NodeId := do
  let k ← newNode name
  newRouter k .empty
  return k

def linkMask : Mask := .ofLength ⟨30, by decide⟩

/-- A link of some cost between new interfaces of two nodes. -/
def newLink (j k : NodeId) (name : String) (x y : Address) (cost : Nat) : NetworkM Unit := do
  let a ← addInterface j name (some x) (some linkMask) .serial
  let b ← addInterface k name (some y) (some linkMask) .serial
  setCost a (some (.ofNat cost))
  setCost b (some (.ofNat cost))
  connect (← newChannel name) a b

theorem Operation.newRouterNode (name : String) : Operation (newRouterNode name) :=
  .bind (.newNode name) fun _ => .bind (.newRouter _ _) fun _ => .pure _

theorem Operation.newLink (j k : NodeId) (name : String) (x y : Address) (cost : Nat) :
    Operation (newLink j k name x y cost) :=
  .bind (.addInterface ..) fun _ => .bind (.addInterface ..) fun _ => .bind (.setCost ..) fun _ =>
    .bind (.setCost ..) fun _ => .bind (.newChannel _) fun _ => .connect ..

def pairSetup : NetworkM ManagerId := do
  let a ← newRouterNode "A"
  let b ← newRouterNode "B"
  newLink a b "ab" ⟨10, 0, 0, 1⟩ ⟨10, 0, 0, 2⟩ 5
  newManager (some [a, b])

theorem Operation.pairSetup : Operation pairSetup :=
  .bind (.newRouterNode _) fun _ => .bind (.newRouterNode _) fun _ =>
    .bind (.newLink ..) fun _ => .newManager _

/-- Two routers with a link between them. -/
def pair : Network := (exec pairSetup .empty).2

theorem reachable_pair : pair.Reachable := .run .empty .pairSetup

theorem populate_exactRoutes_pair :
    pair.Admissible 0 ∧ (∃ report, (exec (populate 0) pair).1 = .ok report) ∧
      ∀ k ∈ pair.nodesOf 0, ∀ x, pair.routerOf k = some x →
        ExactRoutes (pair.linkStateOf 0) x.id ((exec (populate 0) pair).2.globals k) := by
  have ha : pair.Admissible 0 := by decide +kernel
  obtain ⟨report, hok, -, hroutes⟩ :=
    (populate_exactRoutes (m := 0) reachable_pair (by decide +kernel) ha).of_quiet
      (quiet_of_nil (by decide +kernel))
  exact ⟨ha, ⟨report, hok⟩, fun k hk x hx => (hroutes k hk x hx).2⟩

set_option maxRecDepth 10000 in
/-- A router has a route to the far end of its link, and none to the network of the link. -/
example : ((exec (populate 0) pair).2.globals 0).map
    (fun e => (e.network, e.mask.length, e.nextHop)) =
      [(⟨10, 0, 0, 2⟩, 32, some ⟨10, 0, 0, 2⟩)] := by
  cbv

end Network

end LinkState
