import LinkState.Proofs.Population

/-! Filling the tables of nodes has no memory. What it leaves of the database, the report and the
computed routes is a function of the layout; all other entries of the tables stay, and doing it once
more changes nothing but the number of computations. -/

namespace LinkState

namespace Network

variable {n n' n₁ : Network} {m m' : ManagerId} {report : BuildReport}

/-! ### The layout -/

/-- The same interfaces, channels, nodes and routers, what the routers last found apart, and the
same order of names. Tables, databases, managers, stores and subscribers may be others. -/
structure SameLayout (n n' : Network) : Prop where
  names : n'.environment.names = n.environment.names
  interfaces : n'.interfaces = n.interfaces
  channels : n'.channels = n.channels
  nodes : n'.nodes = n.nodes
  registry : n'.registry = n.registry
  routers : n'.routers.map Router.blank = n.routers.map Router.blank

theorem SameTopology.sameLayout (h : SameTopology n n') : SameLayout n n' :=
  ⟨congrArg Environment.names h.environment, h.interfaces, h.channels, h.nodes, h.registry,
    h.routers⟩

namespace SameLayout

/-- With the managers and tables of the one network, the other has the topology of the one. -/
theorem sameTopology (h : SameLayout n n') :
    SameTopology n { n' with
      environment := n.environment, managers := n.managers, searchers := n.searchers,
      tables := n.tables, databases := n.databases } :=
  ⟨rfl, h.interfaces, h.channels, h.nodes, h.registry, h.routers, rfl, rfl, rfl, rfl⟩

theorem node (h : SameLayout n n') (k : NodeId) : n'.node k = n.node k := h.sameTopology.node k

theorem exists_router (h : SameLayout n n') {k : NodeId} {x : Router} (hx : n.routerOf k = some x) :
    ∃ y, n'.routerOf k = some y ∧ y.id = x.id := h.sameTopology.exists_router hx

theorem routerOf_eq_none (h : SameLayout n n') {k : NodeId} (hx : n.routerOf k = none) :
    n'.routerOf k = none := by
  have hk : (n'.routerOf k).map Router.blank = (n.routerOf k).map Router.blank :=
    h.sameTopology.routerOf k
  rwa [hx, Option.map_none, Option.map_eq_none_iff] at hk

theorem interfacesOf (h : SameLayout n n') (k : NodeId) : n'.interfacesOf k = n.interfacesOf k :=
  h.sameTopology.interfacesOf k

theorem byIndex (h : SameLayout n n') (ks : List NodeId) : n'.byIndex ks = n.byIndex ks :=
  h.sameTopology.byIndex ks

theorem linkState (h : SameLayout n n') (ks : List NodeId) : n'.linkState ks = n.linkState ks := by
  have hadv (k : NodeId) : n'.advertised k = n.advertised k := h.sameTopology.advertised k
  have habsorb : n'.absorb = n.absorb := by
    funext db k
    rw [absorb, hadv, absorb]
  rw [Network.linkState, habsorb, Network.linkState]

theorem buildReport (h : SameLayout n n') (ks : List NodeId) :
    n'.buildReport ks = n.buildReport ks := by
  have hreported : n'.reported = n.reported := h.sameTopology.reported
  rw [Network.buildReport, hreported, Network.buildReport]

theorem refill (h : SameLayout n n') : n'.refill = n.refill := by
  funext db m k
  cases hx : n.routerOf k with
  | none => rw [refill_of_none hx, refill_of_none (h.routerOf_eq_none hx)]
  | some x =>
    obtain ⟨y, hy, hid⟩ := h.exists_router hx
    rw [refill_of_some hx, refill_of_some hy, hid, h.interfacesOf, h.node, h.names]

theorem refillAll (h : SameLayout n n') : n'.refillAll = n.refillAll := by
  funext db ks m
  rw [Network.refillAll, h.refill, Network.refillAll]

theorem exploreAll (h : SameLayout n n') : n'.exploreAll = n.exploreAll := by
  have hexplore : n'.explore = n.explore := by
    funext db cur k
    rw [explore, explore]
    cases hx : n.routerOf k with
    | none => rw [h.routerOf_eq_none hx, Option.elim_none]
    | some x =>
      obtain ⟨y, hy, hid⟩ := h.exists_router hx
      rw [hy, Option.elim_some, Option.elim_some, hid]
  funext db ks cur
  rw [Network.exploreAll, hexplore, Network.exploreAll]

/-- The database that a manager builds is that of its nodes. -/
theorem linkStateOf (h : SameLayout n n') (hks : n'.nodesOf m' = n.nodesOf m) :
    n'.linkStateOf m' = n.linkStateOf m := by
  rw [Network.linkStateOf, hks, h.byIndex, h.linkState, Network.linkStateOf]

end SameLayout

/-! ### Filling again -/

theorem Populated.without (h : Populated n m report n₁) (t : TableId) :
    (n₁.table t).routes.without .global = (n.table t).routes.without .global := by
  rw [table, h.tables, ← table, without_refillAll]

theorem Populated.table_of_none (h : Populated n m report n₁) (hn : n.WellFormed) {k : NodeId}
    (hk : k < n.nodes.size) (hnone : n.routerOf k = none) :
    n₁.table (n.node k).table = n.table (n.node k).table := by
  rw [table, h.tables, ← table, table_refillAll_of_not hn hk fun _ => hnone]

/-- The tables of a network are the tables that it has one by one. -/
theorem tables_eq_of_table {a b : Network} (hsize : a.tables.size = b.tables.size)
    (h : ∀ t, a.table t = b.table t) : a.tables = b.tables := by
  refine Array.ext hsize fun t ha hb => ?_
  have ht := h t
  rwa [table, table, Array.getD_eq_getD_getElem?, Array.getD_eq_getD_getElem?,
    Array.getElem?_eq_getElem ha, Array.getElem?_eq_getElem hb, Option.getD_some,
    Option.getD_some] at ht

structure SameOutcome (n : Network) (m : ManagerId) (report : BuildReport) (n₁ : Network)
    (m' : ManagerId) (report' : BuildReport) (n₁' : Network) : Prop where
  report : report' = report
  lsdb : n₁'.lsdb m' = n₁.lsdb m
  globals : ∀ k ∈ n.nodesOf m, ∀ x, n.routerOf k = some x → n₁'.globals k = n₁.globals k

theorem Populated.sameOutcome {report' : BuildReport} {n₁' : Network} (hn : n.Reachable)
    (hn' : n'.Reachable) (hl : SameLayout n n') (hks : n'.nodesOf m' = n.nodesOf m)
    (h : Populated n m report n₁) (h' : Populated n' m' report' n₁') :
    SameOutcome n m report n₁ m' report' n₁' := by
  refine ⟨?_, ?_, fun k hk x hx => ?_⟩
  · have hr := h'.report
    rw [hks, hl.byIndex, hl.buildReport] at hr
    exact Except.ok.inj (hr.symm.trans h.report)
  · rw [h'.lsdb, h.lsdb, hl.linkStateOf hks, hks, hl.byIndex, hl.exploreAll]
  · obtain ⟨y, hy, hid⟩ := hl.exists_router hx
    rw [h'.globals hn'.wellFormed (hks ▸ hk) hy, h.globals hn.wellFormed hk hx,
      hl.linkStateOf hks, hl.interfacesOf, hl.names, hid]

/-- Nodes that were filled are filled with what they have. -/
theorem Populated.tables_eq {report' : BuildReport} {n₂ : Network} (hn : n.WellFormed)
    (h : Populated n m report n₁) (h' : Populated n₁ m report' n₂) : n₂.tables = n₁.tables := by
  have hl := h.topology.sameLayout
  have hks := h.topology.nodesOf m
  rw [h'.tables, hl.linkStateOf hks, hks, hl.byIndex, hl.refillAll]
  have hsize : n₁.tables.size = n.tables.size := h.topology.tables
  refine tables_eq_of_table (SameTopology.refillAll ..).tables fun t => ?_
  refine table_refillAll_refillAll (m := n) hn rfl hsize (fun t => ?_) t
  rw [table, h.tables, ← table]

/-- Filling the nodes of a manager has no memory: with the same layout and nodes it comes to the
same, whatever tables, databases, marks and stores there were. It leaves all entries alone that were
not computed, and changes nothing but the number of computations when it is done again. -/
theorem populate_historyFree (hn : n.Reachable) (hn' : n'.Reachable) (hm : m < n.managers.size)
    (hm' : m' < n'.managers.size) (hl : SameLayout n n') (hks : n'.nodesOf m' = n.nodesOf m)
    (hset : n.environment.stores.Merges) (hrun : exec (populate m) n = (.ok report, n₁)) :
    Completes (populate m') n' (fun report' n₁' => SameOutcome n m report n₁ m' report' n₁') ∧
      (∀ t, (n₁.table t).routes.without .global = (n.table t).routes.without .global) ∧
      (∀ k < n.nodes.size, n.routerOf k = none →
        n₁.table (n.node k).table = n.table (n.node k).table) ∧
      Completes (populate m) n₁ fun report₂ n₂ =>
        report₂ = report ∧ n₂.tables = n₁.tables ∧ n₂.lsdb m = n₁.lsdb m ∧
          n₂.computations (n.manager m).store = n₁.computations (n.manager m).store + 1 := by
  have h : Populated n m report n₁ := by
    have hpost := (ends_populate hn.wellFormed hm).of_ok (congrArg Prod.fst hrun)
    rwa [hrun] at hpost
  have hn₁ : n₁.Reachable := by
    have hreach := hn.run (.populate m)
    rwa [hrun] at hreach
  -- a run over the same layout and nodes
  have again {n' : Network} {m' : ManagerId} (hn' : n'.Reachable) (hm' : m' < n'.managers.size)
      (hl : SameLayout n n') (hks : n'.nodesOf m' = n.nodesOf m) :
      Completes (populate m') n' fun report' n₁' =>
        SameOutcome n m report n₁ m' report' n₁' ∧ Populated n' m' report' n₁' := by
    have hr : n'.buildReport (n'.byIndex (n'.nodesOf m')) = .ok report := by
      rw [hks, hl.byIndex, hl.buildReport, h.report]
    refine (completes_populate_exact hn'.wellFormed hm' hr).mono ?_
    rintro report' n₁' ⟨rfl, h'⟩
    exact ⟨h.sameOutcome hn hn' hl hks h', h'⟩
  refine ⟨(again hn' hm' hl hks).mono fun _ _ h' => h'.1, h.without,
    fun k hk hnone => h.table_of_none hn.wellFormed hk hnone, ?_⟩
  have hm₁ : m < n₁.managers.size := by rwa [h.topology.managers]
  refine (again hn₁ hm₁ h.topology.sameLayout (h.topology.nodesOf m)).mono ?_
  rintro report₂ n₂ ⟨hout, h₂⟩
  refine ⟨hout.report, h.tables_eq hn.wellFormed h₂, hout.lsdb, ?_⟩
  have hstore := hn₁.furnished.stores m hm₁
  rw [← h.topology.manager m]
  exact h₂.computations (h.topology.environment ▸ hset) hstore

def stalePair : Network := (exec (do
  install 0 ⟨⟨9, 9, 9, 9⟩, ⟨9, 9, 9, 9⟩, .inTree, []⟩
  modifyRoutes 0 (·.replace .global
    [⟨⟨10, 9, 9, 8⟩, linkMask, none, "none", .ofNat 1⟩])) pair).2

theorem reachable_stalePair : stalePair.Reachable :=
  reachable_pair.run <| .bind (.install ..) fun _ => .modifyRoutes ..

theorem populate_historyFree_stalePair :
    SameLayout pair stalePair ∧ stalePair.globals 0 ≠ pair.globals 0 ∧
      ∃ report n₁, exec (populate 0) pair = (.ok report, n₁) ∧
        ∃ report', (exec (populate 0) stalePair).1 = .ok report' ∧
          SameOutcome pair 0 report n₁ 0 report' (exec (populate 0) stalePair).2 := by
  have hl : SameLayout pair stalePair := ⟨rfl, rfl, rfl, rfl, rfl, rfl⟩
  have hm : 0 < pair.managers.size := by decide +kernel
  have hm' : 0 < stalePair.managers.size := by decide +kernel
  have ha : pair.Admissible 0 := by decide +kernel
  have hset : pair.environment.stores.Merges := by
    rw [pair]
    exact Operation.pairSetup.merges
  obtain ⟨report, hok, -⟩ :=
    (completes_populate reachable_pair.wellFormed hm ha).of_quiet (quiet_of_nil (by decide +kernel))
  have hrun : exec (populate 0) pair = (.ok report, (exec (populate 0) pair).2) :=
    Prod.ext hok rfl
  obtain ⟨hsame, -⟩ :=
    populate_historyFree reachable_pair reachable_stalePair hm hm' hl rfl hset hrun
  exact ⟨hl, by decide +kernel, report, _, hrun, hsame.of_quiet (quiet_of_nil (by decide +kernel))⟩

end Network

end LinkState
