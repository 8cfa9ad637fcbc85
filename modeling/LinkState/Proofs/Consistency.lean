import LinkState.Proofs.Population

/-! The routes of different routers agree. The next hop of a route either advertises the destination
itself or has a route to it, shorter by just the link between the two: the rest of a shortest path
is a shortest path, and whatever the next hop reaches, the router reaches through it. -/

namespace LinkState

/-- A router advertises a destination: an address that it has a link at, or a stub network. -/
def Advertises (db : Database Advertisement) (u x : Address) (l : Nat) : Prop :=
  Gives db (.router u) x l ∨ ∃ w, Leads db u (.network x l) w

/-- The destination is among those that an advertisement has. -/
def Advertisement.Offers (a : Advertisement) (x : Address) (l : Nat) : Prop :=
  (l = 32 ∧ ∃ r ∈ a.records, r.type = .pointToPoint ∧ r.data = x) ∨
    ∃ r ∈ a.records, r.type = .stubNetwork ∧ r.id = x ∧
      ∃ m ∈ (Mask.ofAddress r.data).toOption, m.length = l

instance (a : Advertisement) (x : Address) (l : Nat) : Decidable (a.Offers x l) :=
  inferInstanceAs (Decidable (_ ∨ _))

theorem advertises_iff {db : Database Advertisement} {u x : Address} {l : Nat} :
    Advertises db u x l ↔ ∃ a, db.get? u = some a ∧ a.Offers x l := by
  constructor
  · rintro (⟨hl, r, ⟨a, ha, hr⟩, htype, hx⟩ | ⟨w, h⟩)
    · exact ⟨a, ha, .inl ⟨hl, r, hr, htype, hx⟩⟩
    · cases h with
      | @network a r m own mem type mask =>
        exact ⟨a, own, .inr ⟨r, mem, type, rfl, m, by simp [mask, Except.toOption], rfl⟩⟩
  · rintro ⟨a, ha, ⟨hl, r, hr, htype, hx⟩ | ⟨r, hr, htype, rfl, m, hm, rfl⟩⟩
    · exact .inl ⟨hl, r, ⟨a, ha, hr⟩, htype, hx⟩
    · refine .inr ⟨_, .network ha hr htype ?_⟩
      cases hmask : Mask.ofAddress r.data with
      | ok m' => simpa [hmask, Except.toOption] using hm
      | error e => simp [hmask, Except.toOption] at hm

theorem SameRecords.advertises_iff {db db' : Database Advertisement} (h : SameRecords db db')
    {u x : Address} {l : Nat} : Advertises db u x l ↔ Advertises db' u x l := by
  simp only [Advertises, h.gives_iff, h.leads_iff]

/-- What gives a destination that a router does not advertise is foreign to it. -/
theorem Gives.foreign {db : Database Advertisement} {u x : Address} {v : VertexKey} {l : Nat}
    (hg : Gives db v x l) (hnot : ¬ Advertises db u x l) : Foreign db u v := by
  cases v with
  | router w =>
    rintro rfl
    exact hnot (.inl hg)
  | network y k =>
    obtain ⟨rfl, rfl⟩ := hg
    exact fun w hl => hnot (.inr ⟨w, hl⟩)

theorem Contributes.le_max {db : Database Advertisement} {u x : Address} {l d : Nat}
    (h : Contributes db u x l d) : d ≤ maxMetric := by
  obtain ⟨v, hv, -⟩ := h
  exact (holds_shortestPaths_iff.1 hv).2

/-- A walk of admitted length to what gives a destination. -/
theorem Walk.contributes {db : Database Advertisement} {u x : Address} {v : VertexKey} {l d : Nat}
    (h : Walk db u v d) (hd : d ≤ maxMetric) (hg : Gives db v x l)
    (hnot : ¬ Advertises db u x l) : ∃ e ≤ d, Contributes db u x l e := by
  classical
  have hne : {l | Walk db u v l}.Nonempty := ⟨d, h⟩
  obtain ⟨e, he⟩ : ∃ e, IsLeast {l | Walk db u v l} e := ⟨_, hne.isLeast_natFind⟩
  have hle := he.2 h
  exact ⟨e, hle, v, holds_shortestPaths_iff.2 ⟨he, hle.trans hd⟩, hg.foreign hnot, hg⟩

theorem Contributes.exists_isLeast {db : Database Advertisement} {u x : Address} {l d : Nat}
    (h : Contributes db u x l d) : ∃ e ≤ d, IsLeast {d | Contributes db u x l d} e := by
  classical
  have hne : {d | Contributes db u x l d}.Nonempty := ⟨d, h⟩
  exact ⟨_, hne.isLeast_natFind.2 h, hne.isLeast_natFind⟩

namespace Passes

variable {db : Database Advertisement} {root y : Address} {interfaces : List Interface}
  {r : Route Nat} {v : VertexKey} {out back : LinkRecord} {i : Interface} {d : Nat}

theorem leads (h : Passes db root interfaces r v y out back i d) :
    Leads db root (.router y) out.metric.value :=
  leads_router_iff.2 ⟨out, back, h.lists.1, h.lists.2, rfl, h.listsBack.1, h.listsBack.2⟩

/-- What the next hop contributes, the router reaches through it. -/
theorem le_of_contributes (h : Passes db root interfaces r v y out back i d)
    (hleast : IsLeast {d | Contributes db root r.network r.mask.length d} r.metric)
    (hnot : ¬ Advertises db root r.network r.mask.length) {e : Nat}
    (he : Contributes db y r.network r.mask.length e) : r.metric ≤ out.metric.value + e := by
  by_contra hlt
  obtain ⟨v', hv', -, hg⟩ := he
  have hwalk := (holds_shortestPaths_iff.1 hv').1.1
  have hstart : Walk db root (.router root) 0 := .start h.leads.isSome
  have hthrough := (hstart.step h.leads).trans hwalk
  rw [Nat.zero_add] at hthrough
  have hmax := hleast.1.le_max
  obtain ⟨f, hf, hcon⟩ := hthrough.contributes (by omega) hg hnot
  have := hleast.2 hcon
  omega

/-- The next hop advertises the destination or is nearer to it by the link. -/
theorem next (h : Passes db root interfaces r v y out back i d)
    (hleast : IsLeast {d | Contributes db root r.network r.mask.length d} r.metric)
    (hnot : ¬ Advertises db root r.network r.mask.length) :
    Advertises db y r.network r.mask.length ∨
      ∃ e, IsLeast {d | Contributes db y r.network r.mask.length d} e ∧
        out.metric.value + e = r.metric := by
  by_cases hy : Advertises db y r.network r.mask.length
  · exact .inl hy
  · right
    have hmax := hleast.1.le_max
    have hsum := h.metric
    obtain ⟨f, hf, hcon⟩ := h.walk.contributes (by omega) h.gives hy
    obtain ⟨e, he, hmin⟩ := hcon.exists_isLeast
    have := h.le_of_contributes hleast hnot hmin.1
    exact ⟨e, hmin, by omega⟩

end Passes

namespace Network

variable {n n' : Network} {m : ManagerId}

/-! ### Filled tables -/

/-- The nodes of a manager have the routes that its database gives them, and who advertises a link
in it is one of the nodes. -/
structure Filled (n : Network) (m : ManagerId) : Prop where
  names : ∀ k, ((n.interfacesOf k).map Interface.name).Nodup
  ids : n.DistinctIds (n.nodesOf m)
  nodes : ∀ u r, Lists (n.lsdb m) u r → r.type = .pointToPoint →
    ∃ k ∈ n.nodesOf m, ∃ x, n.routerOf k = some x ∧ x.id = u ∧
      ∃ i ∈ n.interfacesOf k, i.address = some r.data
  routes : ∀ k ∈ n.nodesOf m, ∀ x, n.routerOf k = some x →
    ∃ rs, n.globals k = entries rs ∧ RoutesOf (n.lsdb m) x.id (n.interfacesOf k) rs

theorem exists_node_of_lists {ks : List NodeId} (hown : ∀ k, n.OwnRouter k) {u : Address}
    {r : LinkRecord} (h : Lists (n.linkState ks) u r) (htype : r.type = .pointToPoint) :
    ∃ k ∈ ks, ∃ x, n.routerOf k = some x ∧ x.id = u ∧
      ∃ i ∈ n.interfacesOf k, i.address = some r.data := by
  obtain ⟨k, hk, x, hx, hid, i, hi, hs⟩ := sighting_of_lists hown h htype
  exact ⟨k, hk, x, hx, hid, n.interface i, List.mem_map_of_mem hi, address_of_sighting hs htype⟩

theorem completes_populate_filled (hn : n.Reachable) (hm : m < n.managers.size)
    (ha : n.Admissible m) :
    Completes (populate m) n fun _ n' => SameTopology n n' ∧ n'.Filled m := by
  refine (completes_populate hn.wellFormed hm ha).mono ?_
  rintro report n' ⟨ht, hdb, hrouted⟩
  refine ⟨ht, ?_, ?_, ?_, ?_⟩
  · intro k
    rw [ht.interfacesOf]
    exact hn.wellFormed.names k
  · intro j hj k hk x y hx hy hid
    rw [ht.nodesOf] at hj hk
    obtain ⟨x', hx', hidx⟩ := ht.symm.exists_router hx
    obtain ⟨y', hy', hidy⟩ := ht.symm.exists_router hy
    exact ha.ids j hj k hk x' y' hx' hy' (hidx.trans (hid.trans hidy.symm))
  · intro u r hr htype
    obtain ⟨k, hk, x, hx, hid, hi⟩ :=
      exists_node_of_lists hn.wellFormed.routers (hdb.lists_iff.2 hr) htype
    obtain ⟨y, hy, hidy⟩ := ht.exists_router hx
    refine ⟨k, ?_, y, hy, hidy.trans hid, ?_⟩
    · rw [ht.nodesOf]
      exact mem_byIndex.1 hk
    · rw [ht.interfacesOf]
      exact hi
  · intro k hk x hx
    rw [ht.nodesOf] at hk
    obtain ⟨y, hy, hid⟩ := ht.symm.exists_router hx
    obtain ⟨rs, hrs, hof⟩ := hrouted k hk y hy
    rw [ht.interfacesOf, ← hid]
    exact ⟨rs, hrs, hdb.routesOf hof⟩

/-! ### From hop to hop -/

/-- The entry leaves the node by an interface that the router `x` has a link `out` at, to an address
at which the router `y` has a link back. -/
structure Leaves (n : Network) (db : Database Advertisement) (k : NodeId) (e : TableEntry)
    (x y : Address) (out back : LinkRecord) : Prop where
  ne : y ≠ x
  lists : Lists db x out ∧ out.leadsTo y
  interface : ∃ i, n.interfaceNamed? k e.interface = some i ∧
    (n.interface i).address = some out.data
  listsBack : Lists db y back ∧ back.leadsTo x
  nextHop : e.nextHop = some back.data

/-- Where names are distinct an interface is found by its own. -/
theorem interfaceNamed?_name {k : NodeId} (hnames : ((n.interfacesOf k).map Interface.name).Nodup)
    {i : InterfaceId} (hi : i ∈ (n.node k).interfaces) :
    n.interfaceNamed? k (n.interface i).name = some i := by
  have hsome : (n.interfaceNamed? k (n.interface i).name).isSome := by
    rw [interfaceNamed?, List.find?_isSome]
    exact ⟨i, hi, decide_eq_true rfl⟩
  obtain ⟨j, hj⟩ := Option.isSome_iff_exists.1 hsome
  have hname := List.find?_some hj
  rw [decide_eq_true_eq] at hname
  rw [interfacesOf, List.map_map] at hnames
  rw [hj, List.inj_on_of_nodup_map hnames (List.mem_of_find?_eq_some hj) hi hname]

theorem exists_named {k : NodeId} {a : Address} {x : Interface}
    (hnames : ((n.interfacesOf k).map Interface.name).Nodup)
    (h : (n.interfacesOf k).find? (·.address = some a) = some x) :
    ∃ i, n.interfaceNamed? k x.name = some i ∧ (n.interface i).address = some a := by
  have haddress := List.find?_some h
  rw [decide_eq_true_eq] at haddress
  obtain ⟨i, hi, rfl⟩ := List.mem_map.1 (List.mem_of_find?_eq_some h)
  exact ⟨i, interfaceNamed?_name hnames hi, haddress⟩

def Distance (db : Database Advertisement) (u x : Address) (l d : Nat) : Prop :=
  IsLeast {d | Contributes db u x l d} d

namespace Filled

theorem distance (h : n.Filled m) {k : NodeId} (hk : k ∈ n.nodesOf m) {x : Router}
    (hx : n.routerOf k = some x) {e : TableEntry} (he : e ∈ n.globals k) :
    ∃ d, e.metric = .ofNat d ∧ Distance (n.lsdb m) x.id e.network e.mask.length d := by
  obtain ⟨rs, hrs, hof⟩ := h.routes k hk x hx
  rw [hrs] at he
  exact (exact_entries hof).metric e he

theorem exists_entry (h : n.Filled m) {k : NodeId} (hk : k ∈ n.nodesOf m) {x : Router}
    (hx : n.routerOf k = some x) {a : Address} {l d : Nat} (hd : Distance (n.lsdb m) x.id a l d) :
    ∃ e ∈ n.globals k, e.network = a ∧ e.mask.length = l ∧ e.metric = .ofNat d := by
  obtain ⟨rs, hrs, hof⟩ := h.routes k hk x hx
  obtain ⟨r, hr, rfl, rfl⟩ := hof.complete _ _ _ hd.1
  refine ⟨_, hrs ▸ mem_entries.2 ⟨r, hr, rfl⟩, rfl, rfl, ?_⟩
  exact congrArg Number.ofNat ((hof.least r hr).unique hd)

/-- The next hop of a route to what the router does not advertise. -/
theorem next (h : n.Filled m) {k : NodeId} (hk : k ∈ n.nodesOf m) {x : Router}
    (hx : n.routerOf k = some x) {e : TableEntry} (he : e ∈ n.globals k)
    (hnot : ¬ Advertises (n.lsdb m) x.id e.network e.mask.length) :
    ∃ j ∈ n.nodesOf m, ∃ y, n.routerOf j = some y ∧ ∃ out back,
      n.Leaves (n.lsdb m) k e x.id y.id out back ∧
      (∃ i ∈ n.interfacesOf j, i.address = some back.data) ∧
      (Advertises (n.lsdb m) y.id e.network e.mask.length ∨
        ∃ d, Distance (n.lsdb m) y.id e.network e.mask.length d ∧
          Distance (n.lsdb m) x.id e.network e.mask.length (out.metric.value + d)) := by
  obtain ⟨rs, hrs, hof⟩ := h.routes k hk x hx
  rw [hrs] at he
  obtain ⟨r, hr, rfl⟩ := mem_entries.1 he
  obtain ⟨v, y, out, back, i, d, hp⟩ := hof.passes r hr
  have hleast := hof.least r hr
  obtain ⟨j, hj, z, hz, rfl, howns⟩ := h.nodes y back hp.listsBack.1
    (LinkRecord.leadsTo_iff.1 hp.listsBack.2).1
  refine ⟨j, hj, z, hz, out, back, ⟨hp.ne, hp.lists, ?_, hp.listsBack, hp.nextHop⟩, howns, ?_⟩
  · have hname : r.interface = i.name := hp.name.symm
    show ∃ i, n.interfaceNamed? k r.interface = some i ∧ _
    rw [hname]
    exact exists_named (h.names k) hp.find
  · refine (hp.next hleast hnot).imp_right fun ⟨d', hd', hsum⟩ => ⟨d', hd', ?_⟩
    rw [hsum]
    exact hleast

end Filled

/-! ### Consistency -/

/-- Two entries to one destination, of which the first is longer by `w`. -/
def LongerBy (w : Nat) (e f : TableEntry) : Prop :=
  e.network = f.network ∧ e.mask.length = f.mask.length ∧
    ∃ d, f.metric = .ofNat d ∧ e.metric = .ofNat (w + d)

/-- A route to what a router does not advertise goes to a router that does, or that has a route
shorter by the link. -/
def Consistent (n : Network) (m : ManagerId) : Prop :=
  ∀ k ∈ n.nodesOf m, ∀ x, n.routerOf k = some x → ∀ e ∈ n.globals k,
    ¬ Advertises (n.lsdb m) x.id e.network e.mask.length →
    ∃ j ∈ n.nodesOf m, ∃ y, n.routerOf j = some y ∧ ∃ out back,
      n.Leaves (n.lsdb m) k e x.id y.id out back ∧
      (Advertises (n.lsdb m) y.id e.network e.mask.length ∨
        ∃ f ∈ n.globals j, LongerBy out.metric.value e f)

/-- The routes of the nodes of a manager agree with each other. -/
theorem populate_consistent (hn : n.Reachable) (hm : m < n.managers.size) (ha : n.Admissible m) :
    Completes (populate m) n fun _ n' => n'.Consistent m := by
  refine (completes_populate_filled hn hm ha).mono ?_
  rintro report n' ⟨-, h⟩ k hk x hx e he hnot
  obtain ⟨j, hj, y, hy, out, back, hleaves, -, hnext⟩ := h.next hk hx he hnot
  refine ⟨j, hj, y, hy, out, back, hleaves, hnext.imp_right ?_⟩
  rintro ⟨d, hd, hsum⟩
  obtain ⟨d', hmetric, hd'⟩ := h.distance hk hx he
  obtain ⟨f, hf, hnet, hlen, hfd⟩ := h.exists_entry hj hy hd
  refine ⟨f, hf, hnet.symm, hlen.symm, d, hfd, ?_⟩
  rw [hmetric, hd'.unique hsum]

theorem populate_consistent_pair :
    pair.Admissible 0 ∧ ∃ report, (exec (populate 0) pair).1 = .ok report ∧
      (exec (populate 0) pair).2.Consistent 0 := by
  have ha : pair.Admissible 0 := by decide +kernel
  exact ⟨ha, (populate_consistent (m := 0) reachable_pair (by decide +kernel) ha).of_quiet
    (quiet_of_nil (by decide +kernel))⟩

end Network

end LinkState
