import LinkState.Proofs.Offers

/-! The routes of a tree: one to each destination that its vertices give, at the distance of the
nearest of these vertices, by a first hop from which the rest of the way is a walk. -/

namespace LinkState

/-- A vertex at the distance contributes the destination to the routes of the root. -/
def Contributes (db : Database Advertisement) (root : Address) (x : Address) (k d : Nat) : Prop :=
  ∃ v, (shortestPaths db root).Holds v d ∧ Foreign db root v ∧ Gives db v x k

/-- All links of the root are at addresses of the interfaces. -/
def Local (db : Database Advertisement) (root : Address) (interfaces : List Interface) : Prop :=
  ∀ r, Lists db root r → r.type = .pointToPoint → ∃ i ∈ interfaces, i.address = some r.data

/-- A route to what `v` gives, by the link `out` over the interface `i` to the router `y`, which has
the link `back`, in the subnet of the interface if `y` has one there. From `y` a walk of length `d`
leads to `v`. -/
structure Passes (db : Database Advertisement) (root : Address) (interfaces : List Interface)
    (r : Route Nat) (v : VertexKey) (y : Address) (out back : LinkRecord) (i : Interface)
    (d : Nat) : Prop where
  gives : Gives db v r.network r.mask.length
  foreign : Foreign db root v
  ne : y ≠ root
  lists : Lists db root out ∧ out.leadsTo y
  find : interfaces.find? (·.address = some out.data) = some i
  name : i.name = r.interface
  listsBack : Lists db y back ∧ back.leadsTo root
  nextHop : r.nextHop = some back.data
  subnet : ∀ m, i.mask = some m → ∀ far, Lists db y far → far.leadsTo root →
    far.data.sameSubnet out.data m → back.data.sameSubnet out.data m
  walk : Walk db y v d
  metric : out.metric.value + d = r.metric

theorem Tree.mem_linksTo_iff {db : Database Advertisement} {v : PathVertex} {u id : Address}
    (hv : v.advertisement = db.get? u) {r : LinkRecord} :
    r ∈ Tree.linksTo v id ↔ Lists db u r ∧ r.leadsTo id := by
  simp only [Tree.mem_linksTo, hv, Lists]
  constructor
  · rintro ⟨a, ha, hr, hto⟩
    exact ⟨⟨a, ha, hr⟩, hto⟩
  · rintro ⟨⟨a, ha, hr⟩, hto⟩
    exact ⟨a, ha, hr, hto⟩

namespace Search

variable {db : Database Advertisement} {root : Address} {s : Search} {interfaces : List Interface}
  {rv : PathVertex}

/-- The root and a router next to it list links to each other. -/
theorem Finished.links_of_next (hf : Finished db root s) {y : Nat} {w : PathVertex}
    (hy : s.tree.view y = some w) (hn : 0 ∈ w.parents) (htype : w.type = .router) :
    ∃ r l, Lists db root r ∧ r.leadsTo w.id ∧ r.metric.value = w.distance ∧
      Lists db w.id l ∧ l.leadsTo root := by
  have hl := hf.leads_of_next hy hn
  rw [key_of_router htype] at hl
  exact leads_router_iff.1 hl

/-- A foreign vertex is reached, because the first hop is a router that the root has a link to. -/
theorem Finished.exists_hopTo (hf : Finished db root s) (hr : s.tree.vertices[0]? = some rv)
    (hlocal : Local db root interfaces) {h : Nat} {v : PathVertex} (hv : s.tree.view h = some v)
    (hforeign : Foreign db root v.key) : ∃ hop, HopTo s.tree rv interfaces h hop := by
  have hroot := hf.isRoot (Tree.view_of_getElem? hr)
  obtain ⟨j, hj⟩ := Array.mem_iff_getElem?.1
    ((hf.sound.frontier.settled h).2 ⟨v, hf.settled h v hv⟩)
  have hz : h ≠ 0 := by
    have := (hf.foreign_iff (Tree.view_of_getElem? hr) hv).2 hforeign
    simp at this
    exact this.1
  obtain ⟨y, hy⟩ := hf.exists_firstHop j hj hz
  obtain ⟨w, hw, hn, htype⟩ := hf.firstHop_router hy hv hforeign.not_leads
  obtain ⟨r, l, hrl, hto, hd, hll, hback⟩ := hf.links_of_next hw hn htype
  obtain ⟨cs, hw', -⟩ := Tree.view_eq_some_iff.1 hw
  obtain ⟨i, hi, haddress⟩ := hlocal r hrl (LinkRecord.leadsTo_iff.1 hto).1
  obtain ⟨i', hfind⟩ : ∃ i', interfaces.find? (·.address = some r.data) = some i' := by
    rw [← Option.isSome_iff_exists, List.find?_isSome]
    exact ⟨i, hi, decide_eq_true haddress⟩
  have hexit : (r, i') ∈ Tree.exits rv { w with children := cs } interfaces :=
    Tree.mem_exits.2 ⟨(Tree.mem_linksTo_iff hroot.advertisement).2 ⟨hrl, hto⟩, hd, hfind⟩
  have hg := (hf.sound.arena.genuine y w hw).router htype
  have hfar : l ∈ Tree.linksTo { w with children := cs } rv.id :=
    (Tree.mem_linksTo_iff hg.2.1).2 ⟨hll, hroot.id ▸ hback⟩
  obtain ⟨hop, hhop⟩ := Option.isSome_iff_exists.1 (Tree.isSome_hopTo hexit hfar)
  exact ⟨hop, y, _, hy, hw', hhop⟩

/-- The way by a hop, as the databases describes it. -/
theorem Finished.exists_passes (hf : Finished db root s) (hr : s.tree.vertices[0]? = some rv)
    {h : Nat} {v : PathVertex} (hv : s.tree.vertices[h]? = some v)
    (hforeign : Foreign db root v.key) {hop : Hop} (hh : HopTo s.tree rv interfaces h hop)
    {x : Address} {m : Mask} (hd : (x, m) ∈ Tree.destinations v) :
    ∃ y out back i d, Passes db root interfaces
      ⟨x, m, some hop.address, hop.interface, v.distance⟩ v.key y out back i d := by
  have hroot := hf.isRoot (Tree.view_of_getElem? hr)
  have hview := Tree.view_of_getElem? hv
  have hgives := (gives_iff (hf.sound.arena.genuine h _ hview)).2 ⟨m, hd, rfl⟩
  obtain ⟨y, w, hy, hw, hhop⟩ := hh
  obtain ⟨w', hw', hn, htype⟩ := hf.firstHop_router hy hview hforeign.not_leads
  obtain rfl := Option.some.inj (hw'.symm.trans (Tree.view_of_getElem? hw))
  obtain ⟨d, hwalk, hsum⟩ := hf.walk_of_firstHop hy hview hw' htype
  obtain ⟨r, i, l, hexit, hfar, hdata, hname, hsubnet⟩ := Tree.hopTo_spec hhop
  obtain ⟨hrl, hmetric, hfind⟩ := Tree.mem_exits.1 hexit
  have hg := (hf.sound.arena.genuine y _ hw').router htype
  have hne := hf.ne_root_of_next hw' hn htype
  have back (b : LinkRecord) : b ∈ Tree.linksTo w rv.id ↔ Lists db w.id b ∧ b.leadsTo root :=
    hroot.id ▸ Tree.mem_linksTo_iff hg.2.1
  refine ⟨w.id, r, l, i, d, hgives, hforeign, hne, ?_, hfind, hname, (back l).1 hfar, ?_, ?_,
    hwalk, ?_⟩
  · exact (Tree.mem_linksTo_iff hroot.advertisement).1 hrl
  · rw [hdata]
  · exact fun m hm far hl hto => hsubnet m hm far ((back far).2 ⟨hl, hto⟩)
  · rw [hmetric]
    exact hsum

/-- A destination that is contributed to the routes is offered, if the links of the root are at its
interfaces. -/
theorem Finished.exists_offer (hf : Finished db root s) (hr : s.tree.vertices[0]? = some rv)
    (names : NameOrder) (hlocal : Local db root interfaces) {e : Nat × PathVertex}
    (he : e ∈ s.tree.inOrder) (hforeign : Foreign db root e.2.key) {d : Address × Mask}
    (hd : d ∈ Tree.destinations e.2) :
    ∃ r, Offers names db root s.tree rv interfaces e r ∧ r.network = d.1 ∧ r.mask = d.2 := by
  obtain ⟨hm, hv⟩ := Tree.mem_inOrder.1 he
  obtain ⟨hop, hh⟩ := hf.exists_hopTo hr hlocal (Tree.view_of_getElem? hv) hforeign
  obtain ⟨least, hl⟩ := hf.exists_leastHop names hm hh
  exact ⟨_, ⟨hforeign, least, hl, d, hd, rfl⟩, rfl, rfl⟩

end Search

/-! ### All routes -/

structure RoutesOf (db : Database Advertisement) (root : Address) (interfaces : List Interface)
    (rs : List (Route Nat)) : Prop where
  ascending : Tree.Ascending rs
  whole : ∀ r ∈ rs, r.mask.Whole
  passes : ∀ r ∈ rs, ∃ v y out back i d, Passes db root interfaces r v y out back i d
  least : ∀ r ∈ rs, IsLeast {d | Contributes db root r.network r.mask.length d} r.metric
  complete : ∀ x k d, Contributes db root x k d → ∃ r ∈ rs, r.network = x ∧ r.mask.length = k

/-- The routes of the tree from a root whose links are all at its interfaces. -/
theorem Search.Finished.routes {db : Database Advertisement} {root : Address}
    {interfaces : List Interface} (hf : Finished db root (run db root))
    (hch : Chronicle db (run db root).tree fun _ => True) (names : NameOrder)
    (hlocal : Local db root interfaces) :
    ∃ rs, (shortestPaths db root).routes names interfaces = .ok rs ∧
      RoutesOf db root interfaces rs := by
  obtain ⟨ro, hro, -⟩ := hf.sound.arena.origin
  obtain ⟨cs, hr, -⟩ := Tree.view_eq_some_iff.1 hro.1
  obtain ⟨rs, hrun, hasc, hmem⟩ := hf.routes_iff hch hr names interfaces
  have hgenuine {e : Nat × PathVertex} (he : e ∈ (run db root).tree.inOrder) :
      e.2.bare.Genuine db :=
    hf.sound.arena.genuine e.1 _ (Tree.view_of_getElem? (Tree.mem_inOrder.1 he).2)
  have hgives {e : Nat × PathVertex} (he : e ∈ (run db root).tree.inOrder) {x : Address}
      {k : Nat} : Gives db e.2.key x k ↔ ∃ m, (x, m) ∈ Tree.destinations e.2 ∧ m.length = k :=
    gives_iff (hgenuine he)
  have offered {r : Route Nat} (h : r ∈ rs) : ∃ e ∈ (run db root).tree.inOrder,
      Offers names db root (run db root).tree { ro with children := cs } interfaces e r :=
    ((hmem r).1 h).offers_of_mem
  -- what contributes a destination offers a route to it
  have hoffer {x : Address} {k d : Nat} (hc : Contributes db root x k d) :
      ∃ e ∈ (run db root).tree.inOrder, ∃ r,
        Offers names db root (run db root).tree { ro with children := cs } interfaces e r ∧
          r.key = (x, k) ∧ r.metric = d := by
    obtain ⟨v, ⟨e, he, rfl, rfl⟩, hfor, hg⟩ := hc
    obtain ⟨m, hm, rfl⟩ := (hgives he).1 hg
    obtain ⟨r, hr, rfl, rfl⟩ := hf.exists_offer hr names hlocal he hfor hm
    exact ⟨e, he, r, hr, rfl, hr.metric_eq⟩
  refine ⟨rs, hrun, hasc, ?_, ?_, ?_, ?_⟩
  · intro r h
    obtain ⟨e, he, -, hop, -, d, hd, rfl⟩ := offered h
    exact whole_of_destinations (hgenuine he) hd
  · intro r h
    obtain ⟨e, he, hfor, hop, hh, d, hd, rfl⟩ := offered h
    exact ⟨e.2.key, hf.exists_passes hr (Tree.mem_inOrder.1 he).2 hfor hh.1 hd⟩
  · intro r h
    constructor
    · obtain ⟨e, he, ho⟩ := offered h
      obtain ⟨hfor, hop, -, d, hd, rfl⟩ := id ho
      exact ⟨e.2.key, ⟨e, he, rfl, rfl⟩, hfor, (hgives he).2 ⟨d.2, hd, rfl⟩⟩
    · intro d hc
      obtain ⟨e, he, t, ht, hk, rfl⟩ := hoffer hc
      exact ((hmem r).1 h).metric_le (fun _ _ => Offers.metric_eq) hch.pairwise_inOrder he ht hk
  · intro x k d hc
    obtain ⟨e, he, t, ht, hk, -⟩ := hoffer hc
    obtain ⟨r, hr, hkr⟩ := FirstOffers.exists_key he ht
    obtain ⟨hx, hl⟩ := Prod.mk.injEq .. ▸ hkr.trans hk
    exact ⟨r, (hmem r).2 hr, hx, hl⟩

theorem routes_spec {db : Database Advertisement} {root : Address} {interfaces : List Interface}
    (names : NameOrder) (hlocal : Local db root interfaces) :
    ∃ rs, (shortestPaths db root).routes names interfaces = .ok rs ∧
      RoutesOf db root interfaces rs := by
  by_cases hroot : (db.get? root).isSome
  · exact (Search.run_finished hroot).routes (Search.run_chronicle hroot) names hlocal
  · rw [Option.not_isSome_iff_eq_none] at hroot
    have hempty : shortestPaths db root = .empty := Search.run_noRoot hroot
    refine ⟨[], by rw [hempty]; rfl, List.Pairwise.nil, nofun, nofun, nofun, ?_⟩
    rintro x k d ⟨v, ⟨e, he, -⟩, -⟩
    rw [hempty] at he
    cases he

/-- Every tree of shortest paths gives routes. -/
theorem exists_routes (db : Database Advertisement) (root : Address) (names : NameOrder)
    (interfaces : List Interface) :
    ∃ rs, (shortestPaths db root).routes names interfaces = .ok rs := by
  by_cases hroot : (db.get? root).isSome
  · have hf := Search.run_finished hroot
    obtain ⟨ro, hro, -⟩ := hf.sound.arena.origin
    obtain ⟨cs, hr, -⟩ := Tree.view_eq_some_iff.1 hro.1
    obtain ⟨rs, hrs, -⟩ := hf.routes_iff (Search.run_chronicle hroot) hr names interfaces
    exact ⟨rs, hrs⟩
  · rw [shortestPaths, Search.run_noRoot (Option.not_isSome_iff_eq_none.1 hroot)]
    exact ⟨[], rfl⟩

/-! What the routes of a root are depends on the records alone. -/

namespace SameRecords

variable {db db' : Database Advertisement} {root : Address}

theorem gives_iff (h : SameRecords db db') {v : VertexKey} {x : Address} {k : Nat} :
    Gives db v x k ↔ Gives db' v x k := by
  cases v <;> simp only [Gives, h.lists_iff]

theorem foreign_iff (h : SameRecords db db') {v : VertexKey} :
    Foreign db root v ↔ Foreign db' root v := by
  cases v <;> simp only [Foreign, h.leads_iff]

theorem contributes_iff (h : SameRecords db db') {x : Address} {k d : Nat} :
    Contributes db root x k d ↔ Contributes db' root x k d := by
  simp only [Contributes, h.holds_iff, h.foreign_iff, h.gives_iff]

theorem routesOf (h : SameRecords db db') {interfaces : List Interface} {rs : List (Route Nat)}
    (hr : RoutesOf db root interfaces rs) : RoutesOf db' root interfaces rs := by
  refine ⟨hr.ascending, hr.whole, fun r hm => ?_, fun r hm => ?_, fun x k d hc => ?_⟩
  · obtain ⟨v, y, out, back, i, d, hp⟩ := hr.passes r hm
    exact ⟨v, y, out, back, i, d, h.gives_iff.1 hp.gives, h.foreign_iff.1 hp.foreign,
      hp.ne, hp.lists.imp_left h.lists, hp.find, hp.name, hp.listsBack.imp_left h.lists, hp.nextHop,
      fun m hm far hl => hp.subnet m hm far (h.symm.lists hl), h.walk hp.walk, hp.metric⟩
  · simpa only [h.contributes_iff] using hr.least r hm
  · exact hr.complete x k d (h.contributes_iff.2 hc)

end SameRecords

end LinkState
