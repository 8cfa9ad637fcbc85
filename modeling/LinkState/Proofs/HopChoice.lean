import LinkState.Proofs.Routes
import LinkState.Proofs.TreeShape

/-! By which hop a route leaves. The first vertex in the tree order decides that gives the
destination, is foreign to the root and is reached by some hop. Of the hops to the routers next to
the root from which that vertex is reached over parents, the route takes the least. -/

namespace LinkState

/-- A lower address, or the same and an interface whose name does not come later. -/
def Hop.AtMost (names : NameOrder) (a b : Hop) : Prop :=
  a.address.toNat < b.address.toNat ∨
    a.address = b.address ∧ (names.compare a.interface b.interface).isLE

theorem Hop.isLE_compare_iff {names : NameOrder} {a b : Hop} :
    (a.compare names b).isLE ↔ a.AtMost names b := by
  rw [Hop.compare, Ordering.isLE_then_iff_or, Address.compare, compare_lt_iff_lt, compare_eq_iff_eq,
    Address.toNat_inj, AtMost]

namespace Tree

def ParentOf (t : PathTree) (p h : Nat) : Prop := ∃ v, t.vertices[h]? = some v ∧ p ∈ v.parents

/-- The vertex `w` at the handle `y` is next to the root, which has the hop to it, and from it the
vertex at `h` is reached over parents. -/
structure Via (t : PathTree) (interfaces : List Interface) (h y : Nat) (w : PathVertex)
    (hop : Hop) : Prop where
  vertex : t.vertices[y]? = some w
  next : 0 ∈ w.parents
  reaches : Relation.ReflTransGen t.ParentOf y h
  resolved : ∃ rv, t.root? = some rv ∧ hopTo rv w interfaces = some hop

/-- The vertex at `h` gives the destination, is foreign to the root and is reached by some hop. No
hop leads to the root itself. -/
structure Serves (db : Database Advertisement) (root : Address) (t : PathTree)
    (interfaces : List Interface) (k : Address × Nat) (h : Nat) (v : PathVertex) : Prop where
  gives : Gives db v.key k.1 k.2
  foreign : Foreign db root v.key
  via : ∃ y w hop, t.Via interfaces h y w hop

@[mk_iff]
structure Decides (db : Database Advertisement) (root : Address) (t : PathTree)
    (interfaces : List Interface) (k : Address × Nat) (a h : Nat) (v : PathVertex) : Prop where
  place : t.At a h v
  serves : t.Serves db root interfaces k h v
  first : ∀ b < a, ∀ i u, t.At b i u → ¬ t.Serves db root interfaces k i u

/-- The hop is to an address at which `w` has a link to the root, by an interface at which the root
has a shortest link to `w`. -/
structure Spans (db : Database Advertisement) (root : Address) (interfaces : List Interface)
    (w : PathVertex) (hop : Hop) : Prop where
  router : w.type = .router
  far : ∃ l, Lists db w.id l ∧ l.leadsTo root ∧ l.data = hop.address
  near : ∃ l, Lists db root l ∧ l.leadsTo w.id ∧ l.metric.value = w.distance ∧
    ∃ i ∈ interfaces, i.address = some l.data ∧ i.name = hop.interface

@[mk_iff]
structure Takes (names : NameOrder) (db : Database Advertisement) (root : Address) (t : PathTree)
    (interfaces : List Interface) (h : Nat) (v : PathVertex) (r : Route Nat) : Prop where
  whole : r.mask.Whole
  metric : r.metric = v.distance
  hop : ∃ hop y w, t.Via interfaces h y w hop ∧ Spans db root interfaces w hop ∧
    r.nextHop = some hop.address ∧ r.interface = hop.interface ∧
    ∀ y w other, t.Via interfaces h y w other → hop.AtMost names other

end Tree

namespace Search

/-- A first offer is at the first place where there is one to its destination. -/
theorem FirstOffers.iff_getElem? {offers : Nat × PathVertex → Route Nat → Prop}
    {es : List (Nat × PathVertex)} {r : Route Nat} : FirstOffers offers es r ↔
      ∃ (a : Nat) (e : Nat × PathVertex), es[a]? = some e ∧ offers e r ∧
        ∀ b < a, ∀ f, es[b]? = some f → ∀ t, offers f t → t.key ≠ r.key := by
  induction es with
  | nil => exact iff_of_false nofun nofun
  | cons x es ih =>
    rw [FirstOffers.cons_iff, ih]
    constructor
    · rintro (hx | ⟨hno, a, e, he, hr, hfirst⟩)
      · exact ⟨0, x, rfl, hx, nofun⟩
      · refine ⟨a + 1, e, he, hr, fun b hb f hf => ?_⟩
        cases b with
        | zero =>
          obtain rfl := Option.some.inj hf
          exact hno
        | succ b => exact hfirst b (by omega) f hf
    · rintro ⟨a, e, he, hr, hfirst⟩
      cases a with
      | zero =>
        obtain rfl := Option.some.inj he
        exact .inl hr
      | succ a =>
        refine .inr ⟨hfirst 0 (Nat.succ_pos a) x rfl, a, e, he, hr, fun b hb f hf => ?_⟩
        exact hfirst (b + 1) (by omega) f hf

variable {db : Database Advertisement} {root : Address} {s : Search} {names : NameOrder}
  {interfaces : List Interface} {rv v : PathVertex} {a h y : Nat} {hop : Hop}

theorem parentOf_of_view {t : PathTree} (hv : t.view h = some v) {p : Nat} (hp : p ∈ v.parents) :
    t.ParentOf p h := by
  obtain ⟨cs, hw, -⟩ := Tree.view_eq_some_iff.1 hv
  exact ⟨_, hw, hp⟩

theorem Finished.not_parentOf_root (hf : Finished db root s) {p : Nat} :
    ¬ s.tree.ParentOf p 0 := by
  rintro ⟨v, hv, hp⟩
  obtain ⟨r, hr, -, -, hnil⟩ := hf.sound.arena.origin
  obtain rfl := Option.some.inj ((Tree.view_of_getElem? hv).symm.trans hr.1)
  rw [show v.parents = [] from hnil] at hp
  cases hp

/-- The first hops of a vertex are what is next to the root among the vertices from which it is
reached over parents. -/
theorem Finished.firstHop_iff (hf : Finished db root s) :
    FirstHop s.tree.view h y ↔
      s.tree.ParentOf 0 y ∧ Relation.ReflTransGen s.tree.ParentOf y h := by
  constructor
  · intro hy
    induction hy with
    | here hv mem => exact ⟨parentOf_of_view hv mem, .refl⟩
    | up hv mem _ _ ih => exact ⟨ih.1, ih.2.tail (parentOf_of_view hv mem)⟩
  · rintro ⟨hnext, hreach⟩
    induction hreach with
    | refl =>
      obtain ⟨v, hv, hp⟩ := hnext
      exact .here (Tree.view_of_getElem? hv) hp
    | tail _ hp ih =>
      obtain ⟨v, hv, hp⟩ := hp
      refine .up (Tree.view_of_getElem? hv) hp ?_ ih
      -- no way back leads on from the root
      rintro rfl
      cases ih with
      | here hw mem => exact hf.not_parentOf_root (parentOf_of_view hw mem)
      | up hw mem => exact hf.not_parentOf_root (parentOf_of_view hw mem)

theorem Finished.hopTo_iff (hf : Finished db root s) (hr : s.tree.vertices[0]? = some rv) :
    HopTo s.tree rv interfaces h hop ↔ ∃ y w, s.tree.Via interfaces h y w hop := by
  constructor
  · rintro ⟨y, w, hy, hw, hh⟩
    obtain ⟨⟨w', hw', hnext⟩, hreach⟩ := hf.firstHop_iff.1 hy
    obtain rfl := Option.some.inj (hw.symm.trans hw')
    exact ⟨y, w, hw, hnext, hreach, rv, hr, hh⟩
  · rintro ⟨y, w, hw, hnext, hreach, rv', hr', hh⟩
    obtain rfl := Option.some.inj (hr.symm.trans hr')
    exact ⟨y, w, hf.firstHop_iff.2 ⟨⟨w, hw, hnext⟩, hreach⟩, hw, hh⟩

theorem Finished.leastHop_iff (hf : Finished db root s) (hr : s.tree.vertices[0]? = some rv) :
    LeastHop names s.tree rv interfaces h hop ↔ (∃ y w, s.tree.Via interfaces h y w hop) ∧
      ∀ y w other, s.tree.Via interfaces h y w other → hop.AtMost names other := by
  rw [LeastHop, hf.hopTo_iff hr]
  refine and_congr_right fun _ => ?_
  constructor
  · intro hle y w other ho
    exact Hop.isLE_compare_iff.1 (hle other ((hf.hopTo_iff hr).2 ⟨y, w, ho⟩))
  · intro hle other ho
    obtain ⟨y, w, ho⟩ := (hf.hopTo_iff hr).1 ho
    exact Hop.isLE_compare_iff.2 (hle y w other ho)

/-- A vertex serves a destination if it offers a route to it. -/
theorem Finished.serves_iff (hf : Finished db root s) (hr : s.tree.vertices[0]? = some rv)
    (hv : s.tree.At a h v) {k : Address × Nat} :
    s.tree.Serves db root interfaces k h v ↔
      ∃ t, Offers names db root s.tree rv interfaces (h, v) t ∧ t.key = k := by
  obtain ⟨hh, hvert⟩ := (Tree.at_iff hf.order_lt).1 hv
  have hgives {x : Address} {l : Nat} : Gives db v.key x l ↔ _ :=
    gives_iff (hf.sound.arena.genuine h _ (Tree.view_of_getElem? hvert))
  constructor
  · rintro ⟨hg, hfor, y, w, hop, hvia⟩
    obtain ⟨m, hd, hm⟩ := hgives.1 hg
    obtain ⟨least, hl⟩ := hf.exists_leastHop names (Array.mem_of_getElem? hh)
      ((hf.hopTo_iff hr).2 ⟨y, w, hvia⟩)
    exact ⟨_, ⟨hfor, least, hl, _, hd, rfl⟩, Prod.ext rfl hm⟩
  · rintro ⟨t, ⟨hfor, hop, hl, d, hd, rfl⟩, rfl⟩
    obtain ⟨y, w, hvia⟩ := (hf.hopTo_iff hr).1 hl.1
    exact ⟨hgives.2 ⟨d.2, hd, rfl⟩, hfor, y, w, hop, hvia⟩

/-- The hop to a vertex that is foreign to the root spans a link between the root and a router. -/
theorem Finished.spans (hf : Finished db root s) {w : PathVertex} (hv : s.tree.At a h v)
    (hfor : Foreign db root v.key) (hvia : s.tree.Via interfaces h y w hop) :
    Tree.Spans db root interfaces w hop := by
  obtain ⟨hw, hnext, hreach, rv, hr, hhop⟩ := hvia
  have hvert := ((Tree.at_iff hf.order_lt).1 hv).2
  have hroot := hf.isRoot (Tree.view_of_getElem? hr)
  obtain ⟨w', hw', -, htype⟩ := hf.firstHop_router (hf.firstHop_iff.2 ⟨⟨w, hw, hnext⟩, hreach⟩)
    (Tree.view_of_getElem? hvert) hfor.not_leads
  obtain rfl := Option.some.inj (hw'.symm.trans (Tree.view_of_getElem? hw))
  have hg := (hf.sound.arena.genuine y _ hw').router htype
  obtain ⟨r, i, l, hexit, hfar, hdata, hname, -⟩ := Tree.hopTo_spec hhop
  obtain ⟨hrl, hmetric, hfind⟩ := Tree.mem_exits.1 hexit
  obtain ⟨hlists, hto⟩ := (Tree.mem_linksTo_iff hroot.advertisement).1 hrl
  obtain ⟨hlistsBack, hback⟩ := (Tree.mem_linksTo_iff hg.2.1).1 hfar
  have haddress := List.find?_some hfind
  exact ⟨htype, ⟨l, hlistsBack, hroot.id ▸ hback, hdata⟩, r, hlists, hto, hmetric, i,
    List.mem_of_find?_eq_some hfind, of_decide_eq_true haddress, hname⟩

/-- A vertex offers the routes that leave by its least hop. -/
theorem Finished.offers_iff (hf : Finished db root s) (hr : s.tree.vertices[0]? = some rv)
    (hv : s.tree.At a h v) {r : Route Nat} :
    Offers names db root s.tree rv interfaces (h, v) r ↔
      s.tree.Serves db root interfaces r.key h v ∧ s.tree.Takes names db root interfaces h v r := by
  have hgenuine : Vertex.Genuine db v := by
    have hbare := hf.sound.arena.genuine h _
      (Tree.view_of_getElem? ((Tree.at_iff hf.order_lt).1 hv).2)
    exact hbare
  constructor
  · intro ho
    refine ⟨(hf.serves_iff hr hv).2 ⟨r, ho, rfl⟩, ?_⟩
    obtain ⟨hfor, hop, hl, d, hd, rfl⟩ := ho
    obtain ⟨⟨y, w, hvia⟩, hleast⟩ := (hf.leastHop_iff hr).1 hl
    exact ⟨whole_of_destinations hgenuine hd, rfl, hop, y, w, hvia, hf.spans hv hfor hvia, rfl, rfl,
      hleast⟩
  · rintro ⟨⟨hg, hfor, -⟩, hwhole, hmetric, hop, y, w, hvia, -, hnext, hiface, hleast⟩
    obtain ⟨m, hd, hm⟩ := (gives_iff hgenuine).1 hg
    obtain rfl := (whole_of_destinations hgenuine hd).eq_of_length_eq hwhole hm
    refine ⟨hfor, hop, (hf.leastHop_iff hr).2 ⟨⟨y, w, hvia⟩, hleast⟩, _, hd, ?_⟩
    obtain ⟨x, m, next, iface, metric⟩ := r
    simp only at hmetric hnext hiface
    rw [hmetric, hnext, hiface]
    rfl

end Search

open Search

/-- The routes of a tree are those that leave by the least hop to the vertex that decides. -/
def Tree.ChoosesHops (names : NameOrder) (db : Database Advertisement) (root : Address)
    (t : PathTree) (interfaces : List Interface) (rs : List (Route Nat)) : Prop :=
  Ascending rs ∧ ∀ r, r ∈ rs ↔ ∃ a h v, t.Decides db root interfaces r.key a h v ∧
    t.Takes names db root interfaces h v r

theorem choosesHops_shortestPaths (db : Database Advertisement) (root : Address) (names : NameOrder)
    (interfaces : List Interface) :
    ∃ rs, (shortestPaths db root).routes names interfaces = .ok rs ∧
      (shortestPaths db root).ChoosesHops names db root interfaces rs := by
  by_cases hroot : (db.get? root).isSome
  · have hf := run_finished hroot
    have hch := run_chronicle hroot
    obtain ⟨ro, hro, -⟩ := hf.sound.arena.origin
    obtain ⟨cs, hr, -⟩ := Tree.view_eq_some_iff.1 hro.1
    obtain ⟨rs, hrun, hasc, hmem⟩ := hf.routes_iff hch hr names interfaces
    refine ⟨rs, hrun, hasc, fun r => ?_⟩
    rw [hmem, FirstOffers.iff_getElem?]
    constructor
    · rintro ⟨a, ⟨h, v⟩, hv, ho, hfirst⟩
      obtain ⟨hs, ht⟩ := (hf.offers_iff hr hv).1 ho
      refine ⟨a, h, v, ⟨hv, hs, fun b hb i u hu hserves => ?_⟩, ht⟩
      obtain ⟨t, ht, hk⟩ := (hf.serves_iff hr hu).1 hserves
      exact hfirst b hb (i, u) hu t ht hk
    · rintro ⟨a, h, v, ⟨hv, hs, hfirst⟩, ht⟩
      refine ⟨a, (h, v), hv, (hf.offers_iff hr hv).2 ⟨hs, ht⟩, fun b hb f hu t ht hk => ?_⟩
      exact hfirst b hb f.1 f.2 hu ((hf.serves_iff hr hu).2 ⟨t, ht, hk⟩)
  · rw [shortestPaths, run_noRoot (Option.not_isSome_iff_eq_none.1 hroot)]
    refine ⟨[], rfl, List.Pairwise.nil, fun r => iff_of_false List.not_mem_nil ?_⟩
    rintro ⟨a, h, v, ⟨hv, -⟩, -⟩
    cases hv

theorem SameRecords.choosesHops {db db' : Database Advertisement} (h : SameRecords db db')
    {root : Address} {t : PathTree} {names : NameOrder} {interfaces : List Interface}
    {rs : List (Route Nat)} (hc : t.ChoosesHops names db root interfaces rs) :
    t.ChoosesHops names db' root interfaces rs := by
  have hserves (k : Address × Nat) (i : Nat) (v : PathVertex) :
      t.Serves db root interfaces k i v ↔ t.Serves db' root interfaces k i v :=
    ⟨fun x => ⟨h.gives_iff.1 x.gives, h.foreign_iff.1 x.foreign, x.via⟩,
      fun x => ⟨h.gives_iff.2 x.gives, h.foreign_iff.2 x.foreign, x.via⟩⟩
  have hspans (w : PathVertex) (hop : Hop) : Tree.Spans db root interfaces w hop ↔
      Tree.Spans db' root interfaces w hop := by
    constructor
    · rintro ⟨hr, ⟨l, hl, hfar⟩, k, hk, hnear⟩
      exact ⟨hr, ⟨l, h.lists hl, hfar⟩, k, h.lists hk, hnear⟩
    · rintro ⟨hr, ⟨l, hl, hfar⟩, k, hk, hnear⟩
      exact ⟨hr, ⟨l, h.symm.lists hl, hfar⟩, k, h.symm.lists hk, hnear⟩
  refine ⟨hc.1, fun r => (hc.2 r).trans ?_⟩
  simp only [Tree.decides_iff, Tree.takes_iff, hserves, hspans]

namespace Network

/-- A route leaves by the least hop to the first vertex in tree order that gives its destination, is
none of the root's own networks and is reached by a hop. -/
theorem calculate_choosesHops (n : Network) (s : SearcherId) (root : Address) :
    Completes (calculate s root) n fun t _ => ∀ names interfaces, ∃ rs,
      t.routes names interfaces = .ok rs ∧
        t.ChoosesHops names (n.snapshot (n.searcher s).database) root interfaces rs := by
  refine (completes_calculate s root).mono ?_
  rintro t n' ⟨-, db, hdb, rfl, -⟩ names interfaces
  obtain ⟨rs, hrs, hc⟩ := choosesHops_shortestPaths db root names interfaces
  exact ⟨rs, hrs, hdb.symm.choosesHops hc⟩

end Network

end LinkState
