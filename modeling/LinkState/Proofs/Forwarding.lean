import LinkState.Proofs.Consistency

/-! Following the routes to a destination from router to router. There is always a next one, and
each is nearer to the destination by the link taken. So a way that comes back to where it was has
only links of metric zero on it, and where no such links form a cycle every way arrives. -/

namespace LinkState

open Relation

def FreeLink (db : Database Advertisement) (u v : Address) : Prop :=
  u ≠ v ∧ Leads db u (.router v) 0

namespace Network

variable {n : Network} {m : ManagerId} {x : Address} {l : Nat}

def Owns (n : Network) (k : NodeId) (a : Address) : Prop :=
  ∃ i ∈ n.interfacesOf k, i.address = some a

/-- No two of the nodes have interfaces with one address. -/
def DistinctAddresses (n : Network) (ks : List NodeId) : Prop :=
  ∀ j ∈ ks, ∀ k ∈ ks, ∀ a, n.Owns j a → n.Owns k a → j = k

instance (n : Network) (k : NodeId) (a : Address) : Decidable (n.Owns k a) :=
  inferInstanceAs (Decidable (∃ i ∈ n.interfacesOf k, i.address = some a))

theorem distinctAddresses_iff {ks : List NodeId} : n.DistinctAddresses ks ↔
    ∀ j ∈ ks, ∀ i ∈ n.interfacesOf j, ∀ a ∈ i.address, ∀ k ∈ ks, n.Owns k a → j = k := by
  constructor
  · exact fun h j hj i hi a ha k hk => h j hj k hk a ⟨i, hi, ha⟩
  · rintro h j hj k hk a ⟨i, hi, ha⟩
    exact h j hj i hi a ha k hk

instance (n : Network) (ks : List NodeId) : Decidable (n.DistinctAddresses ks) :=
  decidable_of_iff _ distinctAddresses_iff.symm

def Announces (n : Network) (m : ManagerId) (x : Address) (l : Nat) (k : NodeId) : Prop :=
  ∃ r, n.routerOf k = some r ∧ Advertises (n.lsdb m) r.id x l

/-- The node has a computed route to the destination. -/
def HasRoute (n : Network) (x : Address) (l : Nat) (k : NodeId) : Prop :=
  ∃ e ∈ n.globals k, e.network = x ∧ e.mask.length = l

/-- The node has a computed route to the destination by the next hop `a`. -/
def SendsTo (n : Network) (x : Address) (l : Nat) (k : NodeId) (a : Address) : Prop :=
  ∃ e ∈ n.globals k, e.network = x ∧ e.mask.length = l ∧ e.nextHop = some a

instance (n : Network) (x : Address) (l : Nat) (k : NodeId) (a : Address) :
    Decidable (n.SendsTo x l k a) :=
  inferInstanceAs (Decidable (∃ e ∈ n.globals k, _))

/-- One node does not advertise the destination, and the other owns the next hop of its route. -/
def Forwards (n : Network) (m : ManagerId) (x : Address) (l : Nat) (j k : NodeId) : Prop :=
  ¬ n.Announces m x l j ∧ k ∈ n.nodesOf m ∧ (n.routerOf k).isSome ∧
    ∃ a, n.SendsTo x l j a ∧ n.Owns k a

/-- A router of the manager that advertises the destination or has a route to it. -/
structure Knows (n : Network) (m : ManagerId) (x : Address) (l : Nat) (k : NodeId) (r : Router) :
    Prop where
  mem : k ∈ n.nodesOf m
  router : n.routerOf k = some r
  route : n.Announces m x l k ∨ n.HasRoute x l k

namespace Filled

theorem eq_of_same_destination (h : n.Filled m) {k : NodeId} (hk : k ∈ n.nodesOf m) {r : Router}
    (hr : n.routerOf k = some r) {e f : TableEntry} (he : e ∈ n.globals k) (hf : f ∈ n.globals k)
    (hnet : e.network = f.network) (hlen : e.mask.length = f.mask.length) : e = f := by
  obtain ⟨rs, hrs, hof⟩ := h.routes k hk r hr
  have hnodup := (exact_entries hof).nodup
  rw [← hrs] at hnodup
  exact List.inj_on_of_nodup_map hnodup he hf (by rw [hnet, hlen])

end Filled

namespace Knows

variable {k : NodeId} {r : Router}

/-- The way goes on to one node, which knows the destination too and is nearer to it by the link. -/
theorem forwards (h : n.Filled m) (hown : n.DistinctAddresses (n.nodesOf m))
    (hk : n.Knows m x l k r) (hnot : ¬ n.Announces m x l k) :
    ∃ j s w, n.Forwards m x l k j ∧ (∀ j', n.Forwards m x l k j' → j' = j) ∧ n.Knows m x l j s ∧
      r.id ≠ s.id ∧ Leads (n.lsdb m) r.id (.router s.id) w ∧
      (n.Announces m x l j ∨ ∃ d, Distance (n.lsdb m) s.id x l d ∧
        Distance (n.lsdb m) r.id x l (w + d)) := by
  obtain ⟨e, he, rfl, rfl⟩ := hk.route.resolve_left hnot
  have hadv : ¬ Advertises (n.lsdb m) r.id e.network e.mask.length := fun ha =>
    hnot ⟨r, hk.router, ha⟩
  obtain ⟨j, hj, s, hs, out, back, hleaves, howns, hnext⟩ := h.next hk.mem hk.router he hadv
  refine ⟨j, s, out.metric.value, ?_, ?_, ⟨hj, hs, ?_⟩, hleaves.ne.symm, ?_, ?_⟩
  · exact ⟨hnot, hj, by simp [hs], back.data, ⟨e, he, rfl, rfl, hleaves.nextHop⟩, howns⟩
  · -- there is one entry for the destination, and one node at its next hop
    rintro j' ⟨-, hj', -, a, ⟨f, hf, hnet, hlen, hfa⟩, hja⟩
    obtain rfl := h.eq_of_same_destination hk.mem hk.router hf he hnet hlen
    obtain rfl := Option.some.inj (hfa.symm.trans hleaves.nextHop)
    exact hown j' hj' j hj _ hja howns
  · refine hnext.imp (fun ha => ⟨s, hs, ha⟩) ?_
    rintro ⟨d, hd, -⟩
    obtain ⟨f, hf, hnet, hlen, -⟩ := h.exists_entry hj hs hd
    exact ⟨f, hf, hnet, hlen⟩
  · exact leads_router_iff.2 ⟨out, back, hleaves.lists.1, hleaves.lists.2, rfl,
      hleaves.listsBack.1, hleaves.listsBack.2⟩
  · exact hnext.imp_left fun ha => ⟨s, hs, ha⟩

theorem step (h : n.Filled m) (hown : n.DistinctAddresses (n.nodesOf m)) (hk : n.Knows m x l k r)
    {j : NodeId} (hf : n.Forwards m x l k j) :
    ∃ s w, n.Knows m x l j s ∧ r.id ≠ s.id ∧ Leads (n.lsdb m) r.id (.router s.id) w ∧
      (n.Announces m x l j ∨ ∃ d, Distance (n.lsdb m) s.id x l d ∧
        Distance (n.lsdb m) r.id x l (w + d)) := by
  obtain ⟨i, s, w, -, hunique, hrest⟩ := hk.forwards h hown hf.1
  obtain rfl := hunique j hf
  exact ⟨s, w, hrest⟩

/-- Along a way the distance does not grow, and where it stays the same all links are free. -/
theorem transGen (h : n.Filled m) (hown : n.DistinctAddresses (n.nodesOf m))
    (hk : n.Knows m x l k r) {j : NodeId} (hw : TransGen (n.Forwards m x l) k j)
    (hj : ¬ n.Announces m x l j) :
    ∃ s d e, n.Knows m x l j s ∧ Distance (n.lsdb m) s.id x l d ∧
      Distance (n.lsdb m) r.id x l e ∧ d ≤ e ∧
      (d = e → TransGen (FreeLink (n.lsdb m)) r.id s.id) := by
  induction hw with
  | single hf =>
    obtain ⟨s, w, hs, hne, hl, hd⟩ := hk.step h hown hf
    obtain ⟨d, hd, he⟩ := hd.resolve_left hj
    refine ⟨s, d, w + d, hs, hd, he, by omega, fun heq => .single ⟨hne, ?_⟩⟩
    obtain rfl : w = 0 := by omega
    exact hl
  | tail _ hf ih =>
    obtain ⟨t, c, e, ht, hc, he, hle, hfree⟩ := ih hf.1
    obtain ⟨s, w, hs, hne, hl, hd⟩ := ht.step h hown hf
    obtain ⟨d, hd, hsum⟩ := hd.resolve_left hj
    -- the distance falls by the link, so that it stays the same only over a free one
    have hcd := hc.unique hsum
    refine ⟨s, d, e, hs, hd, he, by omega, fun heq => (hfree (by omega)).tail ⟨hne, ?_⟩⟩
    obtain rfl : w = 0 := by omega
    exact hl

end Knows

namespace Filled

/-- A way comes back only round a cycle of free links. -/
theorem freeLink_of_cycle (h : n.Filled m) (hown : n.DistinctAddresses (n.nodesOf m)) {k : NodeId}
    {r : Router} (hr : n.routerOf k = some r) (hw : TransGen (n.Forwards m x l) k k) :
    TransGen (FreeLink (n.lsdb m)) r.id r.id := by
  obtain ⟨j, hfirst, -⟩ := TransGen.head'_iff.1 hw
  obtain ⟨i, -, hlast⟩ := TransGen.tail'_iff.1 hw
  obtain ⟨hnot, -, -, a, ⟨e, he, hnet, hlen, -⟩, -⟩ := hfirst
  have hk : n.Knows m x l k r := ⟨hlast.2.1, hr, .inr ⟨e, he, hnet, hlen⟩⟩
  obtain ⟨s, d, c, hs, hd, hc, -, hfree⟩ := hk.transGen h hown hw hnot
  obtain rfl := Option.some.inj (hr.symm.trans hs.router)
  exact hfree (hd.unique hc)

/-- A way that meets no cycle of free links arrives. -/
theorem arrives (h : n.Filled m) (hown : n.DistinctAddresses (n.nodesOf m)) {k : NodeId}
    {r : Router} (hk : n.Knows m x l k r)
    (hfree : ∀ j s, ReflTransGen (n.Forwards m x l) k j → n.routerOf j = some s →
      ¬ TransGen (FreeLink (n.lsdb m)) s.id s.id) :
    ∃ j, ReflTransGen (n.Forwards m x l) k j ∧ n.Announces m x l j := by
  -- the nodes on the way are finitely many, and none comes after itself
  let onWay := {a : {i // i ∈ n.nodesOf m} // ReflTransGen (n.Forwards m x l) k a}
  let after (a b : onWay) : Prop := TransGen (n.Forwards m x l) b.1 a.1
  have : IsTrans onWay after := ⟨fun a b c hab hbc => hbc.trans hab⟩
  have : Std.Irrefl after := ⟨fun a ha => by
    obtain ⟨i, -, -, -, hsome, -⟩ := TransGen.tail'_iff.1 ha
    obtain ⟨s, hs⟩ := Option.isSome_iff_exists.1 hsome
    exact hfree _ s a.2 hs (h.freeLink_of_cycle hown hs ha)⟩
  have hwf : WellFounded after := Finite.wellFounded_of_trans_of_irrefl after
  have reach (a : onWay) : ∀ s, n.Knows m x l a.1 s →
      ∃ j, ReflTransGen (n.Forwards m x l) k j ∧ n.Announces m x l j := by
    induction a using hwf.induction with
    | _ a ih =>
      intro s hs
      by_cases hnot : n.Announces m x l a.1
      · exact ⟨a.1, a.2, hnot⟩
      · obtain ⟨j, t, w, hf, -, ht, -⟩ := hs.forwards h hown hnot
        exact ih ⟨⟨j, ht.mem⟩, a.2.tail hf⟩ (.single hf) t ht
  exact reach ⟨⟨k, hk.mem⟩, .refl⟩ r hk

end Filled

theorem announces_iff {n' : Network} (ht : SameTopology n n')
    (hdb : SameRecords (n.linkStateOf m) (n'.lsdb m)) (ha : n.Admissible m) {k : NodeId}
    (hk : k ∈ n.nodesOf m) :
    n'.Announces m x l k ↔ ∃ a, n.advertised k = some a ∧ a.Offers x l := by
  constructor
  · rintro ⟨r', hr', hadv⟩
    obtain ⟨r, hr, hid⟩ := ht.symm.exists_router hr'
    rw [← hdb.advertises_iff, ← hid] at hadv
    obtain ⟨a, hget, hoffers⟩ := LinkState.advertises_iff.1 hadv
    rw [linkStateOf, ha.ids_byIndex.get?_linkState (mem_byIndex.2 hk) hr] at hget
    exact ⟨a, hget, hoffers⟩
  · rintro ⟨a, hget, hoffers⟩
    obtain ⟨r, hr, -⟩ := advertised_eq_some hget
    obtain ⟨r', hr', hid⟩ := ht.exists_router hr
    refine ⟨r', hr', ?_⟩
    rw [← hdb.advertises_iff, hid, LinkState.advertises_iff, linkStateOf,
      ha.ids_byIndex.get?_linkState (mem_byIndex.2 hk) hr]
    exact ⟨a, hget, hoffers⟩

structure Delivers (n : Network) (m : ManagerId) (x : Address) (l : Nat) (j : NodeId) : Prop where
  finds : ∀ k, ReflTransGen (n.Forwards m x l) j k →
    n.Announces m x l k ∨ ∃! k', n.Forwards m x l k k'
  returns : ∀ k r, ReflTransGen (n.Forwards m x l) j k → n.routerOf k = some r →
    TransGen (n.Forwards m x l) k k → TransGen (FreeLink (n.lsdb m)) r.id r.id
  arrives : (∀ k r, ReflTransGen (n.Forwards m x l) j k → n.routerOf k = some r →
      ¬ TransGen (FreeLink (n.lsdb m)) r.id r.id) →
    ∃ k, ReflTransGen (n.Forwards m x l) j k ∧ n.Announces m x l k

/-- Whoever has a route to a destination delivers to it, free links apart. -/
theorem populate_delivers (hn : n.Reachable) (hm : m < n.managers.size) (ha : n.Admissible m)
    (hown : n.DistinctAddresses (n.nodesOf m)) :
    Completes (populate m) n fun _ n' => ∀ x l, ∀ j ∈ n'.nodesOf m, (n'.routerOf j).isSome →
      n'.HasRoute x l j → n'.Delivers m x l j := by
  refine (completes_populate_filled hn hm ha).mono ?_
  rintro report n' ⟨ht, h⟩ x l j hj hsome hroute
  have hown' : n'.DistinctAddresses (n'.nodesOf m) := by
    simp only [DistinctAddresses, Owns, ht.nodesOf, ht.interfacesOf]
    exact hown
  obtain ⟨r, hr⟩ := Option.isSome_iff_exists.1 hsome
  have hknows : n'.Knows m x l j r := ⟨hj, hr, .inr hroute⟩
  refine ⟨fun k hk => ?_, fun k s _ hs => h.freeLink_of_cycle hown' hs, fun hfree =>
    h.arrives hown' hknows hfree⟩
  -- whoever is on the way knows the destination, by induction along it
  have hreached : ∃ s, n'.Knows m x l k s := by
    induction hk with
    | refl => exact ⟨r, hknows⟩
    | tail _ hf ih =>
      obtain ⟨s, hs⟩ := ih
      obtain ⟨t, -, ht, -⟩ := hs.step h hown' hf
      exact ⟨t, ht⟩
  obtain ⟨s, hs⟩ := hreached
  by_cases hnot : n'.Announces m x l k
  · exact .inl hnot
  · obtain ⟨i, -, -, hf, hunique, -⟩ := hs.forwards h hown' hnot
    exact .inr ⟨i, hf, hunique⟩

theorem populate_delivers_pair :
    pair.Admissible 0 ∧ pair.DistinctAddresses (pair.nodesOf 0) ∧
      ∃ report, (exec (populate 0) pair).1 = .ok report ∧
        ∀ x l, ∀ j ∈ (exec (populate 0) pair).2.nodesOf 0,
          ((exec (populate 0) pair).2.routerOf j).isSome →
            (exec (populate 0) pair).2.HasRoute x l j →
              (exec (populate 0) pair).2.Delivers 0 x l j := by
  have ha : pair.Admissible 0 := by decide +kernel
  have hown : pair.DistinctAddresses (pair.nodesOf 0) := by decide +kernel
  exact ⟨ha, hown, (populate_delivers (m := 0) reachable_pair (by decide +kernel) ha hown).of_quiet
    (quiet_of_nil (by decide +kernel))⟩

/-! ### A cycle of free links -/

def triangleSetup : NetworkM ManagerId := do
  let a ← newRouterNode "A"
  let b ← newRouterNode "B"
  let c ← newRouterNode "C"
  newLink a b "ab" ⟨10, 0, 0, 1⟩ ⟨10, 0, 0, 2⟩ 0
  newLink a c "ac" ⟨10, 0, 1, 1⟩ ⟨10, 0, 1, 2⟩ 1
  newLink b c "bc" ⟨10, 0, 2, 1⟩ ⟨10, 0, 2, 2⟩ 1
  addStub c ⟨192, 168, 0, 0⟩ (.ofLength ⟨24, by decide⟩) none
  newManager (some [a, b, c])

/-- Two routers with a free link between them, both one link away from a third. -/
def triangle : Network := (exec triangleSetup .empty).2

theorem reachable_triangle : triangle.Reachable :=
  .run .empty <| .bind (.newRouterNode _) fun _ => .bind (.newRouterNode _) fun _ =>
    .bind (.newRouterNode _) fun _ => .bind (.newLink ..) fun _ => .bind (.newLink ..) fun _ =>
    .bind (.newLink ..) fun _ => .bind (.addStub ..) fun _ => .newManager _

set_option maxRecDepth 10000 in
theorem triangle_sends :
    (exec (populate 0) triangle).2.SendsTo ⟨192, 168, 0, 0⟩ 24 0 ⟨10, 0, 0, 2⟩ ∧
      (exec (populate 0) triangle).2.SendsTo ⟨192, 168, 0, 0⟩ 24 1 ⟨10, 0, 0, 1⟩ :=
  of_decide_eq_true (by cbv)

/-- The first router sends to the second and the second to the first what the third advertises. -/
theorem triangle_returns :
    triangle.Reachable ∧ triangle.Admissible 0 ∧ triangle.DistinctAddresses (triangle.nodesOf 0) ∧
      (∃ report, (exec (populate 0) triangle).1 = .ok report) ∧
        ¬ (exec (populate 0) triangle).2.Announces 0 ⟨192, 168, 0, 0⟩ 24 0 ∧
        (exec (populate 0) triangle).2.HasRoute ⟨192, 168, 0, 0⟩ 24 0 ∧
        TransGen ((exec (populate 0) triangle).2.Forwards 0 ⟨192, 168, 0, 0⟩ 24) 0 0 := by
  have ha : triangle.Admissible 0 := by decide +kernel
  obtain ⟨report, hok, ht, hdb, -⟩ := (completes_populate (m := 0) reachable_triangle.wellFormed
    (by decide +kernel) ha).of_quiet (quiet_of_nil (by decide +kernel))
  have silent {k : NodeId} (hk : k ∈ triangle.nodesOf 0)
      (h : ∀ a ∈ triangle.advertised k, ¬ a.Offers ⟨192, 168, 0, 0⟩ 24) :
      ¬ (exec (populate 0) triangle).2.Announces 0 ⟨192, 168, 0, 0⟩ 24 k := by
    rw [announces_iff ht hdb ha hk]
    rintro ⟨a, hget, hoffers⟩
    exact h a hget hoffers
  have forwards {j k : NodeId} {a : Address} {r : Router}
      (hj : ¬ (exec (populate 0) triangle).2.Announces 0 ⟨192, 168, 0, 0⟩ 24 j)
      (hk : k ∈ triangle.nodesOf 0) (hr : triangle.routerOf k = some r) (howns : triangle.Owns k a)
      (hsends : (exec (populate 0) triangle).2.SendsTo ⟨192, 168, 0, 0⟩ 24 j a) :
      (exec (populate 0) triangle).2.Forwards 0 ⟨192, 168, 0, 0⟩ 24 j k := by
    obtain ⟨s, hs, -⟩ := ht.exists_router hr
    refine ⟨hj, ?_, by simp [hs], a, hsends, ?_⟩
    · rw [ht.nodesOf]
      exact hk
    · rw [Owns, ht.interfacesOf]
      exact howns
  have hA := silent (k := 0) (by decide +kernel) (by decide +kernel)
  have hB := silent (k := 1) (by decide +kernel) (by decide +kernel)
  have hAB := forwards (k := 1) hA (by decide +kernel) rfl (by decide +kernel) triangle_sends.1
  have hBA := forwards (k := 0) hB (by decide +kernel) rfl (by decide +kernel) triangle_sends.2
  have ⟨_, _, _, _, ⟨e, he, hnet, hlen, _⟩, _⟩ := hAB
  exact ⟨reachable_triangle, ha, by decide +kernel, ⟨report, hok⟩, hA, ⟨e, he, hnet, hlen⟩,
    .tail (.single hAB) hBA⟩

end Network

end LinkState
