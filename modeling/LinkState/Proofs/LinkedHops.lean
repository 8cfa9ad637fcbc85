import LinkState.Proofs.Forwarding
import LinkState.Proofs.Links

/-! Next hops and the links to them. The routes of a node are found from addresses alone, without
the channels. Where the addresses follow a plan, the next hop of each route is nevertheless the
other end of the very channel that its interface is on. -/

namespace LinkState

namespace Network

variable {n n' : Network} {m : ManagerId}

/-- The nodes that a manager considers, and those that its routers may come upon. -/
def members (n : Network) (m : ManagerId) : List NodeId :=
  n.nodesOf m ++ n.registry.map Prod.snd

/-- The address of the interface `j` is in the subnet of the interface `i`. -/
def Covers (n : Network) (i j : InterfaceId) : Prop :=
  ∃ a ∈ (n.interface i).address, ∃ s ∈ (n.interface i).mask, ∃ b ∈ (n.interface j).address,
    b.sameSubnet a s

def Together (n : Network) (ks : List NodeId) (i j : InterfaceId) : Prop :=
  ∃ k ∈ ks, i ∈ (n.node k).interfaces ∧ j ∈ (n.node k).interfaces

/-- How the nodes of a manager are to be numbered and configured: they have distinct router IDs and
addresses and one view of what is down, the ends of a channel are in each other's subnets, and of
two channels between the same nodes neither is in the subnet of the other. -/
structure Planned (n : Network) (m : ManagerId) : Prop where
  masks : ∀ k ∈ n.nodesOf m, n.WholeMasks k
  ids : n.DistinctIds (n.members m)
  skipDown : ∀ j ∈ n.members m, ∀ k ∈ n.members m, ∀ x ∈ n.routerOf j, ∀ y ∈ n.routerOf k,
    x.config.skipDown.isOn = y.config.skipDown.isOn
  addresses : ∀ j ∈ n.members m, ∀ k ∈ n.members m, ∀ p ∈ (n.node j).interfaces,
    ∀ q ∈ (n.node k).interfaces, ∀ a ∈ (n.interface p).address, a ∈ (n.interface q).address → p = q
  subnets : ∀ c i j, n.Joins c i j → n.Covers i j
  apart : ∀ c i j, n.Joins c i j → ∀ d i' j', n.Joins d i' j' → c ≠ d →
    n.Together (n.members m) i i' → n.Together (n.members m) j j' → ¬ n.Covers i j'

/-- The interfaces on channels with two ends are filed under their nodes: they have the identifier
of their node, and the node that is registered under the identifier that they have has them. -/
structure Filed (n : Network) (m : ManagerId) : Prop where
  own : ∀ c i j, n.Joins c i j → ∀ k ∈ n.nodesOf m, i ∈ (n.node k).interfaces →
    (n.interface i).nodeId = (n.node k).id
  registered : ∀ c i j, n.Joins c i j → ∀ k ∈ n.registered? (n.interface i).nodeId,
    i ∈ (n.node k).interfaces

instance (n : Network) (i j : InterfaceId) : Decidable (n.Covers i j) :=
  inferInstanceAs (Decidable (∃ a ∈ (n.interface i).address, _))

instance (n : Network) (ks : List NodeId) (i j : InterfaceId) : Decidable (n.Together ks i j) :=
  inferInstanceAs (Decidable (∃ k ∈ ks, _))

instance (n : Network) (m : ManagerId) : Decidable (n.Planned m) :=
  decidable_of_iff
    ((∀ k ∈ n.nodesOf m, n.WholeMasks k) ∧ n.DistinctIds (n.members m) ∧
      (∀ j ∈ n.members m, ∀ k ∈ n.members m, ∀ x ∈ n.routerOf j, ∀ y ∈ n.routerOf k,
        x.config.skipDown.isOn = y.config.skipDown.isOn) ∧
      (∀ j ∈ n.members m, ∀ k ∈ n.members m, ∀ p ∈ (n.node j).interfaces,
        ∀ q ∈ (n.node k).interfaces, ∀ a ∈ (n.interface p).address,
          a ∈ (n.interface q).address → p = q) ∧
      (∀ c i j, n.Joins c i j → n.Covers i j) ∧
      ∀ c i j, n.Joins c i j → ∀ d i' j', n.Joins d i' j' → c ≠ d →
        n.Together (n.members m) i i' → n.Together (n.members m) j j' → ¬ n.Covers i j')
    ⟨fun ⟨h₁, h₂, h₃, h₄, h₅, h₆⟩ => ⟨h₁, h₂, h₃, h₄, h₅, h₆⟩,
      fun ⟨h₁, h₂, h₃, h₄, h₅, h₆⟩ => ⟨h₁, h₂, h₃, h₄, h₅, h₆⟩⟩

instance (n : Network) (m : ManagerId) : Decidable (n.Filed m) :=
  decidable_of_iff
    ((∀ c i j, n.Joins c i j → ∀ k ∈ n.nodesOf m, i ∈ (n.node k).interfaces →
        (n.interface i).nodeId = (n.node k).id) ∧
      ∀ c i j, n.Joins c i j → ∀ k ∈ n.registered? (n.interface i).nodeId,
        i ∈ (n.node k).interfaces)
    ⟨fun ⟨h, h'⟩ => ⟨h, h'⟩, fun ⟨h, h'⟩ => ⟨h, h'⟩⟩

/-- The entry leaves the router by an interface on a channel with two ends. The other end is on a
node with a router, and it is the next hop. -/
structure Crosses (n : Network) (m : ManagerId) (k : NodeId) (x : Router) (e : TableEntry)
    (c : ChannelId) (i j : InterfaceId) : Prop where
  interface : n.interfaceNamed? k e.interface = some i
  attached : (n.interface i).channel = some c
  joins : n.Joins c i j
  router : ∃ k' ∈ n.nodesOf m, j ∈ (n.node k').interfaces ∧ (n.routerOf k').isSome
  nextHop : ∃ a, (n.interface j).address = some a ∧ e.nextHop = some a
  up : x.config.skipDown.isOn → (n.interface i).isUp ∧ (n.interface j).isUp

/-- Every computed route of a router crosses one channel to its next hop. -/
def LinkedHops (n : Network) (m : ManagerId) : Prop :=
  ∀ k ∈ n.nodesOf m, ∀ x, n.routerOf k = some x → ∀ e ∈ n.globals k,
    ∃ c i j, n.Crosses m k x e c i j

theorem mem_members_of_registered {id : String} {k : NodeId} (h : n.registered? id = some k) :
    k ∈ n.members m := by
  refine List.mem_append_right _ ?_
  rw [registered?, List.lookup_eq_some_iff] at h
  obtain ⟨l, l', hreg, -⟩ := h
  rw [hreg]
  simp

theorem mem_members {k : NodeId} (h : k ∈ n.nodesOf m) : k ∈ n.members m := List.mem_append_left _ h

theorem Planned.admissible (h : n.Planned m) : n.Admissible m :=
  ⟨h.masks, fun j hj k hk => h.ids j (mem_members hj) k (mem_members hk)⟩

/-- The router of a member that a link leads to has the interface at the end of it. -/
theorem Filed.mem_interfaces (h : n.Filed m) {x y : Router} {c : ChannelId} {i j : InterfaceId}
    {k : NodeId} (hl : n.LinkTo x c i j k y) : j ∈ (n.node k).interfaces :=
  h.registered c j i hl.joins.symm k hl.filed

/-- If one interface of a node is found to be its own, so are the others. -/
theorem Filed.registered_eq (h : n.Filed m) {k : NodeId} (hk : k ∈ n.nodesOf m) {c d : ChannelId}
    {i j p q : InterfaceId} (hi : n.Joins c i j) (hp : n.Joins d p q)
    (hik : i ∈ (n.node k).interfaces) (hpk : n.registered? (n.interface p).nodeId = some k) :
    n.registered? (n.interface i).nodeId = some k := by
  have hpmem := h.registered d p q hp k hpk
  rwa [h.own c i j hi k hk hik, ← h.own d p q hp k hk hpmem]

/-- The interface that is found by an address is the one that has it. -/
theorem Planned.eq_of_find (h : n.Planned m) {k : NodeId} (hk : k ∈ n.nodesOf m)
    {p : InterfaceId} (hp : p ∈ (n.node k).interfaces) {a : Address}
    (ha : (n.interface p).address = some a) {x : Interface}
    (hx : (n.interfacesOf k).find? (·.address = some a) = some x) : x = n.interface p := by
  have haddress := List.find?_some hx
  rw [decide_eq_true_eq] at haddress
  obtain ⟨q, hq, rfl⟩ := List.mem_map.1 (List.mem_of_find?_eq_some hx)
  have hk := mem_members hk
  rw [h.addresses k hk k hk q hq p hp a haddress ha]

section Passes

variable {k : NodeId} {x : Router} {r : Route Nat} {v : VertexKey} {u : Address}
  {out back : LinkRecord} {f : Interface} {w : Nat}

/-- The router of a route has a link to that of the next hop, which has one back. -/
theorem exists_links (hn : n.Cabled) (hp : n.Planned m) (hk : k ∈ n.nodesOf m)
    (hx : n.routerOf k = some x)
    (h : Passes (n.linkStateOf m) x.id (n.interfacesOf k) r v u out back f w) :
    ∃ c i j l y, i ∈ (n.node k).interfaces ∧ (n.interface i).address = some out.data ∧
      n.LinkTo x c i j l y ∧ l ∈ n.nodesOf m ∧ y.id = u ∧
      ∃ d q p, q ∈ (n.node l).interfaces ∧ (n.interface q).address = some back.data ∧
        n.LinkTo y d q p k x := by
  have hown := hn.reachable.wellFormed.routers
  obtain ⟨k', hk', x', hx', hid, i, hi, ha, c, j, l', y', hlink, hy'⟩ :=
    linkTo_of_lists hn.wired hown h.lists.1 h.lists.2
  obtain rfl := hp.admissible.ids k hk k' (mem_byIndex.1 hk') x x' hx hx' hid.symm
  obtain rfl := Option.some.inj (hx.symm.trans hx')
  obtain ⟨l, hl, y, hy, rfl, q, hq, hb, d, p, k'', x'', hlinkback, hx''⟩ :=
    linkTo_of_lists hn.wired hown h.listsBack.1 h.listsBack.2
  rw [mem_byIndex] at hl
  -- router IDs are distinct, so both links are between the same two nodes
  obtain rfl := hp.ids l (mem_members hl) l' (mem_members_of_registered hlink.filed) y y' hy
    hlink.router hy'.symm
  obtain rfl := hp.ids k (mem_members hk) k'' (mem_members_of_registered hlinkback.filed) x x'' hx
    hlinkback.router hx''.symm
  obtain rfl := Option.some.inj (hy.symm.trans hlink.router)
  obtain rfl := Option.some.inj (hx.symm.trans hlinkback.router)
  exact ⟨c, i, j, l, y, hi, ha, hlink, hl, rfl, d, q, p, hq, hb, hlinkback⟩

/-- The next hop is in the subnet of the interface, as the other end of its channel is. -/
theorem covers_next (hn : n.Cabled) (hp : n.Planned m) (hf : n.Filed m) (hk : k ∈ n.nodesOf m)
    {y : Router} (h : Passes (n.linkStateOf m) x.id (n.interfacesOf k) r v y.id out back f w)
    {l : NodeId} (hl : l ∈ n.nodesOf m) {c d : ChannelId} {i j p q : InterfaceId}
    (hi : i ∈ (n.node k).interfaces) (ha : (n.interface i).address = some out.data)
    (hlink : n.LinkTo x c i j l y) (hb : (n.interface q).address = some back.data)
    (hback : n.LinkTo y d q p k x) : n.Covers i q := by
  obtain ⟨a, ha', s, hs, b, hbj, hsub⟩ := hp.subnets c i j hlink.joins
  obtain rfl := Option.some.inj (ha'.symm.trans ha)
  -- the link over the channel leads back as well
  have hreverse := hlink.symm (hf.registered_eq hk hlink.joins hback.joins.symm hi hback.filed)
    hback.router (hp.skipDown k (mem_members hk) l (mem_members hl) x hback.router y hlink.router)
  obtain ⟨far, hfar, hto, rfl⟩ := hreverse.exists_lists hn.wired hp.admissible.ids_byIndex
    (mem_byIndex.2 hl) (hn.reachable.wellFormed.routers l) hlink.router (hf.mem_interfaces hlink)
    hbj h.listsBack.1.isSome
  obtain rfl := hp.eq_of_find hk hi ha h.find
  exact ⟨_, ha, s, hs, _, hb, h.subnet s hs far hfar hto hsub⟩

/-- A route crosses the channel of the interface that it leaves by. -/
theorem exists_crosses (hn : n.Cabled) (hp : n.Planned m) (hf : n.Filed m) (hk : k ∈ n.nodesOf m)
    (hx : n.routerOf k = some x)
    (h : Passes (n.linkStateOf m) x.id (n.interfacesOf k) r v u out back f w) :
    ∃ c i j, n.Crosses m k x ⟨r.map .ofNat, .global⟩ c i j := by
  obtain ⟨c, i, j, l, y, hi, ha, hlink, hl, rfl, d, q, p, hq, hb, hback⟩ :=
    exists_links hn hp hk hx h
  have hcovers := covers_next hn hp hf hk h hl hi ha hlink hb hback
  -- the link back is over the same channel, else its subnet would be another
  have hcd : c = d := by
    by_contra hne
    exact hp.apart c i j hlink.joins d p q hback.joins.symm hne
      ⟨k, mem_members hk, hi, hf.mem_interfaces hback⟩
      ⟨l, mem_members hl, hf.mem_interfaces hlink, hq⟩ hcovers
  subst hcd
  rcases hlink.joins.eq_or_eq hback.joins.mem with rfl | rfl
  · -- the end at the router itself is no interface of another
    obtain rfl := hn.reachable.oneNode k l q hi hq
    rw [Option.some.inj (hx.symm.trans hlink.router)] at h
    exact absurd rfl h.ne
  · refine ⟨c, i, q, ?_, hn.wired.channel_eq hlink.joins, hlink.joins,
      ⟨l, hl, hq, by simp [hlink.router]⟩, ⟨_, hb, h.nextHop⟩, hlink.up⟩
    obtain rfl := hp.eq_of_find hk hi ha h.find
    show n.interfaceNamed? k r.interface = some i
    rw [← h.name]
    exact interfaceNamed?_name (hn.reachable.wellFormed.names k) hi

end Passes

theorem SameTopology.crosses (ht : SameTopology n n') {k : NodeId} {x y : Router}
    {e : TableEntry} {c : ChannelId} {i j : InterfaceId} (hxy : y.blank = x.blank)
    (h : n.Crosses m k x e c i j) : n'.Crosses m k y e c i j := by
  obtain ⟨l, hl, hj, hrouter⟩ := h.router
  obtain ⟨z, hz⟩ := Option.isSome_iff_exists.1 hrouter
  obtain ⟨z', hz', -⟩ := ht.exists_router hz
  refine ⟨?_, ?_, ?_, ⟨l, ?_, ?_, by simp [hz']⟩, ?_, ?_⟩
  · simp only [interfaceNamed?, ht.node, ht.interface]
    exact h.interface
  · rw [ht.interface]
    exact h.attached
  · rw [Joins, ht.channel]
    exact h.joins
  · rw [ht.nodesOf]
    exact hl
  · rw [ht.node]
    exact hj
  · rw [ht.interface]
    exact h.nextHop
  · rw [(Router.blank_eq_iff.1 hxy).2.2, ht.interface, ht.interface]
    exact h.up

/-- With planned addresses every computed route crosses one channel. -/
theorem populate_linkedHops (hn : n.Cabled) (hm : m < n.managers.size) (hp : n.Planned m)
    (hf : n.Filed m) : Completes (populate m) n fun _ n' => n'.LinkedHops m := by
  refine (completes_populate hn.reachable.wellFormed hm hp.admissible).mono ?_
  rintro report n' ⟨ht, -, hrouted⟩ k hk y hy e he
  rw [ht.nodesOf] at hk
  obtain ⟨x, hx, hxy⟩ := ht.symm.exists_blank hy
  obtain ⟨rs, hrs, hof⟩ := hrouted k hk x hx
  rw [hrs] at he
  obtain ⟨r, hr, rfl⟩ := mem_entries.1 he
  obtain ⟨v, u, out, back, f, w, hpass⟩ := hof.passes r hr
  obtain ⟨c, i, j, hc⟩ := exists_crosses hn hp hf hk hx hpass
  exact ⟨c, i, j, ht.crosses hxy.symm hc⟩

/-! ### Two links between two routers -/

/-- A channel between new interfaces of two nodes, which are not connected to it yet. -/
def layCable (j k : NodeId) (name : String) (x y : Address) (cost : Nat) : NetworkM Unit := do
  let a ← addInterface j name (some x) (some linkMask) .serial
  let b ← addInterface k name (some y) (some linkMask) .serial
  setCost a (some (.ofNat cost))
  setCost b (some (.ofNat cost))
  discard (newChannel name)

theorem Operation.layCable (j k : NodeId) (name : String) (x y : Address) (cost : Nat) :
    Operation (layCable j k name x y cost) := by
  unfold Network.layCable
  rw [discard_eq_bind]
  exact .bind (.addInterface ..) fun _ => .bind (.addInterface ..) fun _ => .bind (.setCost ..)
    fun _ => .bind (.setCost ..) fun _ => .bind (.newChannel _) fun _ => .pure _

def cablesSetup : NetworkM ManagerId := do
  let a ← newRouterNode "A"
  let b ← newRouterNode "B"
  layCable a b "slow" ⟨10, 0, 0, 1⟩ ⟨10, 0, 0, 2⟩ 5
  layCable a b "fast" ⟨10, 0, 1, 1⟩ ⟨10, 0, 1, 2⟩ 1
  newManager (some [a, b])

def cables : Network := (exec cablesSetup .empty).2

/-- Two routers with two links between them. -/
def parallel : Network := (exec (connect 1 2 3) (exec (connect 0 0 1) cables).2).2

theorem cabled_parallel : parallel.Cabled := by
  have hcables : cables.Cabled := .other .empty
    (.bind (.newRouterNode _) fun _ => .bind (.newRouterNode _) fun _ => .bind (.layCable ..)
      fun _ => .bind (.layCable ..) fun _ => .newManager _) (by decide +kernel)
  exact .connect (.connect hcables 0 0 1 (by decide +kernel) (by decide +kernel)
    (by decide +kernel)) 1 2 3 (by decide +kernel) (by decide +kernel) (by decide +kernel)

theorem populate_linkedHops_parallel :
    parallel.Planned 0 ∧ parallel.Filed 0 ∧ ∃ report,
      (exec (populate 0) parallel).1 = .ok report ∧
        (exec (populate 0) parallel).2.LinkedHops 0 := by
  have hp : parallel.Planned 0 := by decide +kernel
  have hf : parallel.Filed 0 := by decide +kernel
  exact ⟨hp, hf, (populate_linkedHops (m := 0) cabled_parallel (by decide +kernel) hp hf).of_quiet
    (quiet_of_nil (by decide +kernel))⟩

/-- The near end of the better link has lost its node. -/
def strayed : Network := (exec (setNodeId 2 "") parallel).2

theorem cabled_strayed : strayed.Cabled :=
  .other cabled_parallel (.setNodeId 2 "") (by decide +kernel)

set_option maxRecDepth 10000 in
theorem map_globals_strayed : ((exec (populate 0) strayed).2.globals 0).map
    (fun e => (e.interface, e.nextHop)) = [("fast", some ⟨10, 0, 0, 2⟩)] := by
  cbv

/-- The far router does not see the better link, so that the router leaves by it and sends to an
address on the other. -/
theorem strayed_hops : strayed.Cabled ∧ strayed.Planned 0 ∧
    (∃ report, (exec (populate 0) strayed).1 = .ok report) ∧
      ¬ (exec (populate 0) strayed).2.LinkedHops 0 := by
  have hp : strayed.Planned 0 := by decide +kernel
  obtain ⟨report, hok, ht, -⟩ := (completes_populate (m := 0) cabled_strayed.reachable.wellFormed
    (by decide +kernel) hp.admissible).of_quiet (quiet_of_nil (by decide +kernel))
  refine ⟨cabled_strayed, hp, ⟨report, hok⟩, fun h => ?_⟩
  have hentry : ("fast", some (⟨10, 0, 0, 2⟩ : Address)) ∈
      ((exec (populate 0) strayed).2.globals 0).map fun e => (e.interface, e.nextHop) := by
    rw [map_globals_strayed]
    exact List.mem_singleton_self _
  obtain ⟨e, he, heq⟩ := List.mem_map.1 hentry
  obtain ⟨hname, hhop⟩ := Prod.mk.inj heq
  obtain ⟨x, hx⟩ : ∃ x, strayed.routerOf 0 = some x := ⟨_, rfl⟩
  obtain ⟨y, hy, hxy⟩ := ht.exists_blank hx
  have hmem : 0 ∈ (exec (populate 0) strayed).2.nodesOf 0 := by
    rw [ht.nodesOf]
    decide +kernel
  obtain ⟨c, i, j, hc⟩ := h 0 hmem y hy e he
  have hc := ht.symm.crosses hxy.symm hc
  -- the interface is on the second channel, whose other end has another address
  have hi := hc.interface
  rw [hname, show strayed.interfaceNamed? 0 "fast" = some 2 by decide +kernel] at hi
  obtain rfl := Option.some.inj hi
  have hchannel := hc.attached
  rw [show (strayed.interface 2).channel = some 1 by decide +kernel] at hchannel
  obtain rfl := Option.some.inj hchannel
  have hpeer := cabled_strayed.wired.peer?_iff.2 hc.joins
  rw [show (strayed.channel 1).peer? 2 = some 3 by decide +kernel] at hpeer
  obtain rfl := Option.some.inj hpeer
  obtain ⟨a, ha, hnext⟩ := hc.nextHop
  rw [show (strayed.interface 3).address = some ⟨10, 0, 1, 2⟩ by decide +kernel] at ha
  rw [hhop, ← ha] at hnext
  cases hnext

end Network

end LinkState
