import LinkState.Proofs.Inventory
import LinkState.Proofs.LinkedHops

/-! Discovery is symmetric. A channel between the interfaces of two routers gives each a link to the
other or neither, so that each advertises as many links to the other as the other to it, and each of
them passes the check of shortest paths that the far router links back. -/

namespace LinkState

namespace Network

variable {n : Network} {x y : Router} {c : ChannelId} {p q : InterfaceId} {k l : NodeId}
  {r : LinkRecord} {a b : Advertisement}

/-! ### What an interface contributes -/

/-- The record that an interface gives the advertisement of its router, if it gives one. -/
def contribution (n : Network) (x : Router) (i : InterfaceId) : Option LinkRecord :=
  match n.sighting x i with
  | .record r => some r
  | _ => none

theorem contribution_eq_some : n.contribution x p = some r ↔ n.sighting x p = .record r := by
  rw [contribution]
  cases n.sighting x p <;> simp

/-- The advertisement has what the interfaces contribute, in their order, and then stub networks. -/
def Composed (n : Network) (x : Router) (a : Advertisement) : Prop :=
  ∃ stubs, a.records = (n.node x.node).interfaces.filterMap (n.contribution x) ++ stubs ∧
    ∀ r ∈ stubs, r.type = .stubNetwork

theorem flatten_sightings {is : List InterfaceId} {links : List (List LinkRecord)}
    (h : (is.mapM fun i => (n.sighting x i).records) = .ok links) :
    links.flatten = is.filterMap (n.contribution x) := by
  induction is generalizing links with
  | nil =>
    obtain rfl := Except.ok.inj h
    rfl
  | cons i is ih =>
    obtain ⟨rs, rest, hi, his, rfl⟩ := mapM_cons_eq_ok h
    rw [List.flatten_cons, ih his, List.filterMap_cons, contribution]
    revert hi
    cases n.sighting x i with
    | unusableMask | malformed => nofun
    | record | down | nothing | noAddress | peerDown | peerNotRouter =>
      rintro ⟨⟩
      rfl

theorem composed_of_found (h : n.found x = .ok a.records) : n.Composed x a := by
  obtain ⟨links, stubs, hrecords, hl, hs⟩ := found_eq_ok h
  refine ⟨stubs, by rw [hrecords, flatten_sightings hl], fun r hr => ?_⟩
  obtain ⟨s, -, hstub⟩ := exists_of_mapM_ok hs hr
  exact stubRecord_type hstub

theorem found_of_advertises (hown : n.OwnRouter k) (hx : n.routerOf k = some x)
    (ha : n.advertises k = some a) : n.found x = .ok a.records := by
  obtain ⟨s, hs, rfl⟩ := Option.map_eq_some_iff.1 hx
  have hok : (exec (discover s) n).1 = .ok () := by
    rw [advertises, hs, Option.bind_some] at ha
    split at ha
    · next heq => rw [heq]
    · cases ha
  rw [advertises_of_ok hown hs hok] at ha
  obtain ⟨rs, hrs, rfl⟩ := Option.map_eq_some_iff.1 ha
  exact Search.toOption_eq_some_iff.1 hrs

/-! ### Channels between two nodes -/

structure Homed (n : Network) : Prop where
  address : ∀ i c, (n.interface i).channel = some c → (n.interface i).address.isSome
  node : ∀ i c, (n.interface i).channel = some c →
    ∃ k, n.registered? (n.interface i).nodeId = some k ∧ i ∈ (n.node k).interfaces

instance (n : Network) : Decidable n.Homed :=
  decidable_of_iff (∀ i < n.interfaces.size, ∀ c ∈ (n.interface i).channel,
      (n.interface i).address.isSome ∧
        ∃ k ∈ n.registered? (n.interface i).nodeId, i ∈ (n.node k).interfaces) <| by
    have lt (i : InterfaceId) (c : ChannelId) (hc : (n.interface i).channel = some c) :
        i < n.interfaces.size := by
      by_contra hi
      rw [interface, getD_of_le _ (Nat.le_of_not_lt hi)] at hc
      cases hc
    exact ⟨fun h =>
        ⟨fun i c hc => (h i (lt i c hc) c hc).1, fun i c hc => (h i (lt i c hc) c hc).2⟩,
      fun h i _ c hc => ⟨h.address i c hc, h.node i c hc⟩⟩

theorem Homed.filed (hh : n.Homed) (hn : n.Cabled) (hj : n.Joins c p q)
    (hp : p ∈ (n.node k).interfaces) : n.registered? (n.interface p).nodeId = some k := by
  obtain ⟨k', hk', hmem⟩ := hh.node p c (hn.wired.channel_eq hj)
  rwa [hn.reachable.oneNode k k' p hp hmem]

/-- What an interface on a channel contributes is a link along the channel. -/
theorem linkTo_of_contribution (hn : n.Wired) (hj : n.Joins c p q)
    (h : n.contribution x p = some r) :
    ∃ k y, n.LinkTo x c p q k y ∧ r.type = .pointToPoint ∧ y.id = r.id := by
  rw [contribution_eq_some] at h
  have hchannel := hn.channel_eq hj
  have htype := type_of_sighting h hchannel
  obtain ⟨c', j, k, y, hlink, hid⟩ := exists_linkTo hn h htype
  obtain rfl := Option.some.inj (hchannel.symm.trans (hn.channel_eq hlink.joins))
  obtain rfl := Option.some.inj ((hn.peer?_iff.2 hj).symm.trans (hn.peer?_iff.2 hlink.joins))
  exact ⟨k, y, hlink, htype, hid⟩

/-- The router sees a link at its end of a channel to another exactly if there is one. -/
theorem contribution_iff (hn : n.Cabled) (hh : n.Homed) (hj : n.Joins c p q)
    (hqmem : q ∈ (n.node l).interfaces) (hy : n.routerOf l = some y) {s : Address}
    (hs : (n.interface p).address = some s) :
    n.contribution x p = some ⟨.pointToPoint, y.id, s, costOf x.config (n.interface p)⟩ ↔
      n.LinkTo x c p q l y := by
  constructor
  · intro h
    obtain ⟨k', y', hlink, -⟩ := linkTo_of_contribution hn.wired hj h
    obtain rfl := Option.some.inj (hlink.filed.symm.trans (hh.filed hn hj.symm hqmem))
    obtain rfl := Option.some.inj (hlink.router.symm.trans hy)
    exact hlink
  · intro h
    exact contribution_eq_some.2 (h.sighting hn.wired hs)

def opposite? (n : Network) (p : InterfaceId) : Option InterfaceId :=
  (n.interface p).channel.bind fun c => (n.channel c).peer? p

theorem opposite?_eq_some (hn : n.Wired) : n.opposite? p = some q ↔ ∃ c, n.Joins c p q := by
  rw [opposite?, Option.bind_eq_some_iff]
  constructor
  · rintro ⟨c, -, hpeer⟩
    exact ⟨c, hn.peer?_iff.1 hpeer⟩
  · rintro ⟨c, hj⟩
    exact ⟨c, hn.channel_eq hj, hn.peer?_iff.2 hj⟩

theorem opposite?_symm (hn : n.Wired) (h : n.opposite? p = some q) : n.opposite? q = some p := by
  obtain ⟨c, hj⟩ := (opposite?_eq_some hn).1 h
  exact (opposite?_eq_some hn).2 ⟨c, hj.symm⟩

/-- The interfaces of a router that are on channels to a node. -/
def facing (n : Network) (x : Router) (l : NodeId) : List InterfaceId :=
  (n.node x.node).interfaces.filter fun p => (n.opposite? p).any (· ∈ (n.node l).interfaces)

/-- What a router advertises at its channels to a node. -/
def adjacencies (n : Network) (x : Router) (l : NodeId) : List LinkRecord :=
  (n.facing x l).filterMap (n.contribution x)

theorem mem_facing (hn : n.Wired) : p ∈ n.facing x l ↔
    p ∈ (n.node x.node).interfaces ∧ ∃ c q, n.Joins c p q ∧ q ∈ (n.node l).interfaces := by
  rw [facing, List.mem_filter, Option.any_eq_true]
  simp only [opposite?_eq_some hn, decide_eq_true_eq]
  refine and_congr_right fun _ => ⟨?_, ?_⟩
  · rintro ⟨q, ⟨c, hj⟩, hq⟩
    exact ⟨c, q, hj, hq⟩
  · rintro ⟨c, q, hj, hq⟩
    exact ⟨q, ⟨c, hj⟩, hq⟩

/-- Two routers of different nodes that take the same view of interfaces that are down. -/
structure Peers (n : Network) (k l : NodeId) (x y : Router) : Prop where
  ne : k ≠ l
  left : n.routerOf k = some x
  right : n.routerOf l = some y
  skipDown : x.config.skipDown.isOn = y.config.skipDown.isOn

theorem Peers.symm (h : n.Peers k l x y) : n.Peers l k y x :=
  ⟨h.ne.symm, h.right, h.left, h.skipDown.symm⟩

theorem Peers.left_node (h : n.Peers k l x y) (hn : n.Reachable) : x.node = k :=
  (hn.wellFormed.routers k).node_eq h.left

/-- A channel between the routers gives each a link to the other or neither. -/
theorem Peers.contribution_iff (h : n.Peers k l x y) (hn : n.Cabled) (hh : n.Homed)
    (hj : n.Joins c p q) (hp : p ∈ (n.node k).interfaces) (hq : q ∈ (n.node l).interfaces)
    {s t : Address} (hs : (n.interface p).address = some s)
    (ht : (n.interface q).address = some t) :
    n.contribution x p = some ⟨.pointToPoint, y.id, s, costOf x.config (n.interface p)⟩ ↔
      n.contribution y q = some ⟨.pointToPoint, x.id, t, costOf y.config (n.interface q)⟩ := by
  rw [Network.contribution_iff hn hh hj hq h.right hs,
    Network.contribution_iff hn hh hj.symm hp h.left ht]
  exact ⟨fun hl => hl.symm (hh.filed hn hj hp) h.left h.skipDown,
    fun hl => hl.symm (hh.filed hn hj.symm hq) h.right h.skipDown.symm⟩

/-- At a channel to the other router there is a link to it or nothing. -/
theorem Peers.link_of_contribution (h : n.Peers k l x y) (hn : n.Cabled) (hh : n.Homed)
    (hj : n.Joins c p q) (hq : q ∈ (n.node l).interfaces) (hr : n.contribution x p = some r) :
    n.LinkTo x c p q l y ∧ r.leadsTo y.id := by
  obtain ⟨k', y', hlink, htype, hid⟩ := linkTo_of_contribution hn.wired hj hr
  obtain rfl := Option.some.inj (hlink.filed.symm.trans (hh.filed hn hj.symm hq))
  obtain rfl := Option.some.inj (hlink.router.symm.trans h.right)
  exact ⟨hlink, LinkRecord.leadsTo_iff.2 ⟨htype, hid.symm⟩⟩

/-- Where the router sees a link at one end of a channel, the other sees one at the other end. -/
theorem Peers.exists_contribution (h : n.Peers k l x y) (hn : n.Cabled) (hh : n.Homed)
    (hj : n.Joins c p q) (hp : p ∈ (n.node k).interfaces) (hq : q ∈ (n.node l).interfaces)
    (hr : n.contribution x p = some r) : ∃ r', n.contribution y q = some r' ∧ r'.leadsTo x.id := by
  obtain ⟨hlink, -⟩ := h.link_of_contribution hn hh hj hq hr
  obtain ⟨t, ht⟩ := Option.isSome_iff_exists.1
    (hh.address q c (hn.wired.channel_eq hj.symm))
  have hback := hlink.symm (hh.filed hn hj hp) h.left h.skipDown
  exact ⟨_, contribution_eq_some.2 (hback.sighting hn.wired ht),
    LinkRecord.leadsTo_iff.2 ⟨rfl, rfl⟩⟩

/-! ### Counting -/

theorem nodup_interfaces (hn : n.Reachable) (k : NodeId) : (n.node k).interfaces.Nodup :=
  .of_map _ (.of_map _ (hn.wellFormed.names k))

/-- The interfaces at which a router advertises links to a node. -/
def links (n : Network) (x : Router) (l : NodeId) : List InterfaceId :=
  (n.facing x l).filter fun p => (n.contribution x p).isSome

theorem length_adjacencies : (n.adjacencies x l).length = (n.links x l).length := by
  rw [adjacencies, List.length_filterMap_eq_countP, links, List.countP_eq_length_filter]

/-- The far end of a link of one router is the end of a link of the other. -/
theorem Peers.exists_far (h : n.Peers k l x y) (hn : n.Cabled) (hh : n.Homed)
    (hp : p ∈ n.links x l) : ∃ q ∈ n.links y k, n.opposite? p = some q := by
  obtain ⟨hface, hsome⟩ := List.mem_filter.1 hp
  obtain ⟨hpmem, c, q, hj, hq⟩ := (mem_facing hn.wired).1 hface
  obtain ⟨r, hr⟩ := Option.isSome_iff_exists.1 hsome
  rw [h.left_node hn.reachable] at hpmem
  obtain ⟨r', hr', -⟩ := h.exists_contribution hn hh hj hpmem hq hr
  have hqface : q ∈ n.facing y k := (mem_facing hn.wired).2
    ⟨(h.symm.left_node hn.reachable).symm ▸ hq, c, p, hj.symm, hpmem⟩
  exact ⟨q, List.mem_filter.2 ⟨hqface, hr' ▸ rfl⟩, (opposite?_eq_some hn.wired).2 ⟨c, hj⟩⟩

theorem Peers.length_links_le (h : n.Peers k l x y) (hn : n.Cabled) (hh : n.Homed) :
    (n.links x l).length ≤ (n.links y k).length := by
  have hlength : ((n.links x l).filterMap n.opposite?).length = (n.links x l).length := by
    rw [List.length_filterMap_eq_countP, List.countP_eq_length]
    intro p hp
    obtain ⟨q, -, hq⟩ := h.exists_far hn hh hp
    rw [hq]
    rfl
  have hnodup : ((n.links x l).filterMap n.opposite?).Nodup := by
    refine List.Nodup.filterMap (fun p p' q hp hp' => ?_)
      (((nodup_interfaces hn.reachable _).filter _).filter _)
    -- the two interfaces are at the one other end of the channel of `q`
    have hback := opposite?_symm hn.wired hp
    have hback' := opposite?_symm hn.wired hp'
    exact Option.some.inj (hback.symm.trans hback')
  rw [← hlength]
  refine (hnodup.subperm fun q hq => ?_).length_le
  obtain ⟨p, hp, hopp⟩ := List.mem_filterMap.1 hq
  obtain ⟨q', hq', hfar⟩ := h.exists_far hn hh hp
  rwa [← Option.some.inj (hfar.symm.trans hopp)]

/-! ### What the advertisements say -/

def Unshared (n : Network) (l : NodeId) : Prop :=
  ∀ id j x y, n.registered? id = some j → n.routerOf l = some x → n.routerOf j = some y →
    x.id = y.id → l = j

/-- The check that a search makes of a link of the router `u`: the far router links back. -/
def TwoWay (db : Database Advertisement) (u : Address) (r : LinkRecord) : Prop :=
  ((db.get? r.id).filter (Search.linksBack · u)).isSome

/-- What the advertisement `a` of the router `x` of `k` says of the router `y` of `l`, which
advertises `b`. -/
structure Adjacent (n : Network) (k l : NodeId) (x y : Router) (a b : Advertisement) : Prop where
  composed : n.Composed x a
  /-- A channel between them gives each a link to the other or neither. -/
  each : ∀ c p q, n.Joins c p q → p ∈ (n.node k).interfaces → q ∈ (n.node l).interfaces →
    ∃ s t, (n.interface p).address = some s ∧ (n.interface q).address = some t ∧
      (n.contribution x p = some ⟨.pointToPoint, y.id, s, costOf x.config (n.interface p)⟩ ↔
        n.contribution y q = some ⟨.pointToPoint, x.id, t, costOf y.config (n.interface q)⟩)
  records : ∀ r ∈ n.adjacencies x l, r ∈ a.records ∧ r.leadsTo y.id
  count : (n.adjacencies x l).length = (n.adjacencies y k).length
  twoWay : ∀ db : Database Advertisement, db.get? y.id = some b →
    ∀ r ∈ n.adjacencies x l, TwoWay db x.id r
  /-- An ID that no other router has tells the links to the router from all others. -/
  linksTo : n.Unshared l → a.linksTo y.id = n.adjacencies x l

theorem Peers.mem_adjacencies (h : n.Peers k l x y) (hn : n.Cabled) : r ∈ n.adjacencies x l ↔
    ∃ p ∈ (n.node k).interfaces, ∃ c q, n.Joins c p q ∧ q ∈ (n.node l).interfaces ∧
      n.contribution x p = some r := by
  rw [adjacencies, List.mem_filterMap]
  simp only [mem_facing hn.wired, h.left_node hn.reachable]
  constructor
  · rintro ⟨p, ⟨hp, c, q, hj, hq⟩, hr⟩
    exact ⟨p, hp, c, q, hj, hq, hr⟩
  · rintro ⟨p, hp, c, q, hj, hq, hr⟩
    exact ⟨p, ⟨hp, c, q, hj, hq⟩, hr⟩

/-- A link to the ID of a router that does not share it is at a channel to its node. -/
theorem Peers.facing_of_leadsTo (h : n.Peers k l x y) (hn : n.Cabled) (hh : n.Homed)
    (hunshared : n.Unshared l) (hr : n.contribution x p = some r) (hto : r.leadsTo y.id) :
    (n.opposite? p).any (· ∈ (n.node l).interfaces) = true := by
  obtain ⟨htype, hid⟩ := LinkRecord.leadsTo_iff.1 hto
  obtain ⟨c, q, j, z, hlink, hz⟩ := exists_linkTo hn.wired (contribution_eq_some.1 hr) htype
  obtain rfl := hunshared _ j y z hlink.filed h.right hlink.router (hid.symm.trans hz.symm)
  obtain ⟨j', hj', hmem⟩ := hh.node q c (hn.wired.channel_eq hlink.joins.symm)
  obtain rfl := Option.some.inj (hlink.filed.symm.trans hj')
  rw [(opposite?_eq_some hn.wired).2 ⟨c, hlink.joins⟩]
  exact decide_eq_true hmem

theorem Peers.linksTo_eq (h : n.Peers k l x y) (hn : n.Cabled) (hh : n.Homed)
    (hunshared : n.Unshared l) (ha : n.Composed x a) : a.linksTo y.id = n.adjacencies x l := by
  obtain ⟨stubs, hrecords, hstubs⟩ := ha
  have hnone : stubs.filter (·.leadsTo y.id) = [] := by
    rw [List.filter_eq_nil_iff]
    intro r hr hto
    cases (hstubs r hr).symm.trans (LinkRecord.leadsTo_iff.1 hto).1
  rw [Advertisement.linksTo, hrecords, List.filter_append, hnone, List.append_nil, adjacencies,
    facing, List.filter_filterMap, List.filterMap_filter]
  refine List.filterMap_congr fun p hp => ?_
  cases hr : n.contribution x p with
  | none => split <;> rfl
  | some r =>
    rw [Option.filter_some]
    refine if_congr ⟨h.facing_of_leadsTo hn hh hunshared hr, fun hface => ?_⟩ rfl rfl
    obtain ⟨q, hq, hmem⟩ := (Option.any_eq_true ..).1 hface
    obtain ⟨c, hj⟩ := (opposite?_eq_some hn.wired).1 hq
    exact (h.link_of_contribution hn hh hj (of_decide_eq_true hmem) hr).2

theorem Peers.adjacent (h : n.Peers k l x y) (hn : n.Cabled) (hh : n.Homed)
    (ha : n.Composed x a) (hb : n.Composed y b) : n.Adjacent k l x y a b where
  composed := ha
  each c p q hj hp hq := by
    obtain ⟨s, hs⟩ := Option.isSome_iff_exists.1 (hh.address p c (hn.wired.channel_eq hj))
    obtain ⟨t, ht⟩ := Option.isSome_iff_exists.1 (hh.address q c (hn.wired.channel_eq hj.symm))
    exact ⟨s, t, hs, ht, h.contribution_iff hn hh hj hp hq hs ht⟩
  records r hr := by
    obtain ⟨stubs, hrecords, -⟩ := ha
    obtain ⟨p, hp, c, q, hj, hq, hr⟩ := (h.mem_adjacencies hn).1 hr
    rw [hrecords]
    rw [← h.left_node hn.reachable] at hp
    exact ⟨List.mem_append_left _ (List.mem_filterMap.2 ⟨p, hp, hr⟩),
      (h.link_of_contribution hn hh hj hq hr).2⟩
  count := by
    rw [length_adjacencies, length_adjacencies]
    exact le_antisymm (h.length_links_le hn hh) (h.symm.length_links_le hn hh)
  twoWay db hdb r hr := by
    obtain ⟨stubs, hrecords, -⟩ := hb
    obtain ⟨p, hp, c, q, hj, hq, hr⟩ := (h.mem_adjacencies hn).1 hr
    obtain ⟨r', hr', hback⟩ := h.exists_contribution hn hh hj hp hq hr
    have hmem : r' ∈ b.records := by
      rw [hrecords]
      rw [← h.symm.left_node hn.reachable] at hq
      exact List.mem_append_left _ (List.mem_filterMap.2 ⟨q, hq, hr'⟩)
    have hid := (LinkRecord.leadsTo_iff.1 (h.link_of_contribution hn hh hj hq hr).2).2
    have hlinks : Search.linksBack b x.id = true := List.any_eq_true.2 ⟨r', hmem, hback⟩
    rw [TwoWay, hid, hdb, Option.filter_some, if_pos hlinks]
    rfl
  linksTo hunshared := h.linksTo_eq hn hh hunshared ha

/-- Routers that complete discovery advertise each other alike. -/
theorem discover_symmetric (hn : n.Cabled) (hh : n.Homed)
    (h : n.Peers k l x y) (ha : n.advertises k = some a) (hb : n.advertises l = some b) :
    n.Adjacent k l x y a b ∧ n.Adjacent l k y x b a ∧
      (n.Unshared k → n.Unshared l → (a.linksTo y.id).length = (b.linksTo x.id).length) := by
  have hown := hn.reachable.wellFormed.routers
  have hxa := composed_of_found (found_of_advertises (hown k) h.left ha)
  have hyb := composed_of_found (found_of_advertises (hown l) h.right hb)
  have hxy := h.adjacent hn hh hxa hyb
  have hyx := h.symm.adjacent hn hh hyb hxa
  refine ⟨hxy, hyx, fun hk hl => ?_⟩
  rw [hxy.linksTo hl, hyx.linksTo hk, hxy.count]

/-- The two routers, with the far end of the better link down. -/
def halfDown : Network := (exec (setUp 3 false) parallel).2

theorem cabled_halfDown : halfDown.Cabled :=
  .other cabled_parallel (.setUp 3 false) (by decide +kernel)

theorem discover_symmetric_halfDown :
    halfDown.Homed ∧
      ∃ a b, halfDown.Peers 0 1 (halfDown.router 0) (halfDown.router 1) ∧
        halfDown.advertises 0 = some a ∧ halfDown.advertises 1 = some b ∧
        a.records.map (·.data) = [⟨10, 0, 0, 1⟩] ∧
        halfDown.Adjacent 0 1 (halfDown.router 0) (halfDown.router 1) a b ∧
        halfDown.Adjacent 1 0 (halfDown.router 1) (halfDown.router 0) b a := by
  have hh : halfDown.Homed := by decide +kernel
  have hpeers : halfDown.Peers 0 1 (halfDown.router 0) (halfDown.router 1) :=
    ⟨by decide, rfl, rfl, by decide +kernel⟩
  have hdata : (halfDown.advertises 0).map (·.records.map (·.data)) = some [⟨10, 0, 0, 1⟩] := by
    decide +kernel
  obtain ⟨a, ha, hrecords⟩ := Option.map_eq_some_iff.1 hdata
  obtain ⟨b, hb⟩ : ∃ b, halfDown.advertises 1 = some b :=
    Option.isSome_iff_exists.1 (by decide +kernel)
  obtain ⟨hxy, hyx, -⟩ := discover_symmetric cabled_halfDown hh hpeers ha hb
  exact ⟨hh, a, b, hpeers, ha, hb, hrecords, hxy, hyx⟩

end Network

end LinkState
