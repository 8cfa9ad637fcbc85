import LinkState.Proofs.Population
import LinkState.Proofs.Wiring

/-! Links between routers. Discovery sees one where an interface with an address is on a channel
with two ends and the node of the other end has a router. Both routers see it if each end is filed
under its own node. -/

namespace LinkState

namespace Network

variable {n : Network} {x y : Router} {c : ChannelId} {i j : InterfaceId} {k : NodeId}

/-- From the interface `i` of the router `x` the channel leads to the interface `j`, which is filed
under the node `k` of the router `y`. Where interfaces that are down are left out, both are up. -/
structure LinkTo (n : Network) (x : Router) (c : ChannelId) (i j : InterfaceId) (k : NodeId)
    (y : Router) : Prop where
  joins : n.Joins c i j
  filed : n.registered? (n.interface j).nodeId = some k
  router : n.routerOf k = some y
  up : x.config.skipDown.isOn → (n.interface i).isUp ∧ (n.interface j).isUp

theorem LinkTo.ownerRouter (h : n.LinkTo x c i j k y) : n.ownerRouter? j = some y := by
  rw [ownerRouter?, h.filed]
  exact h.router

/-- A link leads back if its near end is filed too, for routers of one view of what is down. -/
theorem LinkTo.symm (h : n.LinkTo x c i j k y) {k' : NodeId}
    (hfiled : n.registered? (n.interface i).nodeId = some k') (hx : n.routerOf k' = some x)
    (hskip : x.config.skipDown.isOn = y.config.skipDown.isOn) : n.LinkTo y c j i k' x where
  joins := h.joins.symm
  filed := hfiled
  router := hx
  up hy := (h.up (hskip.trans hy)).symm

theorem exists_linkTo (hn : n.Wired) {r : LinkRecord} (h : n.sighting x i = .record r)
    (htype : r.type = .pointToPoint) : ∃ c j k y, n.LinkTo x c i j k y ∧ y.id = r.id := by
  unfold sighting at h
  dsimp only at h
  split at h
  · cases h
  next hup =>
  split at h
  · rw [sightStub_type h] at htype
    cases htype
  next ch hch =>
  obtain ⟨c, hc, rfl⟩ := Option.map_eq_some_iff.1 hch
  split at h
  · cases h
  split at h
  · cases h
  unfold sightLink at h
  split at h
  · cases h
  next j hj =>
  split at h
  · cases h
  next y hy =>
  obtain ⟨hpeer, hupj⟩ := Option.filter_eq_some_iff.1 hj
  obtain ⟨k, hk, hrouter⟩ := Option.bind_eq_some_iff.1 hy
  refine ⟨c, j, k, y, ⟨hn.peer?_iff.1 hpeer, hk, hrouter, fun hskip => ?_⟩, ?_⟩
  · simp only [hskip, Bool.true_and, Bool.not_true, Bool.false_or, Bool.not_eq_true,
      Bool.not_eq_false'] at hup hupj
    exact ⟨hup, hupj⟩
  · exact (Sighting.record.inj h) ▸ rfl

theorem LinkTo.sighting (hn : n.Wired) (h : n.LinkTo x c i j k y) {a : Address}
    (ha : (n.interface i).address = some a) :
    n.sighting x i = .record ⟨.pointToPoint, y.id, a, costOf x.config (n.interface i)⟩ := by
  have hchannel := hn.channel_eq h.joins
  have htwo : (n.channel c).isPointToPoint = true := by
    rcases h.joins with he | he <;> simp [Channel.isPointToPoint, he]
  have hpeer := hn.peer?_iff.2 h.joins
  have hup : ¬ (x.config.skipDown.isOn && !(n.interface i).isUp) = true := by
    cases hskip : x.config.skipDown.isOn
    · simp
    · simp [(h.up hskip).1]
  have hfilter : ((n.channel c).peer? i).filter
      (fun j => !x.config.skipDown.isOn || (n.interface j).isUp) = some j := by
    rw [hpeer, Option.filter_some, if_pos]
    cases hskip : x.config.skipDown.isOn
    · simp
    · simp [(h.up hskip).2]
  rw [Network.sighting, if_neg hup, hchannel, Option.map_some]
  dsimp only
  rw [htwo, if_neg (by simp), ha]
  dsimp only
  rw [sightLink, hfilter]
  dsimp only
  rw [h.ownerRouter]

/-! ### Links in the database -/

/-- A link in the database is one of the router of one of the nodes. -/
theorem linkTo_of_lists (hn : n.Wired) (hown : ∀ k, n.OwnRouter k) {ks : List NodeId}
    {u v : Address} {r : LinkRecord} (h : Lists (n.linkState ks) u r) (hto : r.leadsTo v) :
    ∃ k ∈ ks, ∃ x, n.routerOf k = some x ∧ x.id = u ∧
      ∃ i ∈ (n.node k).interfaces, (n.interface i).address = some r.data ∧
        ∃ c j l y, n.LinkTo x c i j l y ∧ y.id = v := by
  obtain ⟨htype, rfl⟩ := LinkRecord.leadsTo_iff.1 hto
  obtain ⟨k, hk, x, hx, hid, i, hi, hs⟩ := sighting_of_lists hown h htype
  exact ⟨k, hk, x, hx, hid, i, hi, address_of_sighting hs htype, exists_linkTo hn hs htype⟩

/-- A link of a router of one of the nodes is in the database, if the router is. -/
theorem LinkTo.exists_lists (hn : n.Wired) (h : n.LinkTo x c i j k y) {ks : List NodeId}
    (hids : n.DistinctIds ks) {l : NodeId} (hl : l ∈ ks) (hown : n.OwnRouter l)
    (hx : n.routerOf l = some x) (hi : i ∈ (n.node l).interfaces) {a : Address}
    (ha : (n.interface i).address = some a) (hsome : ((n.linkState ks).get? x.id).isSome) :
    ∃ r, Lists (n.linkState ks) x.id r ∧ r.leadsTo y.id ∧ r.data = a :=
  ⟨_, lists_of_sighting hids hl hown hx hi (h.sighting hn ha) hsome,
    LinkRecord.leadsTo_iff.2 ⟨rfl, rfl⟩, rfl⟩

end Network

end LinkState
