import LinkState.Network.Databases
import LinkState.Network.Installation
import Mathlib

/-! The topology of a network: nodes, routers, interfaces, channels, and who refers to whom.
Computing routes leaves all of it as it is, and what discovery sees depends on nothing else. -/

namespace LinkState

theorem map_modify_of_comp {α β : Type} {f : α → α} {g : α → β} (h : ∀ a, g (f a) = g a)
    (xs : Array α) (i : Nat) : (xs.modify i f).map g = xs.map g := by
  refine Array.ext (by simp) fun j hj hj' => ?_
  rw [Array.getElem_map, Array.getElem_map, Array.getElem_modify]
  split
  · exact h _
  · rfl

theorem getD_of_map_eq {α β : Type} {g : α → β} {xs ys : Array α} (h : xs.map g = ys.map g)
    (i : Nat) (d : α) : g (xs.getD i d) = g (ys.getD i d) := by
  have hi := congrArg (·[i]?) h
  simp only [Array.getElem?_map] at hi
  rw [Array.getD_eq_getD_getElem?, Array.getD_eq_getD_getElem?, ← Option.getD_map g, hi,
    Option.getD_map]

theorem getD_of_le {γ : Type} (xs : Array γ) {i : Nat} (h : xs.size ≤ i) (d : γ) :
    xs.getD i d = d := by
  rw [Array.getD_eq_getD_getElem?, Array.getElem?_eq_none h, Option.getD_none]

/-- What holds of the default and of all that is stored holds of what is found. -/
theorem forall_getD {γ : Type} {P : γ → Prop} {xs : Array γ} {d : γ} (h : ∀ x ∈ xs, P x)
    (hd : P d) (i : Nat) : P (xs.getD i d) := by
  by_cases hi : i < xs.size
  · rw [Array.getD_eq_getD_getElem?, Array.getElem?_eq_getElem hi]
    exact h _ (Array.getElem_mem hi)
  · rwa [getD_of_le xs (Nat.le_of_not_lt hi)]

theorem getD_push {γ : Type} (xs : Array γ) (a d : γ) (i : Nat) :
    (xs.push a).getD i d = if i = xs.size then a else xs.getD i d := by
  rw [Array.getD_eq_getD_getElem?, Array.getElem?_push, Array.getD_eq_getD_getElem?]
  split <;> rfl

theorem getD_modify {γ : Type} (xs : Array γ) (f : γ → γ) (i j : Nat) (d : γ) :
    (xs.modify i f).getD j d = if j = i ∧ i < xs.size then f (xs.getD i d) else xs.getD j d := by
  simp only [Array.getD_eq_getD_getElem?, Array.getElem?_modify]
  by_cases hj : j = i
  · by_cases hi : i < xs.size <;> simp [hj, hi]
  · simp [hj, Ne.symm hj]

theorem getD_setIfInBounds {γ : Type} (xs : Array γ) (a d : γ) (i j : Nat) :
    (xs.setIfInBounds i a).getD j d = if j = i ∧ i < xs.size then a else xs.getD j d := by
  simp only [Array.getD_eq_getD_getElem?, Array.getElem?_setIfInBounds]
  by_cases hj : j = i
  · by_cases hi : i < xs.size <;> simp [hj, hi]
  · simp [hj, Ne.symm hj]

def Router.blank (x : Router) : Router := { x with advertisement := none }

theorem Router.blank_eq_iff {x y : Router} :
    x.blank = y.blank ↔ x.node = y.node ∧ x.id = y.id ∧ x.config = y.config := by
  simp [blank]

namespace Network

variable {n n' n'' : Network}

def OwnRouter (n : Network) (k : NodeId) : Prop :=
  ∀ r, (n.node k).router = some r → r < n.routers.size ∧ (n.router r).node = k

theorem OwnRouter.node_eq {k : NodeId} (hown : n.OwnRouter k) {x : Router}
    (hx : n.routerOf k = some x) : x.node = k := by
  obtain ⟨r, hr, rfl⟩ := Option.map_eq_some_iff.1 hx
  exact (hown r hr).2

structure SameTopology (n n' : Network) : Prop where
  environment : n'.environment = n.environment
  interfaces : n'.interfaces = n.interfaces
  channels : n'.channels = n.channels
  nodes : n'.nodes = n.nodes
  registry : n'.registry = n.registry
  routers : n'.routers.map Router.blank = n.routers.map Router.blank
  managers : n'.managers = n.managers
  searchers : n'.searchers.map Searcher.database = n.searchers.map Searcher.database
  tables : n'.tables.size = n.tables.size
  databases : n'.databases.size = n.databases.size

namespace SameTopology

theorem refl (n : Network) : SameTopology n n :=
  ⟨rfl, rfl, rfl, rfl, rfl, rfl, rfl, rfl, rfl, rfl⟩

theorem symm (h : SameTopology n n') : SameTopology n' n :=
  ⟨h.environment.symm, h.interfaces.symm, h.channels.symm, h.nodes.symm, h.registry.symm,
    h.routers.symm, h.managers.symm, h.searchers.symm, h.tables.symm, h.databases.symm⟩

theorem trans (h : SameTopology n n') (h' : SameTopology n' n'') : SameTopology n n'' :=
  ⟨h'.environment.trans h.environment, h'.interfaces.trans h.interfaces,
    h'.channels.trans h.channels, h'.nodes.trans h.nodes, h'.registry.trans h.registry,
    h'.routers.trans h.routers, h'.managers.trans h.managers, h'.searchers.trans h.searchers,
    h'.tables.trans h.tables, h'.databases.trans h.databases⟩

theorem interface (h : SameTopology n n') (i : InterfaceId) : n'.interface i = n.interface i := by
  rw [Network.interface, h.interfaces, Network.interface]

theorem channel (h : SameTopology n n') (c : ChannelId) : n'.channel c = n.channel c := by
  rw [Network.channel, h.channels, Network.channel]

theorem node (h : SameTopology n n') (k : NodeId) : n'.node k = n.node k := by
  rw [Network.node, h.nodes, Network.node]

theorem router (h : SameTopology n n') (r : RouterId) :
    (n'.router r).blank = (n.router r).blank := getD_of_map_eq h.routers r default

theorem router_id (h : SameTopology n n') (r : RouterId) : (n'.router r).id = (n.router r).id :=
  (Router.blank_eq_iff.1 (h.router r)).2.1

theorem router_node (h : SameTopology n n') (r : RouterId) :
    (n'.router r).node = (n.router r).node := (Router.blank_eq_iff.1 (h.router r)).1

theorem routers_size (h : SameTopology n n') : n'.routers.size = n.routers.size := by
  have := congrArg Array.size h.routers
  rwa [Array.size_map, Array.size_map] at this

theorem searcher (h : SameTopology n n') (s : SearcherId) :
    (n'.searcher s).database = (n.searcher s).database := getD_of_map_eq h.searchers s default

theorem manager (h : SameTopology n n') (m : ManagerId) : n'.manager m = n.manager m := by
  rw [Network.manager, h.managers, Network.manager]

theorem interfacesOf (h : SameTopology n n') (k : NodeId) :
    n'.interfacesOf k = n.interfacesOf k := by
  rw [Network.interfacesOf, h.node, Network.interfacesOf]
  exact List.map_congr_left fun i _ => h.interface i

theorem routerOf (h : SameTopology n n') (k : NodeId) :
    (n'.routerOf k).map Router.blank = (n.routerOf k).map Router.blank := by
  rw [Network.routerOf, h.node, Network.routerOf, Option.map_map, Option.map_map]
  exact congrArg (Option.map · _) (funext h.router)

theorem exists_blank (h : SameTopology n n') {k : NodeId} {x : Router}
    (hx : n.routerOf k = some x) :
    ∃ y, n'.routerOf k = some y ∧ y.blank = x.blank := by
  have hk := h.routerOf k
  rwa [hx, Option.map_some, Option.map_eq_some_iff] at hk

theorem exists_router (h : SameTopology n n') {k : NodeId} {x : Router}
    (hx : n.routerOf k = some x) :
    ∃ y, n'.routerOf k = some y ∧ y.id = x.id := by
  obtain ⟨y, hy, hblank⟩ := h.exists_blank hx
  exact ⟨y, hy, (Router.blank_eq_iff.1 hblank).2.1⟩

theorem byIndex (h : SameTopology n n') (ks : List NodeId) : n'.byIndex ks = n.byIndex ks := by
  simp only [Network.byIndex, h.node]

theorem nodesOf (h : SameTopology n n') (m : ManagerId) : n'.nodesOf m = n.nodesOf m := by
  simp only [Network.nodesOf, Network.registeredNodes, h.manager, h.registry, h.byIndex]

theorem ownRouter (h : SameTopology n n') {k : NodeId} (hk : n.OwnRouter k) : n'.OwnRouter k := by
  intro r hr
  rw [h.node] at hr
  rw [h.routers_size, h.router_node]
  exact hk r hr

/-- What an interface contributes depends on the topology, and on the node and the configuration of
the router that asks. -/
theorem sighting (h : SameTopology n n') {x x' : Router} (hx : x'.blank = x.blank)
    (i : InterfaceId) : n'.sighting x' i = n.sighting x i := by
  obtain ⟨hnode, -, hconfig⟩ := Router.blank_eq_iff.1 hx
  have howner (j : InterfaceId) :
      (n'.ownerRouter? j).map Router.blank = (n.ownerRouter? j).map Router.blank := by
    rw [ownerRouter?, ownerRouter?, registered?, registered?, h.registry, h.interface,
      Option.map_bind, Option.map_bind]
    exact congrArg (Option.bind _) (funext h.routerOf)
  have hlink (c : Channel) (a : Address) :
      sightLink n' x.config i c a = sightLink n x.config i c a := by
    simp only [sightLink, h.interface]
    split
    · rfl
    · next j _ =>
      have hj := howner j
      revert hj
      cases n'.ownerRouter? j <;> cases n.ownerRouter? j <;>
        simp +contextual [Router.blank_eq_iff]
  simp only [Network.sighting, h.interface, h.node, hnode, hconfig, hlink, funext h.channel]

end SameTopology

end Network

end LinkState
