import LinkState.Network.Installation
import LinkState.Network.Nodes
import LinkState.Proofs.Copies
import LinkState.Proofs.Operation
import LinkState.Proofs.Topology

/-! A network is well formed if each router is on its own node, each node has a table of its own and
interfaces with different names, and each manager searches its own database. Most operations leave
all of this as it is: whatever comes of them, things are only added or changed in other respects. -/

namespace LinkState

/-- An array goes on from another, as far as `f` tells them apart. -/
def Extends {α β : Type} (f : α → β) (xs ys : Array α) : Prop :=
  xs.toList.map f <+: ys.toList.map f

namespace Extends

variable {α β : Type} {f : α → β} {xs ys zs : Array α}

theorem refl (f : α → β) (xs : Array α) : Extends f xs xs := List.prefix_refl _

theorem trans (h : Extends f xs ys) (h' : Extends f ys zs) : Extends f xs zs :=
  List.IsPrefix.trans h h'

theorem push (f : α → β) (xs : Array α) (a : α) : Extends f xs (xs.push a) := by
  simp [Extends]

theorem modify {g : α → α} (h : ∀ a, f (g a) = f a) (xs : Array α) (i : Nat) :
    Extends f xs (xs.modify i g) := by
  have hm := congrArg Array.toList (map_modify_of_comp h xs i)
  rw [Array.toList_map, Array.toList_map] at hm
  simp only [Extends, hm, List.prefix_refl]

theorem size_le (h : Extends f xs ys) : xs.size ≤ ys.size := by
  simpa using h.length_le

theorem getD (h : Extends f xs ys) {i : Nat} (hi : i < xs.size) (d : α) :
    f (ys.getD i d) = f (xs.getD i d) := by
  have hys : i < ys.size := Nat.lt_of_lt_of_le hi h.size_le
  have hget := List.IsPrefix.getElem h (i := i) (by simpa using hi)
  simpa [Array.getD_eq_getD_getElem?, hi, hys] using hget.symm

end Extends

/-- What a node is made of: its interfaces, its table and its router. -/
def Node.frame (x : Node) : List InterfaceId × TableId × Option RouterId :=
  (x.interfaces, x.table, x.router)

namespace Network

variable {α β : Type} {n n' n'' : Network}

structure WellFormed (n : Network) : Prop where
  routers : ∀ k, n.OwnRouter k
  tables : ∀ k < n.nodes.size, (n.node k).table < n.tables.size
  ownTable : ∀ j < n.nodes.size, ∀ k < n.nodes.size, (n.node j).table = (n.node k).table → j = k
  interfaces : ∀ k, ∀ i ∈ (n.node k).interfaces, i < n.interfaces.size
  names : ∀ k, ((n.interfacesOf k).map Interface.name).Nodup
  searchers : ∀ m < n.managers.size, (n.manager m).searcher < n.searchers.size ∧
    (n.searcher (n.manager m).searcher).database = (n.manager m).database
  databases : ∀ m < n.managers.size, (n.manager m).database < n.databases.size

/-- Nodes are made of the same things and managers refer to the same ones, in the same environment;
the rest may grow. -/
structure Grows (n n' : Network) : Prop where
  environment : n'.environment = n.environment
  nodes : n'.nodes.map Node.frame = n.nodes.map Node.frame
  managers : n'.managers = n.managers
  interfaces : Extends Interface.name n.interfaces n'.interfaces
  routers : Extends Router.node n.routers n'.routers
  searchers : Extends Searcher.database n.searchers n'.searchers
  tables : n.tables.size ≤ n'.tables.size
  databases : n.databases.size ≤ n'.databases.size
  stores : n.stores.size ≤ n'.stores.size
  copies : ∀ d, n.OwnCopies d → n'.OwnCopies d

namespace Grows

theorem refl (n : Network) : Grows n n :=
  ⟨rfl, rfl, rfl, .refl _ _, .refl _ _, .refl _ _, le_rfl, le_rfl, le_rfl, fun _ => id⟩

theorem same (environment : n'.environment = n.environment) (nodes : n'.nodes = n.nodes)
    (managers : n'.managers = n.managers) (interfaces : n'.interfaces = n.interfaces)
    (routers : n'.routers = n.routers) (searchers : n'.searchers = n.searchers)
    (tables : n'.tables.size = n.tables.size) (databases : n'.databases = n.databases)
    (stores : n.stores.size ≤ n'.stores.size)
    (advertisements : n.advertisements.size ≤ n'.advertisements.size) : Grows n n' := by
  refine ⟨environment, by rw [nodes], managers, ?_, ?_, ?_, tables.ge, by rw [databases], stores,
    fun _ h => h.of_eq databases advertisements⟩
  · rw [interfaces]
    exact .refl _ _
  · rw [routers]
    exact .refl _ _
  · rw [searchers]
    exact .refl _ _

theorem trans (h : Grows n n') (h' : Grows n' n'') : Grows n n'' :=
  ⟨h'.environment.trans h.environment, h'.nodes.trans h.nodes, h'.managers.trans h.managers,
    h.interfaces.trans h'.interfaces, h.routers.trans h'.routers, h.searchers.trans h'.searchers,
    h.tables.trans h'.tables, h.databases.trans h'.databases, h.stores.trans h'.stores,
    fun d hd => h'.copies d (h.copies d hd)⟩

theorem frame (h : Grows n n') (k : NodeId) : (n'.node k).frame = (n.node k).frame :=
  getD_of_map_eq h.nodes k default

theorem nodes_size (h : Grows n n') : n'.nodes.size = n.nodes.size := by
  simpa using congrArg Array.size h.nodes

end Grows

theorem Grows.interfaces_eq (h : Grows n n') (k : NodeId) :
    (n'.node k).interfaces = (n.node k).interfaces := congrArg (·.1) (h.frame k)

theorem WellFormed.map_name (hn : n.WellFormed) (h : Grows n n') (k : NodeId) :
    (n'.interfacesOf k).map Interface.name = (n.interfacesOf k).map Interface.name := by
  rw [interfacesOf, interfacesOf, h.interfaces_eq, List.map_map, List.map_map]
  exact List.map_congr_left fun i hi => h.interfaces.getD (hn.interfaces k i hi) default

theorem WellFormed.grows (hn : n.WellFormed) (h : Grows n n') : n'.WellFormed := by
  have htable (k : NodeId) : (n'.node k).table = (n.node k).table :=
    congrArg (·.2.1) (h.frame k)
  have hrouter (k : NodeId) : (n'.node k).router = (n.node k).router :=
    congrArg (·.2.2) (h.frame k)
  have hmanager (m : ManagerId) : n'.manager m = n.manager m := by
    rw [manager, h.managers, manager]
  constructor
  · intro k r hr
    obtain ⟨hlt, hnode⟩ := hn.routers k r (hrouter k ▸ hr)
    exact ⟨Nat.lt_of_lt_of_le hlt h.routers.size_le, (h.routers.getD hlt default).trans hnode⟩
  · intro k hk
    rw [htable]
    exact Nat.lt_of_lt_of_le (hn.tables k (h.nodes_size ▸ hk)) h.tables
  · intro j hj k hk ht
    rw [h.nodes_size] at hj hk
    rw [htable, htable] at ht
    exact hn.ownTable j hj k hk ht
  · intro k i hi
    rw [h.interfaces_eq] at hi
    exact Nat.lt_of_lt_of_le (hn.interfaces k i hi) h.interfaces.size_le
  · intro k
    rw [hn.map_name h]
    exact hn.names k
  · intro m hm
    rw [h.managers] at hm
    obtain ⟨hlt, hd⟩ := hn.searchers m hm
    rw [hmanager]
    exact ⟨Nat.lt_of_lt_of_le hlt h.searchers.size_le, (h.searchers.getD hlt default).trans hd⟩
  · intro m hm
    rw [h.managers] at hm
    rw [hmanager]
    exact Nat.lt_of_lt_of_le (hn.databases m hm) h.databases

/-! ### Operations that make nothing but grow -/

def Growing (x : NetworkM α) : Prop := ∀ n, Grows n (exec x n).2

namespace Growing

theorem pure (a : α) : Growing (pure a : NetworkM α) := Grows.refl

theorem get : Growing get := Grows.refl

theorem throw (f : Fault) : Growing (throw f : NetworkM α) := Grows.refl

theorem lift (e : Except Fault α) : Growing (liftM e : NetworkM α) := by
  intro n
  cases e <;> exact Grows.refl n

theorem modifyGet {f : Network → α × Network} (h : ∀ n, Grows n (f n).2) :
    Growing (modifyGet f : NetworkM α) := h

theorem modify {f : Network → Network} (h : ∀ n, Grows n (f n)) :
    Growing (modify f : NetworkM Unit) := h

theorem bind {x : NetworkM α} {k : α → NetworkM β} (hx : Growing x) (hk : ∀ a, Growing (k a)) :
    Growing (x >>= k) := by
  intro n
  have h := hx n
  rw [exec_bind]
  revert h
  rcases exec x n with ⟨_ | a, n'⟩
  · exact id
  · exact fun h => h.trans (hk a n')

theorem tryCatch {x : NetworkM α} {k : Fault → NetworkM α} (hx : Growing x)
    (hk : ∀ f, Growing (k f)) : Growing (tryCatch x k) := by
  intro n
  have h := hx n
  rw [exec_tryCatch]
  revert h
  rcases exec x n with ⟨f | _, n'⟩
  · exact fun h => h.trans (hk f n')
  · exact id

theorem foldlM {step : β → α → NetworkM β} (h : ∀ b a, Growing (step b a)) (l : List α) (b : β) :
    Growing (l.foldlM step b) := by
  induction l generalizing b with
  | nil => exact pure b
  | cons a l ih => exact bind (h b a) ih

theorem forIn {step : α → NetworkM PUnit} (h : ∀ a, Growing (step a)) (l : List α) :
    Growing (forIn l PUnit.unit fun a _ => do step a; Pure.pure (ForInStep.yield PUnit.unit)) := by
  induction l with
  | nil => exact pure _
  | cons a l ih =>
    rw [List.forIn_cons, bind_assoc]
    refine bind (h a) fun _ => ?_
    rw [pure_bind]
    exact ih

theorem withJournal (f : Journal → α × Journal) : Growing (withJournal f) :=
  modifyGet fun _ => .same rfl rfl rfl rfl rfl rfl rfl rfl le_rfl le_rfl

theorem log {level : Level} {source name message : String} {data : Option Datum} :
    Growing (log level source name message data) := by
  refine bind get fun n => bind (withJournal _) fun text => ?_
  cases text
  · exact pure ()
  · exact throw _

/-! Parts of a network -/

theorem modifyInterface (i : InterfaceId) {f : Interface → Interface}
    (h : ∀ x, (f x).name = x.name) : Growing (modifyInterface i f) :=
  modify fun n => ⟨rfl, rfl, rfl, .modify h n.interfaces i, .refl _ _, .refl _ _, le_rfl, le_rfl,
    le_rfl, fun _ h => h.of_eq rfl le_rfl⟩

theorem modifyChannel (c : ChannelId) (f : Channel → Channel) : Growing (modifyChannel c f) :=
  modify fun _ => .same rfl rfl rfl rfl rfl rfl rfl rfl le_rfl le_rfl

theorem modifyNode (k : NodeId) {f : Node → Node} (h : ∀ x, (f x).frame = x.frame) :
    Growing (modifyNode k f) :=
  modify fun n => ⟨rfl, map_modify_of_comp h n.nodes k, rfl, .refl _ _, .refl _ _, .refl _ _,
    le_rfl, le_rfl, le_rfl, fun _ h => h.of_eq rfl le_rfl⟩

theorem modifyRouter (r : RouterId) {f : Router → Router} (h : ∀ x, (f x).node = x.node) :
    Growing (modifyRouter r f) :=
  modify fun n => ⟨rfl, rfl, rfl, .refl _ _, .modify h n.routers r, .refl _ _, le_rfl, le_rfl,
    le_rfl, fun _ h => h.of_eq rfl le_rfl⟩

theorem modifyRoutes (t : TableId) (f : Routes → Routes) : Growing (modifyRoutes t f) :=
  modify fun _ => .same rfl rfl rfl rfl rfl rfl Array.size_modify rfl le_rfl le_rfl

theorem modifyAdvertisement (a : AdvertisementId) (f : Advertisement → Advertisement) :
    Growing (modifyAdvertisement a f) :=
  modify fun _ => .same rfl rfl rfl rfl rfl rfl rfl rfl le_rfl Array.size_modify.ge

theorem modifySearcher (s : SearcherId) {f : Searcher → Searcher}
    (h : ∀ x, (f x).database = x.database) : Growing (modifySearcher s f) :=
  modify fun n => ⟨rfl, rfl, rfl, .refl _ _, .refl _ _, .modify h n.searchers s, le_rfl, le_rfl,
    le_rfl, fun _ h => h.of_eq rfl le_rfl⟩

theorem modifyTree (t : TreeId) (f : LiveTree → LiveTree) : Growing (modifyTree t f) :=
  modify fun _ => .same rfl rfl rfl rfl rfl rfl rfl rfl le_rfl le_rfl

theorem newInterface (i : Interface) : Growing (newInterface i) :=
  modifyGet fun n => ⟨rfl, rfl, rfl, .push _ n.interfaces i, .refl _ _, .refl _ _, le_rfl, le_rfl,
    le_rfl, fun _ h => h.of_eq rfl le_rfl⟩

theorem newChannel (id : String) : Growing (newChannel id) :=
  modifyGet fun _ => .same rfl rfl rfl rfl rfl rfl rfl rfl le_rfl le_rfl

theorem newTable (owner : String) : Growing (newTable owner) :=
  modifyGet fun n => ⟨rfl, rfl, rfl, .refl _ _, .refl _ _, .refl _ _, by simp, le_rfl,
    le_rfl, fun _ h => h.of_eq rfl le_rfl⟩

theorem newAdvertisement (a : Advertisement) : Growing (newAdvertisement a) :=
  modifyGet fun _ => .same rfl rfl rfl rfl rfl rfl rfl rfl le_rfl (by simp)

theorem newDatabase : Growing newDatabase :=
  modifyGet fun n => ⟨rfl, rfl, rfl, .refl _ _, .refl _ _, .refl _ _, le_rfl, by simp, le_rfl,
    fun _ h => ownCopies_newDatabase h⟩

theorem newSearcher (d : DatabaseId) : Growing (newSearcher d) :=
  modifyGet fun n => ⟨rfl, rfl, rfl, .refl _ _, .refl _ _, .push _ n.searchers _, le_rfl, le_rfl,
    le_rfl, fun _ h => h.of_eq rfl le_rfl⟩

theorem newTree (t : LiveTree) : Growing (newTree t) :=
  modifyGet fun _ => .same rfl rfl rfl rfl rfl rfl rfl rfl le_rfl le_rfl

theorem newStore : Growing newStore :=
  modifyGet fun _ => .same rfl rfl rfl rfl rfl rfl rfl rfl (by simp) le_rfl

/-- A router that is not attached to a node yet. -/
theorem newRouterOf (x : Router) : Growing (MonadState.modifyGet fun n : Network =>
    (n.routers.size, { n with routers := n.routers.push x }) : NetworkM RouterId) :=
  modifyGet fun n => ⟨rfl, rfl, rfl, .refl _ _, .push _ n.routers x, .refl _ _, le_rfl, le_rfl,
    le_rfl, fun _ h => h.of_eq rfl le_rfl⟩

theorem newIdentifier (label : String) : Growing (newIdentifier label) :=
  modifyGet fun _ => .same rfl rfl rfl rfl rfl rfl rfl rfl le_rfl le_rfl

theorem resetIdentifiers : Growing resetIdentifiers :=
  modify fun _ => .same rfl rfl rfl rfl rfl rfl rfl rfl le_rfl le_rfl

/-! Interfaces and channels -/

theorem occupy (i : InterfaceId) (c : ChannelId) : Growing (occupy i c) := by
  refine bind get fun n => ?_
  have set : Growing (Network.modifyInterface i fun x => { x with channel := some c }) :=
    modifyInterface i fun _ => rfl
  dsimp only
  split
  · split
    · exact bind (throw _) fun _ => set
    · exact set
  · exact set

theorem vacate (i : InterfaceId) : Growing (vacate i) := modifyInterface i fun _ => rfl

theorem attach (c : ChannelId) (i : InterfaceId) : Growing (attach c i) := by
  refine bind get fun n => ?_
  split
  · exact pure ()
  · refine bind (occupy i c) fun _ => bind (modifyChannel c _) fun _ => bind get fun n => ?_
    dsimp only
    split
    · exact log
    · exact log

theorem connect (c : ChannelId) (i j : InterfaceId) : Growing (connect c i j) :=
  bind (attach c i) fun _ => bind (attach c j) fun _ => bind get fun _ => log

theorem detach (c : ChannelId) (i : InterfaceId) : Growing (detach c i) := by
  refine bind get fun n => ?_
  split
  · exact pure false
  · exact bind (modifyChannel c _) fun _ => bind (vacate i) fun _ => bind get fun _ =>
      bind log fun _ => pure true

theorem disconnect (c : ChannelId) : Growing (disconnect c) :=
  bind get fun _ => bind (forIn vacate _) fun _ => bind (modifyChannel c _) fun _ =>
    bind get fun _ => log

theorem configureAddress (i : InterfaceId) (address : Address) (mask : Mask) :
    Growing (configureAddress i address mask) :=
  bind (modifyInterface i fun _ => rfl) fun _ => bind get fun _ => log

theorem setCost (i : InterfaceId) (cost : Option Number) : Growing (setCost i cost) := by
  have set (c : Option Metric) : Growing (do
      Network.modifyInterface i fun x => { x with cost := c }
      let x := (← MonadState.get).interface i
      let text := c.elim "default" Metric.text
      debug x.nodeId "port:cost" s!"{x.name}: cost set to {text}") :=
    bind (modifyInterface i fun _ => rfl) fun _ => bind get fun _ => log
  cases cost with
  | none => exact set none
  | some v => exact bind (bind (lift _) fun _ => pure _) set

theorem setUp (i : InterfaceId) (up : Bool) : Growing (setUp i up) := by
  refine bind get fun n => ?_
  split
  · exact pure ()
  · exact bind (modifyInterface i fun _ => rfl) fun _ => bind get fun _ => log

theorem setNodeId (i : InterfaceId) (id : String) : Growing (setNodeId i id) :=
  modifyInterface i fun _ => rfl

/-! Nodes, routers and tables -/

theorem clearRegistry : Growing clearRegistry :=
  modify fun _ => .same rfl rfl rfl rfl rfl rfl rfl rfl le_rfl le_rfl

theorem configureInterface (k : NodeId) (name : String) (address : Address) (mask : Mask) :
    Growing (configureInterface k name address mask) := by
  refine bind get fun n => ?_
  split
  · exact pure false
  · exact bind (configureAddress _ address mask) fun _ => bind get fun _ =>
      bind (modifyRoutes _ _) fun _ => bind log fun _ => pure true

theorem addStub (k : NodeId) (address : Address) (mask : Mask) (cost : Option Number) :
    Growing (addStub k address mask cost) := by
  have add (c : Option Metric) : Growing (do
      Network.modifyNode k fun x => { x with stubs := x.stubs ++ [⟨address.network mask, mask, c⟩] }
      let node := (← MonadState.get).node k
      info node.id "node:stub-add"
        s!"{node.name}: stub network {(address.network mask).text}/{mask.length}") :=
    bind (modifyNode k fun _ => rfl) fun _ => bind get fun _ => log
  cases cost with
  | none => exact add none
  | some v => exact bind (bind (lift _) fun _ => pure _) add

theorem removeStub (k : NodeId) (address : Address) (mask : Mask) :
    Growing (removeStub k address mask) :=
  bind get fun _ => bind (modifyNode k fun _ => rfl) fun _ => pure _

theorem allocateRouterId : Growing allocateRouterId := by
  refine bind get fun n => ?_
  dsimp only
  split
  · exact bind (modify fun _ => .same rfl rfl rfl rfl rfl rfl rfl rfl le_rfl le_rfl) fun _ => pure _
  · exact throw _

theorem resetRouterIds (base : Address) : Growing (resetRouterIds base) :=
  modify fun _ => .same rfl rfl rfl rfl rfl rfl rfl rfl le_rfl le_rfl

theorem addStaticRoute (t : TableId) (address : Address) (mask : Mask) (via : Address)
    (interface : String) (metric : Number) :
    Growing (addStaticRoute t address mask via interface metric) :=
  bind (modifyRoutes t _) fun _ => bind get fun _ => log

theorem replaceRoutes (t : TableId) (source : RouteSource) (new : List (Route Number)) :
    Growing (replaceRoutes t source new) :=
  bind get fun _ => bind (modifyRoutes t _) fun _ => bind get fun _ => bind log fun _ => pure _

theorem removeRoutes (t : TableId) (source : RouteSource) : Growing (removeRoutes t source) :=
  bind get fun _ => bind (modifyRoutes t _) fun _ => pure _

/-! Advertisements and databases -/

theorem discoverInterface (r : RouterId) (found : List LinkRecord) (i : InterfaceId) :
    Growing (discoverInterface r found i) := by
  refine bind get fun n => ?_
  dsimp only
  split
  · exact bind log fun _ => pure _
  · exact pure _
  · exact pure _
  · exact throw _
  · exact bind log fun _ => throw _
  · exact bind log fun _ => pure _
  · exact bind log fun _ => pure _
  · exact bind log fun _ => pure _

theorem discover (r : RouterId) : Growing (discover r) := by
  refine bind (modifyRouter r fun _ => rfl) fun _ => bind get fun n => ?_
  refine bind (foldlM (discoverInterface r) _ _) fun links => ?_
  refine bind (foldlM (fun _ _ => bind (lift _) fun _ => pure _) _ _) fun records => ?_
  exact bind (modifyRouter r fun _ => rfl) fun _ => log

theorem copyWalk (target source : AdvertisementId) (fuel i : Nat) :
    Growing (copyWalk target source fuel i) := by
  induction fuel generalizing i with
  | zero => exact throw _
  | succ fuel ih =>
    refine bind get fun n => ?_
    split
    · exact pure ()
    · exact bind (modifyAdvertisement target _) fun _ => ih (i + 1)

theorem copyRecords (target source : AdvertisementId) : Growing (copyRecords target source) :=
  bind get fun _ => copyWalk target source _ _

theorem assign (target source : AdvertisementId) : Growing (assign target source) :=
  bind get fun _ => modifyAdvertisement target _

theorem install (d : DatabaseId) (a : Advertisement) : Growing (install d a) := fun _ =>
  ⟨rfl, rfl, rfl, .refl _ _, .refl _ _, .refl _ _, le_rfl, Array.size_modify.ge, le_rfl,
    fun _ h => ownCopies_install h d a⟩

theorem clearDatabase (d : DatabaseId) : Growing (clearDatabase d) := fun _ =>
  ⟨rfl, rfl, rfl, .refl _ _, .refl _ _, .refl _ _, le_rfl, Array.size_modify.ge, le_rfl,
    fun _ h => ownCopies_clear h d⟩

theorem tryDiscover (r : RouterId) : Growing (tryDiscover r) := by
  refine tryCatch (bind (discover r) fun _ => pure none) fun f => ?_
  split
  · exact pure _
  · exact throw f

theorem visit (d : DatabaseId) (report : BuildReport) (k : NodeId) :
    Growing (visit d report k) := by
  refine bind get fun n => ?_
  split
  · exact pure report
  · refine bind (tryDiscover _) fun failed => bind get fun n => ?_
    dsimp only
    split
    · exact bind log fun _ => pure _
    · split
      · exact pure _
      · split
        · exact bind log fun _ => pure _
        · exact bind (install d _) fun _ => pure _

theorem build (d : DatabaseId) (nodes : List NodeId) : Growing (build d nodes) :=
  bind (clearDatabase d) fun _ => bind get fun _ => bind (foldlM (visit d) _ _) fun _ =>
    bind log fun _ => pure _

/-! Searches and trees -/

theorem mark (d : DatabaseId) (id : Address) (status : Status) : Growing (mark d id status) := by
  refine bind get fun n => ?_
  split
  · exact modifyAdvertisement _ _
  · exact pure ()

theorem follow (s : SearcherId) (f : Finding) : Growing (follow s f) := by
  refine bind (modifySearcher s fun _ => rfl) fun _ => bind get fun n => ?_
  cases f with
  | marked => exact mark _ _ _
  | noRoot | unresolved | overflow | badMask | finished => exact log

theorem resetStatus (d : DatabaseId) : Growing (resetStatus d) := by
  refine bind get fun n => bind ?_ fun _ => pure _
  refine forIn (fun e => ?_) _
  exact modifyAdvertisement e.2 _

theorem calculate (s : SearcherId) (root : Address) : Growing (calculate s root) := by
  refine bind (modifySearcher s fun _ => rfl) fun _ => bind get fun n => ?_
  refine bind (resetStatus _) fun _ => bind get fun n => bind ?_ fun _ => pure _
  exact forIn (follow s) _

theorem addVertex (t : TreeId) (v : Vertex Rat AdvertisementId) : Growing (addVertex t v) :=
  bind get fun _ => bind (lift _) fun _ => bind (modifyTree t _) fun _ => pure _

theorem settleVertex (t : TreeId) (h : Nat) : Growing (settleVertex t h) := by
  have settle : Growing (do
      let settled := ((← MonadState.get).tree t).settle h
      Network.modifyTree t fun _ => settled.2
      (settled.1 : Except Fault Unit)) :=
    bind get fun _ => bind (modifyTree t _) fun _ => lift _
  refine bind get fun n => bind (lift _) fun v => ?_
  split
  · exact bind (modifyAdvertisement _ _) fun _ => settle
  · exact settle

/-! Stores and managers -/

theorem act (s : StoreId) (f : RoutingState → RoutingUpdate) : Growing (act s f) :=
  modify fun _ => .same rfl rfl rfl rfl rfl rfl rfl rfl Array.size_setIfInBounds.ge le_rfl

theorem subscribe (s : StoreId) : Growing (subscribe s) :=
  modifyGet fun _ => .same rfl rfl rfl rfl rfl rfl rfl rfl Array.size_modify.ge le_rfl

theorem unsubscribe (listener : Nat) : Growing (unsubscribe listener) :=
  modify fun _ => .same rfl rfl rfl rfl rfl rfl rfl rfl Array.size_map.ge le_rfl

theorem takeNotes : Growing takeNotes :=
  modifyGet fun _ => .same rfl rfl rfl rfl rfl rfl rfl rfl le_rfl le_rfl

theorem buildDatabase (m : ManagerId) : Growing (buildDatabase m) := by
  refine bind get fun n => bind get fun _ => bind (build _ _) fun report =>
    bind (act _ _) fun _ => ?_
  dsimp only
  split
  · exact pure _
  · exact bind log fun _ => pure _

theorem installNode (s : SearcherId) (done : Installed) (k : NodeId) :
    Growing (installNode s done k) := by
  refine bind get fun n => ?_
  split
  · exact pure done
  · exact bind (calculate s _) fun _ => bind get fun _ => bind (lift _) fun _ =>
      bind (replaceRoutes _ _ _) fun _ => bind get fun _ => bind log fun _ => pure _

theorem initializeRoutes (m : ManagerId) : Growing (initializeRoutes m) :=
  bind get fun _ => bind get fun _ => bind get fun _ => bind (foldlM (installNode _) _ _) fun _ =>
    bind (act _ _) fun _ => pure _

theorem populate (m : ManagerId) : Growing (populate m) := by
  refine bind (buildDatabase m) fun report => ?_
  rw [discard_eq_bind]
  exact bind (bind (initializeRoutes m) fun _ => pure _) fun _ => pure _

end Growing

end Network

end LinkState
