import LinkState.Proofs.Growth

/-! The networks that operations make. Whatever they do, in whatever order, and also where they fail
or are stopped, they are well formed. -/

namespace LinkState

namespace Network

variable {α β : Type} {n : Network}

structure Keeps (x : NetworkM α) (n : Network) (done : α → Network → Prop) : Prop where
  wellFormed : (exec x n).2.WellFormed
  result : ∀ a, (exec x n).1 = .ok a → done a (exec x n).2

theorem Growing.keeps {x : NetworkM α} (hx : Growing x) (hn : n.WellFormed) :
    Keeps x n fun _ n' => Grows n n' := ⟨hn.grows (hx n), fun _ _ => hx n⟩

theorem Keeps.bind {x : NetworkM α} {k : α → NetworkM β} {done : α → Network → Prop}
    {done' : β → Network → Prop} (hx : Keeps x n done)
    (hk : ∀ a n', n'.WellFormed → done a n' → Keeps (k a) n' done') :
    Keeps (x >>= k) n done' := by
  obtain ⟨hwf, hres⟩ := hx
  constructor
  · rw [exec_bind]
    revert hwf hres
    rcases exec x n with ⟨_ | a, n'⟩
    · exact fun hwf _ => hwf
    · exact fun hwf hres => (hk a n' hwf (hres a rfl)).wellFormed
  · rw [exec_bind]
    revert hwf hres
    rcases exec x n with ⟨_ | a, n'⟩
    · exact fun _ _ => nofun
    · exact fun hwf hres => (hk a n' hwf (hres a rfl)).result

theorem Keeps.mono {x : NetworkM α} {done done' : α → Network → Prop} (h : Keeps x n done)
    (hd : ∀ a n', done a n' → done' a n') : Keeps x n done' :=
  ⟨h.wellFormed, fun a ha => hd a _ (h.result a ha)⟩

theorem Keeps.get (hn : n.WellFormed) : Keeps get n fun a n' => a = n ∧ n' = n := by
  refine ⟨hn, ?_⟩
  rintro a ⟨⟩
  exact ⟨rfl, rfl⟩

theorem Keeps.throw (hn : n.WellFormed) (f : Fault) :
    Keeps (throw f : NetworkM α) n fun _ _ => False := ⟨hn, nofun⟩

theorem Keeps.modifyGet {f : Network → α × Network} (h : (f n).2.WellFormed) :
    Keeps (modifyGet f) n fun a n' => a = (f n).1 ∧ n' = (f n).2 := by
  refine ⟨h, ?_⟩
  rintro a ⟨⟩
  exact ⟨rfl, rfl⟩

theorem Keeps.modify {f : Network → Network} (h : (f n).WellFormed) :
    Keeps (modify f) n fun _ n' => n' = f n := ⟨h, fun _ _ => rfl⟩

/-- A new node has a table that no other has. -/
theorem WellFormed.pushNode (hn : n.WellFormed) {x : Node} (hi : x.interfaces = [])
    (hr : x.router = none) (ht : x.table < n.tables.size)
    (hown : ∀ k < n.nodes.size, (n.node k).table ≠ x.table) (j : Nat)
    (reg : List (String × NodeId)) :
    WellFormed { n with nodes := n.nodes.push x, nextIndex := j, registry := reg } := by
  have node (k : Nat) :
      Network.node { n with nodes := n.nodes.push x, nextIndex := j, registry := reg } k =
        if k = n.nodes.size then x else n.node k := getD_push ..
  have le {k : Nat} (hk : k < (n.nodes.push x).size) : k ≤ n.nodes.size := by
    rw [Array.size_push] at hk
    omega
  constructor
  · intro k r
    rw [node]
    split
    · rw [hr]
      exact nofun
    · exact hn.routers k r
  · intro k hk
    have := le hk
    rw [node]
    split
    · exact ht
    · exact hn.tables k (by omega)
  · intro a ha b hb
    have := le ha
    have := le hb
    rw [node, node]
    split <;> split
    · omega
    · exact fun h => absurd h.symm (hown b (by omega))
    · exact fun h => absurd h (hown a (by omega))
    · exact hn.ownTable a (by omega) b (by omega)
  · intro k i
    rw [node]
    split
    · rw [hi]
      exact nofun
    · exact hn.interfaces k i
  · intro k
    rw [interfacesOf, node]
    split
    · rw [hi]
      exact List.nodup_nil
    · exact hn.names k
  · exact hn.searchers
  · exact hn.databases

theorem keeps_newNode (hn : n.WellFormed) (name : String) :
    Keeps (newNode name) n fun _ _ => True := by
  refine ((Growing.newIdentifier "node").keeps hn).bind fun id n₁ h₁ _ => ?_
  refine Keeps.bind (Keeps.modifyGet ?_) ?_
  · exact h₁.grows (Growing.newTable id n₁)
  rintro _ _ h₂ ⟨rfl, rfl⟩
  refine (Keeps.modifyGet (h₂.pushNode rfl rfl ?_ ?_ _ _)).mono fun _ _ _ => trivial
  · show n₁.tables.size < (n₁.tables.push ⟨id, []⟩).size
    simp
  · exact fun k hk => Nat.ne_of_lt (h₁.tables k hk)

theorem WellFormed.modifyNode (hn : n.WellFormed) {k : NodeId} {g : Node → Node}
    (htable : ∀ x, (g x).table = x.table)
    (hrouter : ∀ r, (g (n.node k)).router = some r → r < n.routers.size ∧ (n.router r).node = k)
    (hinterfaces : ∀ i ∈ (g (n.node k)).interfaces, i < n.interfaces.size)
    (hnames : (((g (n.node k)).interfaces.map n.interface).map Interface.name).Nodup) :
    WellFormed { n with nodes := n.nodes.modify k g } := by
  have node (j : Nat) : Network.node { n with nodes := n.nodes.modify k g } j =
      if j = k ∧ k < n.nodes.size then g (n.node k) else n.node j := getD_modify ..
  have table (j : Nat) : (Network.node { n with nodes := n.nodes.modify k g } j).table =
      (n.node j).table := by
    rw [node]
    split
    · next h => rw [htable, h.1]
    · rfl
  have size : (n.nodes.modify k g).size = n.nodes.size := Array.size_modify
  constructor
  · intro j r
    rw [node]
    split
    · next h => exact h.1 ▸ hrouter r
    · exact hn.routers j r
  · intro j hj
    rw [table]
    exact hn.tables j (size ▸ hj)
  · intro a ha b hb
    rw [table, table]
    exact hn.ownTable a (size ▸ ha) b (size ▸ hb)
  · intro j
    rw [node]
    split
    · exact hinterfaces
    · exact hn.interfaces j
  · intro j
    rw [interfacesOf, node]
    split
    · exact hnames
    · exact hn.names j
  · exact hn.searchers
  · exact hn.databases

theorem WellFormed.pushManager (hn : n.WellFormed) {x : Manager}
    (hs : x.searcher < n.searchers.size) (hsd : (n.searcher x.searcher).database = x.database)
    (hd : x.database < n.databases.size) :
    WellFormed { n with managers := n.managers.push x } := by
  have manager (m : Nat) : Network.manager { n with managers := n.managers.push x } m =
      if m = n.managers.size then x else n.manager m := getD_push ..
  have le {m : Nat} (hm : m < (n.managers.push x).size) : m ≤ n.managers.size := by
    rw [Array.size_push] at hm
    omega
  refine ⟨hn.routers, hn.tables, hn.ownTable, hn.interfaces, hn.names, ?_, ?_⟩
  · intro m hm
    have := le hm
    rw [manager]
    split
    · exact ⟨hs, hsd⟩
    · exact hn.searchers m (by omega)
  · intro m hm
    have := le hm
    rw [manager]
    split
    · exact hd
    · exact hn.databases m (by omega)

theorem interfaceNamed?_eq_none {k : NodeId} {name : String}
    (h : interfaceNamed? n k name = none) : name ∉ (n.interfacesOf k).map Interface.name := by
  rw [interfacesOf, List.map_map, List.mem_map]
  rintro ⟨i, hi, hname⟩
  have hne := List.find?_eq_none.1 h i hi
  exact hne (decide_eq_true hname)

theorem keeps_newInterface (hn : n.WellFormed) (x : Interface) :
    Keeps (newInterface x) n fun i n' =>
      Grows n n' ∧ i < n'.interfaces.size ∧ n'.interface i = x := by
  have hgrows := Growing.newInterface x n
  refine ⟨hn.grows hgrows, ?_⟩
  rintro _ ⟨⟩
  refine ⟨hgrows, ?_, ?_⟩
  · show n.interfaces.size < (n.interfaces.push x).size
    simp
  · show (n.interfaces.push x).getD n.interfaces.size default = x
    rw [getD_push, if_pos rfl]

theorem Growing.configureNew (i : InterfaceId) (k : NodeId) (name : String) (a : Address)
    (m : Mask) : Growing (do
      discard (Network.configureInterface k name a m)
      return i) := by
  rw [discard_eq_bind]
  have set := Growing.configureInterface k name a m
  exact Growing.bind (Growing.bind set fun _ => Growing.pure _) fun _ => Growing.pure _

theorem keeps_addInterface (hn : n.WellFormed) (k : NodeId) (name : String)
    (address : Option Address) (mask : Option Mask) (medium : Medium) :
    Keeps (addInterface k name address mask medium) n fun _ _ => True := by
  refine (Keeps.get hn).bind ?_
  rintro _ _ - ⟨rfl, rfl⟩
  dsimp only
  split
  · exact (Keeps.throw hn _).bind fun _ _ _ => False.elim
  · next hname =>
    have hnew := interfaceNamed?_eq_none (Option.not_isSome_iff_eq_none.1 hname)
    refine (keeps_newInterface hn _).bind ?_
    rintro i n₁ h₁ ⟨hgrows, hi, hx⟩
    refine Keeps.bind (Keeps.modify ?_) fun _ n₂ h₂ _ => ?_
    · refine h₁.modifyNode (fun _ => rfl) (h₁.routers k) ?_ ?_
      · intro j hj
        rcases List.mem_append.1 hj with hj | hj
        · exact h₁.interfaces k j hj
        · exact List.mem_singleton.1 hj ▸ hi
      · -- the names are those that the node had, and the new one
        rw [List.map_append, List.map_append, List.nodup_append]
        refine ⟨h₁.names k, by simp, fun a ha b hb => ?_⟩
        rintro rfl
        rw [List.map_singleton, List.map_singleton, List.mem_singleton, hx] at hb
        have hold := hn.map_name hgrows k
        rw [interfacesOf] at hold
        rw [hold, hb] at ha
        exact hnew ha
    · split
      · exact ((Growing.configureNew _ _ _ _ _).keeps h₂).mono fun _ _ _ => trivial
      · exact ((Growing.pure i).keeps h₂).mono fun _ _ _ => trivial

/-- A router may be attached to its own node. -/
theorem keeps_setRouter (hn : n.WellFormed) {k : NodeId} {r : RouterId} (hr : r < n.routers.size)
    (hnode : (n.router r).node = k) : Keeps (setRouter k (some r)) n fun _ _ => True := by
  have set :
      Keeps (Network.modifyNode k fun x => { x with router := some r }) n fun _ _ => True := by
    refine (Keeps.modify ?_).mono fun _ _ _ => trivial
    refine hn.modifyNode (fun _ => rfl) ?_ (hn.interfaces k) (hn.names k)
    rintro _ ⟨⟩
    exact ⟨hr, hnode⟩
  refine (Keeps.get hn).bind ?_
  rintro _ _ - ⟨rfl, rfl⟩
  dsimp only
  split
  · exact (Keeps.throw hn _).bind fun _ _ _ => False.elim
  · exact set

theorem keeps_newRouter (hn : n.WellFormed) (k : NodeId) (overrides : ConfigOverrides) :
    Keeps (newRouter k overrides) n fun _ _ => True := by
  refine ((Growing.lift _).keeps hn).bind fun config n₁ h₁ _ => ?_
  refine (Growing.allocateRouterId.keeps h₁).bind fun id n₂ h₂ _ => ?_
  refine Keeps.bind (Keeps.modifyGet (h₂.grows (Growing.newRouterOf _ n₂))) ?_
  rintro _ _ h₃ ⟨rfl, rfl⟩
  refine (keeps_setRouter h₃ ?_ ?_).bind fun _ n₄ h₄ _ => ?_
  · show n₂.routers.size < (n₂.routers.push ⟨k, id, config, none⟩).size
    simp
  · show ((n₂.routers.push ⟨k, id, config, none⟩).getD n₂.routers.size default).node = k
    rw [getD_push, if_pos rfl]
  · exact ((Growing.bind Growing.get fun _ => Growing.log).keeps h₄).mono fun _ _ _ => trivial

theorem keeps_newManager (hn : n.WellFormed) (nodes : Option (List NodeId)) :
    Keeps (newManager nodes) n fun _ _ => True := by
  refine Keeps.bind (Keeps.modifyGet ?_) ?_
  · exact hn.grows (Growing.newDatabase n)
  rintro _ _ h₁ ⟨rfl, rfl⟩
  refine Keeps.bind (Keeps.modifyGet ?_) ?_
  · exact h₁.grows (Growing.newSearcher n.databases.size _)
  rintro _ _ h₂ ⟨rfl, rfl⟩
  refine Keeps.bind (Keeps.modifyGet ?_) ?_
  · exact h₂.grows (Growing.newStore _)
  rintro _ _ h₃ ⟨rfl, rfl⟩
  refine (Keeps.modifyGet (h₃.pushManager ?_ ?_ ?_)).mono fun _ _ _ => trivial
  · show n.searchers.size < (n.searchers.push ⟨n.databases.size, .zero⟩).size
    simp
  · show ((n.searchers.push ⟨n.databases.size, .zero⟩).getD n.searchers.size default).database = _
    rw [getD_push, if_pos rfl]
  · show n.databases.size < (n.databases.push .empty).size
    simp

/-! ### All operations -/

/-- What may be done with a network, and sequences of it that depend on results and on the state.
A router is only attached by being made. -/
inductive Operation : {α : Type} → NetworkM α → Prop
  | pure {α : Type} (a : α) : Operation (pure a)
  | get : Operation get
  | throw {α : Type} (f : Fault) : Operation (throw f : NetworkM α)
  | bind {α β : Type} {x : NetworkM α} {k : α → NetworkM β} (hx : Operation x)
      (hk : ∀ a, Operation (k a)) : Operation (x >>= k)
  | tryCatch {α : Type} {x : NetworkM α} {k : Fault → NetworkM α} (hx : Operation x)
      (hk : ∀ f, Operation (k f)) : Operation (tryCatch x k)
  | withJournal {α : Type} (f : Journal → α × Journal) : Operation (withJournal f)
  | log (level : Level) (source name message : String) (data : Option Datum) :
      Operation (log level source name message data)
  | newIdentifier (label : String) : Operation (newIdentifier label)
  | resetIdentifiers : Operation resetIdentifiers
  | newInterface (x : Interface) : Operation (newInterface x)
  | configureAddress (i : InterfaceId) (address : Address) (mask : Mask) :
      Operation (configureAddress i address mask)
  | setCost (i : InterfaceId) (cost : Option Number) : Operation (setCost i cost)
  | setUp (i : InterfaceId) (up : Bool) : Operation (setUp i up)
  | setNodeId (i : InterfaceId) (id : String) : Operation (setNodeId i id)
  | occupy (i : InterfaceId) (c : ChannelId) : Operation (occupy i c)
  | vacate (i : InterfaceId) : Operation (vacate i)
  | newChannel (id : String) : Operation (newChannel id)
  | attach (c : ChannelId) (i : InterfaceId) : Operation (attach c i)
  | connect (c : ChannelId) (i j : InterfaceId) : Operation (connect c i j)
  | detach (c : ChannelId) (i : InterfaceId) : Operation (detach c i)
  | disconnect (c : ChannelId) : Operation (disconnect c)
  | newNode (name : String) : Operation (newNode name)
  | clearRegistry : Operation clearRegistry
  | addInterface (k : NodeId) (name : String) (address : Option Address) (mask : Option Mask)
      (medium : Medium) : Operation (addInterface k name address mask medium)
  | configureInterface (k : NodeId) (name : String) (address : Address) (mask : Mask) :
      Operation (configureInterface k name address mask)
  | addStub (k : NodeId) (address : Address) (mask : Mask) (cost : Option Number) :
      Operation (addStub k address mask cost)
  | removeStub (k : NodeId) (address : Address) (mask : Mask) :
      Operation (removeStub k address mask)
  | allocateRouterId : Operation allocateRouterId
  | resetRouterIds (base : Address) : Operation (resetRouterIds base)
  | newRouter (k : NodeId) (overrides : ConfigOverrides) : Operation (newRouter k overrides)
  | newTable (owner : String) : Operation (newTable owner)
  | modifyRoutes (t : TableId) (f : Routes → Routes) : Operation (modifyRoutes t f)
  | addStaticRoute (t : TableId) (address : Address) (mask : Mask) (via : Address)
      (interface : String) (metric : Number) :
      Operation (addStaticRoute t address mask via interface metric)
  | replaceRoutes (t : TableId) (source : RouteSource) (new : List (Route Number)) :
      Operation (replaceRoutes t source new)
  | removeRoutes (t : TableId) (source : RouteSource) : Operation (removeRoutes t source)
  | newAdvertisement (a : Advertisement) : Operation (newAdvertisement a)
  | modifyAdvertisement (a : AdvertisementId) (f : Advertisement → Advertisement) :
      Operation (modifyAdvertisement a f)
  | copyRecords (target source : AdvertisementId) : Operation (copyRecords target source)
  | assign (target source : AdvertisementId) : Operation (assign target source)
  | discover (r : RouterId) : Operation (discover r)
  | newDatabase : Operation newDatabase
  | install (d : DatabaseId) (a : Advertisement) : Operation (install d a)
  | clearDatabase (d : DatabaseId) : Operation (clearDatabase d)
  | build (d : DatabaseId) (nodes : List NodeId) : Operation (build d nodes)
  | newSearcher (d : DatabaseId) : Operation (newSearcher d)
  | resetStatus (d : DatabaseId) : Operation (resetStatus d)
  | calculate (s : SearcherId) (root : Address) : Operation (calculate s root)
  | newTree (t : LiveTree) : Operation (newTree t)
  | modifyTree (t : TreeId) (f : LiveTree → LiveTree) : Operation (modifyTree t f)
  | addVertex (t : TreeId) (v : Vertex Rat AdvertisementId) : Operation (addVertex t v)
  | settleVertex (t : TreeId) (h : Nat) : Operation (settleVertex t h)
  | newStore : Operation newStore
  | act (s : StoreId) (f : RoutingState → RoutingUpdate) : Operation (act s f)
  | subscribe (s : StoreId) : Operation (subscribe s)
  | unsubscribe (listener : Nat) : Operation (unsubscribe listener)
  | takeNotes : Operation takeNotes
  | newManager (nodes : Option (List NodeId)) : Operation (newManager nodes)
  | buildDatabase (m : ManagerId) : Operation (buildDatabase m)
  | initializeRoutes (m : ManagerId) : Operation (initializeRoutes m)
  | populate (m : ManagerId) : Operation (populate m)

/-- The networks that operations make from nothing, whatever environment they are in. -/
inductive Reachable : Network → Prop
  | blank (e : Environment) : Reachable (.blank e)
  | run {α : Type} {n : Network} {x : NetworkM α} (h : Reachable n) (hx : Operation x) :
      Reachable (exec x n).2

theorem Reachable.empty : Reachable .empty := .blank .standard

/-- What the operations keep if those that make new things do, and all that let the network grow. -/
structure Stable (P : Network → Prop) : Prop where
  grows : ∀ {n n'}, Grows n n' → P n → P n'
  newNode : ∀ {n} name, P n → P (exec (newNode name) n).2
  addInterface : ∀ {n} k name address mask medium, P n →
    P (exec (addInterface k name address mask medium) n).2
  newRouter : ∀ {n} k overrides, P n → P (exec (newRouter k overrides) n).2
  newManager : ∀ {n} nodes, P n → P (exec (newManager nodes) n).2

theorem Stable.run {P : Network → Prop} (hP : Stable P) {x : NetworkM α} (hx : Operation x)
    (hn : P n) : P (exec x n).2 := by
  have grow {γ : Type} {y : NetworkM γ} (hy : Growing y) {n : Network} (hn : P n) :
      P (exec y n).2 := hP.grows (hy n) hn
  induction hx generalizing n with
  -- sequences first, then what makes new things; all else makes the network grow
  | bind _ _ hx hk => exact exec_bind_post (hx hn) fun a n' hn' => hk a hn'
  | @tryCatch α x k _ _ hx hk =>
    have h := hx hn
    rw [exec_tryCatch]
    revert h
    rcases exec x n with ⟨f | _, n'⟩
    · exact fun h => hk f h
    · exact id
  | newNode name => exact hP.newNode name hn
  | addInterface k name address mask medium =>
    exact hP.addInterface k name address mask medium hn
  | newRouter k overrides => exact hP.newRouter k overrides hn
  | newManager nodes => exact hP.newManager nodes hn
  | pure a => exact grow (.pure a) hn
  | get => exact grow .get hn
  | throw f => exact grow (.throw f) hn
  | withJournal f => exact grow (.withJournal f) hn
  | log => exact grow .log hn
  | newIdentifier label => exact grow (.newIdentifier label) hn
  | resetIdentifiers => exact grow .resetIdentifiers hn
  | newInterface x => exact grow (.newInterface x) hn
  | configureAddress i a m => exact grow (.configureAddress i a m) hn
  | setCost i cost => exact grow (.setCost i cost) hn
  | setUp i up => exact grow (.setUp i up) hn
  | setNodeId i id => exact grow (.setNodeId i id) hn
  | occupy i c => exact grow (.occupy i c) hn
  | vacate i => exact grow (.vacate i) hn
  | newChannel id => exact grow (.newChannel id) hn
  | attach c i => exact grow (.attach c i) hn
  | connect c i j => exact grow (.connect c i j) hn
  | detach c i => exact grow (.detach c i) hn
  | disconnect c => exact grow (.disconnect c) hn
  | clearRegistry => exact grow .clearRegistry hn
  | configureInterface k name a m => exact grow (.configureInterface k name a m) hn
  | addStub k a m cost => exact grow (.addStub k a m cost) hn
  | removeStub k a m => exact grow (.removeStub k a m) hn
  | allocateRouterId => exact grow .allocateRouterId hn
  | resetRouterIds base => exact grow (.resetRouterIds base) hn
  | newTable owner => exact grow (.newTable owner) hn
  | modifyRoutes t f => exact grow (.modifyRoutes t f) hn
  | addStaticRoute t a m via i metric => exact grow (.addStaticRoute t a m via i metric) hn
  | replaceRoutes t source new => exact grow (.replaceRoutes t source new) hn
  | removeRoutes t source => exact grow (.removeRoutes t source) hn
  | newAdvertisement a => exact grow (.newAdvertisement a) hn
  | modifyAdvertisement a f => exact grow (.modifyAdvertisement a f) hn
  | copyRecords target source => exact grow (.copyRecords target source) hn
  | assign target source => exact grow (.assign target source) hn
  | discover r => exact grow (.discover r) hn
  | newDatabase => exact grow .newDatabase hn
  | install d a => exact grow (.install d a) hn
  | clearDatabase d => exact grow (.clearDatabase d) hn
  | build d ks => exact grow (.build d ks) hn
  | newSearcher d => exact grow (.newSearcher d) hn
  | resetStatus d => exact grow (.resetStatus d) hn
  | calculate s root => exact grow (.calculate s root) hn
  | newTree t => exact grow (.newTree t) hn
  | modifyTree t f => exact grow (.modifyTree t f) hn
  | addVertex t v => exact grow (.addVertex t v) hn
  | settleVertex t h => exact grow (.settleVertex t h) hn
  | newStore => exact grow .newStore hn
  | act s f => exact grow (.act s f) hn
  | subscribe s => exact grow (.subscribe s) hn
  | unsubscribe l => exact grow (.unsubscribe l) hn
  | takeNotes => exact grow .takeNotes hn
  | buildDatabase m => exact grow (.buildDatabase m) hn
  | initializeRoutes m => exact grow (.initializeRoutes m) hn
  | populate m => exact grow (.populate m) hn

theorem Stable.reachable {P : Network → Prop} (hP : Stable P) (hblank : ∀ e, P (.blank e))
    (h : n.Reachable) : P n := by
  induction h with
  | blank e => exact hblank e
  | run _ hx ih => exact hP.run hx ih

theorem stable_wellFormed : Stable WellFormed where
  grows h hn := hn.grows h
  newNode name hn := (keeps_newNode hn name).wellFormed
  addInterface k name address mask medium hn :=
    (keeps_addInterface hn k name address mask medium).wellFormed
  newRouter k overrides hn := (keeps_newRouter hn k overrides).wellFormed
  newManager nodes hn := (keeps_newManager hn nodes).wellFormed

theorem wellFormed_blank (e : Environment) : WellFormed (.blank e) := by
  refine ⟨fun k r => ?_, nofun, nofun, fun k i => ?_, fun k => ?_, nofun, nofun⟩
  · exact nofun
  · exact nofun
  · exact List.nodup_nil

theorem Reachable.wellFormed (h : Reachable n) : n.WellFormed :=
  stable_wellFormed.reachable wellFormed_blank h

/-! ### What the nodes have no part in -/

theorem exec_addInterface (n : Network) (k : NodeId) (name : String) (address : Option Address)
    (mask : Option Mask) (medium : Medium) :
    exec (addInterface k name address mask medium) n = exec (do
      if (interfaceNamed? n k name).isSome then throw (.interfaceExists (n.node k).name name)
      let i ← newInterface { Interface.make name medium with nodeId := (n.node k).id }
      modifyNode k fun x => { x with interfaces := x.interfaces ++ [i] }
      match address, mask with
      | some a, some m => discard (configureInterface k name a m)
      | _, _ => pure ()
      return i) n := rfl

theorem exec_setRouter (n : Network) (k : NodeId) (r : Option RouterId) :
    exec (setRouter k r) n = exec (do
      if (n.node k).router.isSome ∧ (n.node k).router ≠ r then
        throw (.routerExists (n.node k).name)
      modifyNode k fun x => { x with router := r }) n := rfl

/-- What is kept by growth, whatever becomes of the nodes, and where a manager is made. -/
theorem Stable.of_parts {P : Network → Prop} (grows : ∀ {n n'}, Grows n n' → P n → P n')
    (nodes : ∀ {n} (ns : Array Node) (i : Nat) (reg : List (String × NodeId)), P n →
      P { n with nodes := ns, nextIndex := i, registry := reg })
    (newManager : ∀ {n} ks, P n → P (exec (Network.newManager ks) n).2) : Stable P := by
  refine ⟨grows, fun {n} name hn => ?_, fun {n} k name address mask medium hn => ?_,
    fun {n} k overrides hn => ?_, newManager⟩
  · refine exec_bind_post (grows (Growing.newIdentifier "node" n) hn) fun id n₁ h₁ => ?_
    exact exec_bind_post (grows (Growing.newTable id n₁) h₁) fun t n₂ h₂ => nodes _ _ _ h₂
  · rw [exec_addInterface]
    dsimp only
    split
    · exact hn
    · refine exec_bind_post (grows (Growing.newInterface _ n) hn) fun i n₁ h₁ => ?_
      refine exec_bind_post (P := P) (nodes _ n₁.nextIndex n₁.registry h₁) fun _ n₂ h₂ => ?_
      split
      · exact grows (Growing.configureNew _ _ _ _ _ n₂) h₂
      · exact h₂
  · refine exec_bind_post (grows (Growing.lift _ n) hn) fun config n₁ h₁ => ?_
    refine exec_bind_post (grows (Growing.allocateRouterId n₁) h₁) fun id n₂ h₂ => ?_
    refine exec_bind_post (grows (Growing.newRouterOf _ n₂) h₂) fun r n₃ h₃ => ?_
    refine exec_bind_post ?_ fun _ n₄ h₄ =>
      grows (Growing.bind Growing.get (fun _ => Growing.log) n₄) h₄
    rw [exec_setRouter]
    dsimp only
    split
    · exact h₃
    · exact nodes _ n₃.nextIndex n₃.registry h₃

theorem stable_environment (e : Environment) : Stable fun n => n.environment = e :=
  .of_parts (fun h hn => h.environment.trans hn) (fun _ _ _ hn => hn) fun _ hn => hn

/-- No operation has a part in what its network is in. -/
theorem Operation.environment {x : NetworkM α} (hx : Operation x) (n : Network) :
    (exec x n).2.environment = n.environment :=
  (stable_environment n.environment).run hx rfl

theorem Operation.merges {x : NetworkM α} (hx : Operation x) :
    (exec x .empty).2.environment.stores.Merges := by
  rw [hx.environment]
  exact Store.Library.merges_standard

structure Furnished (n : Network) : Prop where
  copies : ∀ d, n.OwnCopies d
  stores : ∀ m < n.managers.size, (n.manager m).store < n.stores.size

theorem Furnished.grows {n' : Network} (hn : n.Furnished) (h : Grows n n') : n'.Furnished := by
  refine ⟨fun d => h.copies d (hn.copies d), fun m hm => ?_⟩
  rw [h.managers] at hm
  rw [manager, h.managers]
  exact Nat.lt_of_lt_of_le (hn.stores m hm) h.stores

theorem Furnished.pushManager (hn : n.Furnished) {x : Manager} (hs : x.store < n.stores.size) :
    Furnished { n with managers := n.managers.push x } := by
  refine ⟨fun d => (hn.copies d).of_eq rfl le_rfl, fun m hm => ?_⟩
  have manager : Network.manager { n with managers := n.managers.push x } m =
      if m = n.managers.size then x else n.manager m := getD_push ..
  rw [manager]
  split
  · exact hs
  · have hm : m < (n.managers.push x).size := hm
    rw [Array.size_push] at hm
    exact hn.stores m (by omega)

theorem furnished_newManager (hn : n.Furnished) (ks : Option (List NodeId)) :
    (exec (newManager ks) n).2.Furnished := by
  have h₁ := hn.grows (Growing.newDatabase n)
  have h₂ := h₁.grows (Growing.newSearcher n.databases.size _)
  have h₃ := h₂.grows (Growing.newStore _)
  refine h₃.pushManager ?_
  show n.stores.size < (n.stores.push (n.environment.stores.create .initial)).size
  simp

theorem stable_furnished : Stable Furnished :=
  .of_parts (fun h hn => hn.grows h)
    (fun _ _ _ hn => ⟨fun d => (hn.copies d).of_eq rfl le_rfl, hn.stores⟩)
    fun ks hn => furnished_newManager hn ks

theorem Reachable.furnished (h : Reachable n) : n.Furnished :=
  stable_furnished.reachable (fun _ => ⟨fun _ => ownCopies_of_empty rfl, nofun⟩) h

/-! ### Interfaces of one node -/

def OneNode (n : Network) : Prop :=
  ∀ j k, ∀ i ∈ (n.node j).interfaces, i ∈ (n.node k).interfaces → j = k

/-- All nodes have the interfaces that they had. -/
def SameInterfaces (n n' : Network) : Prop := ∀ k, (n'.node k).interfaces = (n.node k).interfaces

theorem SameInterfaces.oneNode {n' : Network} (h : SameInterfaces n n') (hn : n.OneNode) :
    n'.OneNode := by
  intro j k i hj hk
  rw [h] at hj hk
  exact hn j k i hj hk

theorem SameInterfaces.growing {n' : Network} (h : SameInterfaces n n') {x : NetworkM α}
    (hx : Growing x) : SameInterfaces n (exec x n').2 := fun k =>
  ((hx n').interfaces_eq k).trans (h k)

/-- A new node has no interfaces. -/
theorem sameInterfaces_newNode (name : String) : SameInterfaces n (exec (newNode name) n).2 := by
  have start : SameInterfaces n n := fun _ => rfl
  refine exec_bind_post (start.growing (Growing.newIdentifier "node")) fun id n₁ h₁ => ?_
  refine exec_bind_post (h₁.growing (Growing.newTable id)) fun t n₂ h₂ k => ?_
  rw [← h₂ k]
  show ((n₂.nodes.push _).getD k default).interfaces = _
  rw [getD_push]
  split
  · next hk =>
    rw [node, getD_of_le _ (Nat.le_of_eq hk.symm)]
    rfl
  · rfl

theorem interfaces_modify (xs : Array Node) (k : NodeId) (f : Node → Node) (j : NodeId) :
    ((xs.modify k f).getD j default).interfaces = (xs.getD j default).interfaces ∨
      j = k ∧ ((xs.modify k f).getD j default).interfaces = (f (xs.getD j default)).interfaces := by
  rw [getD_modify]
  split
  · next h => exact .inr ⟨h.1, h.1 ▸ rfl⟩
  · exact .inl rfl

theorem sameInterfaces_setRouter {n' : Network} (h : SameInterfaces n n') (k : NodeId)
    (r : Option RouterId) : SameInterfaces n (exec (setRouter k r) n').2 := by
  have set : SameInterfaces n
      { n' with nodes := n'.nodes.modify k fun x => { x with router := r } } := by
    intro j
    rw [← h j]
    rcases interfaces_modify n'.nodes k (fun x => { x with router := r }) j with hj | ⟨-, hj⟩
    · exact hj
    · exact hj
  rw [exec_setRouter]
  split
  · exact h
  · exact set

theorem sameInterfaces_newRouter (k : NodeId) (overrides : ConfigOverrides) :
    SameInterfaces n (exec (newRouter k overrides) n).2 := by
  have start : SameInterfaces n n := fun _ => rfl
  refine exec_bind_post (start.growing (Growing.lift _)) fun config n₁ h₁ => ?_
  refine exec_bind_post (h₁.growing Growing.allocateRouterId) fun id n₂ h₂ => ?_
  refine exec_bind_post (P := SameInterfaces n) h₂ fun r n₃ h₃ => ?_
  refine exec_bind_post (sameInterfaces_setRouter h₃ k (some r)) fun _ n₄ h₄ => ?_
  exact h₄.growing (Growing.bind Growing.get fun _ => Growing.log)

theorem sameInterfaces_newManager (nodes : Option (List NodeId)) :
    SameInterfaces n (exec (newManager nodes) n).2 := fun _ => rfl

theorem OneNode.growing (hn : n.OneNode) {x : NetworkM α} (hx : Growing x) :
    (exec x n).2.OneNode := SameInterfaces.oneNode (hx n).interfaces_eq hn

/-- The interface that is added is a new one. -/
theorem OneNode.append {n' : Network} (hwf : n.WellFormed) (hn : n.OneNode) {k : NodeId}
    (h : ∀ j, (n'.node j).interfaces = (n.node j).interfaces ∨
      j = k ∧ (n'.node j).interfaces = (n.node j).interfaces ++ [n.interfaces.size]) :
    n'.OneNode := by
  have old {j : NodeId} {i : InterfaceId} (hi : i ∈ (n'.node j).interfaces) :
      i ∈ (n.node j).interfaces ∨ j = k ∧ i = n.interfaces.size := by
    rcases h j with hj | ⟨rfl, hj⟩
    · exact .inl (hj ▸ hi)
    · rw [hj, List.mem_append, List.mem_singleton] at hi
      exact hi.imp_right fun hi => ⟨rfl, hi⟩
  intro j l i hj hl
  rcases old hj with hj | ⟨rfl, rfl⟩ <;> rcases old hl with hl | ⟨rfl, hl⟩
  · exact hn j l i hj hl
  · exact absurd hl (Nat.ne_of_lt (hwf.interfaces j i hj))
  · exact absurd (hwf.interfaces l _ hl) (Nat.lt_irrefl _)
  · rfl

theorem oneNode_addInterface (hwf : n.WellFormed) (hn : n.OneNode) (k : NodeId) (name : String)
    (address : Option Address) (mask : Option Mask) (medium : Medium) :
    (exec (addInterface k name address mask medium) n).2.OneNode := by
  rw [exec_addInterface]
  dsimp only
  by_cases hname : (interfaceNamed? n k name).isSome
  · rw [if_pos hname]
    exact hn
  rw [if_neg hname, exec_bind]
  refine exec_bind_post (P := OneNode) (hn.append (k := k) hwf fun j => ?_) fun _ n₂ h₂ => ?_
  · exact interfaces_modify n.nodes k _ j
  · split
    · exact h₂.growing (Growing.configureNew _ _ _ _ _)
    · exact h₂.growing (.pure _)

theorem stable_oneNode : Stable fun n => n.WellFormed ∧ n.OneNode where
  grows h hn := ⟨hn.1.grows h, SameInterfaces.oneNode h.interfaces_eq hn.2⟩
  newNode name hn :=
    ⟨stable_wellFormed.newNode name hn.1, (sameInterfaces_newNode name).oneNode hn.2⟩
  addInterface k name address mask medium hn :=
    ⟨stable_wellFormed.addInterface k name address mask medium hn.1,
      oneNode_addInterface hn.1 hn.2 k name address mask medium⟩
  newRouter k overrides hn :=
    ⟨stable_wellFormed.newRouter k overrides hn.1,
      (sameInterfaces_newRouter k overrides).oneNode hn.2⟩
  newManager nodes hn :=
    ⟨stable_wellFormed.newManager nodes hn.1, (sameInterfaces_newManager nodes).oneNode hn.2⟩

theorem Reachable.oneNode (h : Reachable n) : n.OneNode := by
  refine (stable_oneNode.reachable (fun e => ⟨wellFormed_blank e, fun j k i hj => ?_⟩) h).2
  cases hj

end Network

end LinkState
