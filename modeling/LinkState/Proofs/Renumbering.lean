import LinkState.Proofs.EqualCost
import LinkState.Proofs.Routes
import LinkState.Proofs.Twins

/-! Routes do not depend on which IDs routers have. IDs decide between candidates of one distance,
and so the order of the vertices and of their parents. If links between routers have positive
metrics and no network of metric 0 has an address below an ID, all routers on shortest paths become
parents whatever the order. So parents of twins are twins, and if each address is given by one
router the vertices offer routes to different destinations, so that their order does not matter. -/

namespace LinkState

instance : Finite Address :=
  Finite.of_injective (fun x : Address => (⟨x.toNat, x.toNat_lt⟩ : Fin 0x100000000)) fun _ _ h =>
    Address.toNat_inj.1 (Fin.mk.inj h)

namespace Advertisement

def rename (f : Address → Address) (a : Advertisement) : Advertisement :=
  { a with id := f a.id, origin := f a.origin, records := a.records.map (·.rename f) }

end Advertisement

namespace Database

def rename (f : Address → Address) (hf : Function.Injective f) (db : Database Advertisement) :
    Database Advertisement :=
  ⟨db.entries.map fun e => (f e.1, e.2.rename f), by
    simpa [Function.comp_def] using db.nodup.map hf⟩

theorem get?_rename {f : Address → Address} (hf : Function.Injective f)
    (db : Database Advertisement) (u : Address) :
    (db.rename f hf).get? (f u) = (db.get? u).map (·.rename f) := by
  show find? (f u) (db.entries.map fun e => (f e.1, e.2.rename f)) =
    (find? u db.entries).map (·.rename f)
  induction db.entries with
  | nil => rfl
  | cons e es ih =>
    obtain ⟨k, a⟩ := e
    by_cases hk : k = u <;> simp [find?, hk, hf.eq_iff, ih]

/-- Networks that are advertised at metric 0 have no address below one of the IDs. -/
def ZeroStubsAbove (db : Database Advertisement) (ids : List Address) : Prop :=
  ∀ e ∈ db.entries, ∀ r ∈ e.2.records, r.type = .stubNetwork → r.metric.value = 0 →
    ∀ id ∈ ids, id.toNat ≤ r.id.toNat

instance (db : Database Advertisement) (ids : List Address) : Decidable (db.ZeroStubsAbove ids) :=
  inferInstanceAs (Decidable (∀ e ∈ db.entries, _))

/-- The address that a router has a link at is neither that of a link of another router nor a
network of its own. -/
def OwnAddresses (db : Database Advertisement) : Prop :=
  ∀ e ∈ db.entries, ∀ r ∈ e.2.records, r.type = .pointToPoint →
    ∀ e' ∈ db.entries, ∀ l ∈ e'.2.records,
      (l.type = .pointToPoint → l.data = r.data → e'.1 = e.1) ∧
        (l.type = .stubNetwork → l.data = ⟨255, 255, 255, 255⟩ → l.id ≠ r.data)

instance (db : Database Advertisement) : Decidable db.OwnAddresses :=
  inferInstanceAs (Decidable (∀ e ∈ db.entries, _))

end Database

/-- An injective renaming of the finitely many IDs goes both ways. -/
noncomputable def idPerm (f : Address → Address) (hf : Function.Injective f) : Equiv.Perm Address :=
  Equiv.ofBijective f (Finite.injective_iff_bijective.1 hf)

@[simp]
theorem coe_idPerm {f : Address → Address} (hf : Function.Injective f) : ⇑(idPerm f hf) = f := rfl

theorem Database.renamed_rename {f : Address → Address} (hf : Function.Injective f)
    (db : Database Advertisement) : Renamed (idPerm f hf) db (db.rename f hf) := by
  intro u
  rw [coe_idPerm, get?_rename]
  cases db.get? u with
  | none => exact .none
  | some a => exact .some (.refl _)

/-- The mask of a single address is `255.255.255.255`. -/
theorem Mask.address_of_length_eq {x : Address} {m : Mask} (h : Mask.ofAddress x = .ok m)
    (hl : m.length = 32) : x = ⟨255, 255, 255, 255⟩ := by
  have hx := Mask.ofAddress_eq_ok_iff.1 h
  have hhost : Mask.host.octets = Mask.octetsOf ⟨255, 255, 255, 255⟩ := by decide
  have hm : m = Mask.host := (Mask.whole_of_octetsOf hx).eq_of_length_eq (Mask.whole_ofLength 32)
    (hl.trans (Mask.length_ofLength 32).symm)
  rw [hm, hhost] at hx
  exact (Mask.octetsOf_injective hx).symm

namespace Search

variable {f : Equiv.Perm Address} {db db' : Database Advertisement} {root root' : Address}
  {s s' : Search} {names : NameOrder} {interfaces : List Interface} {rv : PathVertex}

/-- A record of metric 0 leads to no network with an address below an ID. -/
def NoneBelow (db : Database Advertisement) : Prop :=
  ∀ u x k v, Leads db u (.network x k) 0 → (db.get? v).isSome → v.toNat ≤ x.toNat

/-- An address is given by the vertex of one router, or by that of a network. -/
def OneGiver (db : Database Advertisement) : Prop :=
  (∀ u v x, Gives db (.router u) x 32 → Gives db (.router v) x 32 → u = v) ∧
    ∀ u x v w, Gives db (.router u) x 32 → ¬ Leads db v (.network x 32) w

theorem le_of_zeroStubsAbove {ids : List Address} (h : db.ZeroStubsAbove ids) {u x v : Address}
    {k : Nat} (hl : Leads db u (.network x k) 0) (hv : v ∈ ids) : v.toNat ≤ x.toNat := by
  generalize hw : 0 = w at hl
  cases hl with
  | network own mem type => exact h _ (mem_entries_of_get? own) _ mem type hw.symm v hv

theorem oneGiver (h : db.OwnAddresses) : OneGiver db := by
  constructor
  · intro u v x hu hv
    obtain ⟨-, r, ⟨a, ha, hr⟩, hrt, rfl⟩ := hu
    obtain ⟨-, l, ⟨b, hb, hl⟩, hlt, hx⟩ := hv
    exact ((h _ (mem_entries_of_get? ha) r hr hrt _ (mem_entries_of_get? hb) l hl).1 hlt hx).symm
  · intro u x v w hu hl
    obtain ⟨-, r, ⟨a, ha, hr⟩, hrt, rfl⟩ := hu
    generalize hk : VertexKey.network r.data 32 = k at hl
    cases hl with
    | router => cases hk
    | network own mem type mask =>
      obtain ⟨hid, hlen⟩ := VertexKey.network.inj hk
      exact (h _ (mem_entries_of_get? ha) r hr hrt _ (mem_entries_of_get? own) _ mem).2 type
        (Mask.address_of_length_eq mask hlen.symm) hid.symm

theorem OneGiver.congr (hone : OneGiver db) (h : SameRecords db db') : OneGiver db' := by
  simpa only [OneGiver, h.gives_iff, h.leads_iff] using hone

theorem Lengthens.renamed (hpos : Lengthens db) (h : Renamed f db db') : Lengthens db' := by
  intro u id w hl
  exact hpos _ _ w (h.symm.leads hl)

/-- No router misses a network, so all that lead to a vertex along a shortest path are parents. -/
theorem Finished.mem_parents_of_upstream (hf : Finished db root s)
    (hch : Chronicle db s.tree fun _ => True) (hpos : Lengthens db) (hnone : NoneBelow db)
    {h p : Nat} {u v : PathVertex} (hv : (h, v) ∈ s.tree.inOrder)
    (hu : s.tree.Upstream db p u v) : p ∈ v.parents := by
  refine (hf.mem_parents_iff_upstream hch hpos hv).2 ⟨u, hu, fun hout => ?_⟩
  obtain ⟨-, -, w, hl, hsum⟩ := hu
  obtain ⟨hn, hd, hlt, -⟩ := hout
  obtain rfl : w = 0 := by omega
  have hkey : v.key = .network v.id (prefixLength v.mask) := by
    rw [Vertex.key, hn]
    rfl
  rw [hkey] at hl
  have := hnone u.id v.id _ u.id hl hl.isSome
  omega

theorem twinParents_of_renamed (hf : Finished db root s) (hch : Chronicle db s.tree fun _ => True)
    (hf' : Finished db' (f root) s') (hch' : Chronicle db' s'.tree fun _ => True)
    (h : Renamed f db db') (hpos : Lengthens db) (hnone : NoneBelow db') :
    TwinParents f s.tree s'.tree := by
  intro i i' v v' hv hv' hk p hp
  obtain ⟨x, hx, rfl⟩ := hf.inOrder_of_view hv
  obtain ⟨x', hx', rfl⟩ := hf'.inOrder_of_view hv'
  obtain ⟨u, ⟨hu, hr, w, hl, hsum⟩, -⟩ := (hf.mem_parents_iff_upstream hch hpos hx).1 hp
  have hview := Tree.view_of_getElem? (Tree.mem_inOrder.1 hu).2
  obtain ⟨p', y, hy, hky, hdy⟩ := hf.exists_twin hf' h hview
  obtain ⟨j, z, hz, hkz, hdz⟩ := hf.exists_twin hf' h hv
  obtain rfl := hf'.sound.arena.keys j i' z _ hz hv' (hkz.trans hk.symm)
  obtain rfl := Option.some.inj (hz.symm.trans hv')
  obtain ⟨y, hmem, rfl⟩ := hf'.inOrder_of_view hy
  refine ⟨p', ?_, _, _, hview, hy, hky⟩
  have hku : u.bare.key = .router u.id := key_of_router hr
  rw [hku] at hky
  obtain ⟨hyr, hyid⟩ := key_eq_router_iff.1 hky
  have hlead := h.leads hl
  show p' ∈ x'.parents
  refine hf'.mem_parents_of_upstream hch' (hpos.renamed h) hnone hx' ⟨hmem, hyr, w, ?_, ?_⟩
  · rw [show y.id = f u.id from hyid, show x'.key = x.key.rename f from hk]
    exact hlead
  · rw [show y.distance = u.distance from hdy, hsum]
    exact hdz.symm

/-! ### Each destination is offered once -/

theorem OneGiver.not_network (hone : OneGiver db) {u x y : Address} {l k d : Nat}
    (hg : Gives db (.router u) x l) (hw : Walk db root (.network y k) d) :
    ¬ Gives db (.network y k) x l := by
  rintro ⟨rfl, rfl⟩
  obtain ⟨rfl, -⟩ := id hg
  cases hw with
  | step _ hl => exact hone.2 u y _ _ hg hl

/-- Of what the root has walks to, one vertex gives an address. -/
theorem OneGiver.key_eq (hone : OneGiver db) {k k' : VertexKey} {d d' l : Nat} {x : Address}
    (hw : Walk db root k d) (hw' : Walk db root k' d') (hg : Gives db k x l)
    (hg' : Gives db k' x l) : k = k' := by
  cases k with
  | router u =>
    cases k' with
    | router v =>
      obtain ⟨rfl, -⟩ := id hg
      rw [hone.1 u v x hg hg']
    | network y l' => exact absurd hg' (hone.not_network hg hw')
  | network y l' =>
    cases k' with
    | router v => exact absurd hg (hone.not_network hg' hw)
    | network z m =>
      obtain ⟨rfl, rfl⟩ := hg
      obtain ⟨rfl, rfl⟩ := hg'
      rfl

theorem Finished.offers_unique (hf : Finished db root s) (hone : OneGiver db)
    {e e' : Nat × PathVertex}
    (he : e ∈ s.tree.inOrder) (he' : e' ∈ s.tree.inOrder) {r t : Route Nat}
    (ho : Offers names db root s.tree rv interfaces e r)
    (ho' : Offers names db root s.tree rv interfaces e' t) (hk : t.key = r.key) : r = t := by
  obtain ⟨h, v⟩ := e
  obtain ⟨h', v'⟩ := e'
  obtain ⟨-, hop, hl, d, hd, rfl⟩ := ho
  obtain ⟨-, hop', hl', d', hd', rfl⟩ := ho'
  have hv := (Tree.mem_inOrder.1 he).2
  have hv' := (Tree.mem_inOrder.1 he').2
  have hview := Tree.view_of_getElem? hv
  have hview' := Tree.view_of_getElem? hv'
  obtain ⟨hx, hlen⟩ : d'.1 = d.1 ∧ d'.2.length = d.2.length := by
    simpa [Route.key, Tree.routeBy] using hk
  have hg : Gives db v.key d.1 d.2.length := (gives_iff (hf.genuine hv)).2 ⟨d.2, hd, rfl⟩
  have hg' : Gives db v'.key d.1 d.2.length := by
    refine (gives_iff (hf.genuine hv')).2 ⟨d'.2, ?_, hlen⟩
    rw [← hx]
    exact hd'
  have hkey := hone.key_eq (hf.sound.arena.walk h _ hview) (hf.sound.arena.walk h' _ hview') hg hg'
  obtain rfl := hf.sound.arena.keys h h' _ _ hview hview' hkey
  obtain rfl := Option.some.inj (hv.symm.trans hv')
  obtain rfl := hl.unique hl'
  obtain rfl := destination_unique (hf.genuine hv) d' hd' d hd hx hlen
  rfl

theorem routes_renamed (hf : Finished db root s) (hch : Chronicle db s.tree fun _ => True)
    (hf' : Finished db' (f root) s') (hch' : Chronicle db' s'.tree fun _ => True)
    (h : Renamed f db db') (hpos : Lengthens db) (hnone : NoneBelow db) (hnone' : NoneBelow db')
    (hone : OneGiver db) (names : NameOrder) (interfaces : List Interface) :
    ∃ rs, s.tree.routes names interfaces = .ok rs ∧ s'.tree.routes names interfaces = .ok rs := by
  have ha : Alike f db db' root (f root) s s' := by
    refine ⟨hf, hf', h, rfl, twinParents_of_renamed hf hch hf' hch' h hpos hnone', ?_⟩
    have hback : Finished db (f.symm (f root)) s := by simpa using hf
    exact twinParents_of_renamed hf' hch' hback hch h.symm (hpos.renamed h) hnone
  refine ha.routes_eq hch hch' names interfaces fun rv rv' hr hr' r => ?_
  have unique : ∀ e ∈ s.tree.inOrder, ∀ e' ∈ s.tree.inOrder, ∀ r t,
      Offers names db root s.tree rv interfaces e r →
        Offers names db root s.tree rv interfaces e' t →
        t.key = r.key → r = t :=
    fun e he e' he' r t ho ho' hk => hf.offers_unique hone he he' ho ho' hk
  have unique' : ∀ e ∈ s'.tree.inOrder, ∀ e' ∈ s'.tree.inOrder, ∀ r t,
      Offers names db' (f root) s'.tree rv' interfaces e r →
        Offers names db' (f root) s'.tree rv' interfaces e' t → t.key = r.key → r = t := by
    intro e he e' he' r t ho ho' hk
    obtain ⟨x, hx, hox⟩ := ha.symm.exists_offer hr' hr he ho
    obtain ⟨y, hy, hoy⟩ := ha.symm.exists_offer hr' hr he' ho'
    exact unique x hx y hy r t hox hoy hk
  rw [FirstOffers.iff_of_unique unique, FirstOffers.iff_of_unique unique']
  constructor
  · intro hoffer
    obtain ⟨e, he, ho⟩ := hoffer
    exact ha.exists_offer hr hr' he ho
  · intro hoffer
    obtain ⟨e, he, ho⟩ := hoffer
    exact ha.symm.exists_offer hr' hr he ho

end Search

namespace Network

open Search

/-- Under other router IDs a search gives the node of the root the same routes, if links between
routers have positive metrics, no network of metric 0 has an address below an ID, old or new, and
each address belongs to one router. -/
theorem calculate_renamed (n n' : Network) (s s' : SearcherId) (root : Address)
    (f : Address → Address) (hf : Function.Injective f)
    (hdb : SameRecords ((n.snapshot (n.searcher s).database).rename f hf)
      (n'.snapshot (n'.searcher s').database))
    (hpos : (n.snapshot (n.searcher s).database).PositiveLinks)
    (hstubs : (n.snapshot (n.searcher s).database).ZeroStubsAbove
      ((n.snapshot (n.searcher s).database).keys ++
        ((n.snapshot (n.searcher s).database).rename f hf).keys))
    (hown : (n.snapshot (n.searcher s).database).OwnAddresses) :
    Completes (calculate s root) n fun t _ => Completes (calculate s' (f root)) n' fun t' _ =>
      ∀ names interfaces, ∃ rs,
        t.routes names interfaces = .ok rs ∧ t'.routes names interfaces = .ok rs := by
  refine (completes_calculate s root).mono fun t n₁ ht => ?_
  refine (completes_calculate s' (f root)).mono fun t' n₁' ht' => ?_
  obtain ⟨-, db, hdb₁, rfl, -⟩ := ht
  obtain ⟨-, db', hdb₂, rfl, -⟩ := ht'
  generalize n.snapshot (n.searcher s).database = d at *
  have hdb' := hdb.trans hdb₂
  have hren : Renamed (idPerm f hf) db db' :=
    hdb₁.symm.rearranged.renamed.trans ((d.renamed_rename hf).trans hdb'.rearranged.renamed)
  cases hroot : db.get? root with
  | none =>
    have hempty : shortestPaths db root = .empty := run_noRoot hroot
    have hempty' : shortestPaths db' (f root) = .empty := run_noRoot (hren.eq_none hroot)
    rw [hempty, hempty']
    exact fun _ _ => ⟨[], rfl, rfl⟩
  | some a =>
    have hsome : (db.get? root).isSome := hroot ▸ rfl
    have hsome' : (db'.get? (f root)).isSome := hren.isSome hsome
    have hlong : Lengthens db := (lengthens_of_positiveLinks hpos).renamed hdb₁.rearranged.renamed
    refine routes_renamed (run_finished hsome) (run_chronicle hsome) (run_finished hsome')
      (run_chronicle hsome') hren hlong ?_ ?_ ((oneGiver hown).congr hdb₁)
    · intro u x k v hl hv
      refine le_of_zeroStubsAbove hstubs (hdb₁.leads_iff.2 hl) (List.mem_append_left _ ?_)
      exact Database.mem_keys_iff.2 (hdb₁.isSome_get? v ▸ hv)
    · intro u x k v hl hv
      have hback := (d.renamed_rename hf).symm.leads (hdb'.leads_iff.2 hl)
      refine le_of_zeroStubsAbove hstubs hback (List.mem_append_right _ ?_)
      exact Database.mem_keys_iff.2 (hdb'.isSome_get? v ▸ hv)

def diamond : List Advertisement :=
  [⟨⟨1, 1, 1, 1⟩, ⟨1, 1, 1, 1⟩, .notExplored,
    [⟨.pointToPoint, ⟨2, 2, 2, 2⟩, ⟨10, 1, 0, 1⟩, defaultInterfaceCost⟩,
     ⟨.pointToPoint, ⟨3, 3, 3, 3⟩, ⟨10, 2, 0, 1⟩, defaultInterfaceCost⟩]⟩,
   ⟨⟨2, 2, 2, 2⟩, ⟨2, 2, 2, 2⟩, .notExplored,
    [⟨.pointToPoint, ⟨1, 1, 1, 1⟩, ⟨10, 1, 0, 2⟩, defaultInterfaceCost⟩,
     ⟨.pointToPoint, ⟨4, 4, 4, 4⟩, ⟨10, 3, 0, 1⟩, defaultInterfaceCost⟩]⟩,
   ⟨⟨3, 3, 3, 3⟩, ⟨3, 3, 3, 3⟩, .notExplored,
    [⟨.pointToPoint, ⟨1, 1, 1, 1⟩, ⟨10, 2, 0, 2⟩, defaultInterfaceCost⟩,
     ⟨.pointToPoint, ⟨4, 4, 4, 4⟩, ⟨10, 4, 0, 1⟩, defaultInterfaceCost⟩]⟩,
   ⟨⟨4, 4, 4, 4⟩, ⟨4, 4, 4, 4⟩, .notExplored,
    [⟨.pointToPoint, ⟨2, 2, 2, 2⟩, ⟨10, 3, 0, 2⟩, defaultInterfaceCost⟩,
     ⟨.pointToPoint, ⟨3, 3, 3, 3⟩, ⟨10, 4, 0, 2⟩, defaultInterfaceCost⟩,
     ⟨.stubNetwork, ⟨10, 5, 0, 0⟩, ⟨255, 255, 255, 0⟩, .zero⟩]⟩]

def swapIds : Equiv.Perm Address := Equiv.swap ⟨2, 2, 2, 2⟩ ⟨3, 3, 3, 3⟩

/-- Searchers over the advertisements and over those under the new IDs. -/
def bothNumberings : Network :=
  (exec (do
    discard (searcherOver diamond)
    searcherOver (diamond.map (·.rename swapIds))) .empty).2

theorem calculate_renamed_bothNumberings :
    SameRecords ((bothNumberings.snapshot (bothNumberings.searcher 0).database).rename swapIds
        swapIds.injective) (bothNumberings.snapshot (bothNumberings.searcher 1).database) ∧
      (bothNumberings.snapshot (bothNumberings.searcher 0).database).PositiveLinks ∧
      (bothNumberings.snapshot (bothNumberings.searcher 0).database).ZeroStubsAbove
        ((bothNumberings.snapshot (bothNumberings.searcher 0).database).keys ++
          ((bothNumberings.snapshot (bothNumberings.searcher 0).database).rename swapIds
            swapIds.injective).keys) ∧
      (bothNumberings.snapshot (bothNumberings.searcher 0).database).OwnAddresses ∧
      ∃ t t', (exec (calculate 0 ⟨1, 1, 1, 1⟩) bothNumberings).1 = .ok t ∧
        (exec (calculate 1 (swapIds ⟨1, 1, 1, 1⟩)) bothNumberings).1 = .ok t' ∧
          ∀ names interfaces, ∃ rs,
            t.routes names interfaces = .ok rs ∧ t'.routes names interfaces = .ok rs := by
  have hentries : ((bothNumberings.snapshot (bothNumberings.searcher 0).database).rename swapIds
      swapIds.injective).entries =
        (bothNumberings.snapshot (bothNumberings.searcher 1).database).entries := by
    decide +kernel
  have hdb : SameRecords ((bothNumberings.snapshot (bothNumberings.searcher 0).database).rename
      swapIds swapIds.injective)
        (bothNumberings.snapshot (bothNumberings.searcher 1).database) := by
    intro id
    rw [Database.get?, Database.get?, hentries]
  have hpos : (bothNumberings.snapshot (bothNumberings.searcher 0).database).PositiveLinks := by
    decide +kernel
  have hstubs : (bothNumberings.snapshot (bothNumberings.searcher 0).database).ZeroStubsAbove
      ((bothNumberings.snapshot (bothNumberings.searcher 0).database).keys ++
        ((bothNumberings.snapshot (bothNumberings.searcher 0).database).rename swapIds
          swapIds.injective).keys) := by decide +kernel
  have hown : (bothNumberings.snapshot (bothNumberings.searcher 0).database).OwnAddresses := by
    decide +kernel
  have hq : bothNumberings.Quiet := quiet_of_nil (by decide +kernel)
  obtain ⟨t, ht, hrest⟩ := (calculate_renamed bothNumberings bothNumberings 0 1 ⟨1, 1, 1, 1⟩ swapIds
    swapIds.injective hdb hpos hstubs hown).of_quiet hq
  obtain ⟨t', ht', hroutes⟩ := hrest.of_quiet hq
  exact ⟨hdb, hpos, hstubs, hown, t, t', ht, ht', hroutes⟩

end Network

end LinkState
