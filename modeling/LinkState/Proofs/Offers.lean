import LinkState.Proofs.HopOrder
import LinkState.Proofs.Hops
import LinkState.Proofs.Search.Chronicle

/-! How the routes of a tree come about. Each vertex that is foreign to the root offers a route to
each of its destinations, by the least of the hops that lead to it. Vertices come in order of
distance, so what is offered first stays. -/

namespace LinkState

namespace Route

variable {μ : Type}

def key (r : Route μ) : Address × Nat := (r.network, r.mask.length)

end Route

/-! ### Adding routes -/

namespace Tree

theorem offerRoute_cons (r s : Route Nat) (rs : List (Route Nat)) :
    offerRoute r (s :: rs) =
      if s.key = r.key then (if r.metric < s.metric then r else s) :: rs
      else s :: offerRoute r rs := by
  rw [offerRoute]
  simp only [Route.key, Prod.mk.injEq]

theorem map_key_offerRoute (r : Route Nat) (rs : List (Route Nat)) :
    (offerRoute r rs).map Route.key =
      if r.key ∈ rs.map Route.key then rs.map Route.key else rs.map Route.key ++ [r.key] := by
  induction rs with
  | nil => simp [offerRoute]
  | cons s rs ih =>
    rw [offerRoute_cons, List.map_cons]
    by_cases h : s.key = r.key
    · have hm : r.key ∈ s.key :: rs.map Route.key := h ▸ List.mem_cons_self ..
      rw [if_pos h, if_pos hm, List.map_cons]
      split
      · rw [h]
      · rfl
    · have hne : r.key ≠ s.key := fun e => h e.symm
      rw [if_neg h, List.map_cons, ih]
      simp only [List.mem_cons, hne, false_or]
      split <;> rfl

theorem nodup_offerRoute {r : Route Nat} {rs : List (Route Nat)} (h : (rs.map Route.key).Nodup) :
    ((offerRoute r rs).map Route.key).Nodup := by
  rw [map_key_offerRoute]
  split
  · exact h
  · next hm =>
    rw [List.nodup_append]
    refine ⟨h, List.nodup_singleton _, fun a ha b hb => ?_⟩
    rw [List.mem_singleton.1 hb]
    rintro rfl
    exact hm ha

def Lacks (rs : List (Route Nat)) (k : Address × Nat) : Prop := ∀ r ∈ rs, r.key ≠ k

theorem lacks_iff {rs : List (Route Nat)} {k : Address × Nat} :
    Lacks rs k ↔ k ∉ rs.map Route.key := by
  simp [Lacks]

theorem lacks_offerRoute {r : Route Nat} {rs : List (Route Nat)} {k : Address × Nat} :
    Lacks (offerRoute r rs) k ↔ r.key ≠ k ∧ Lacks rs k := by
  rw [lacks_iff, lacks_iff, map_key_offerRoute]
  split
  · next hm =>
    constructor
    · intro hk
      exact ⟨fun he => hk (he ▸ hm), hk⟩
    · exact And.right
  · simp only [List.mem_append, List.mem_singleton, not_or]
    constructor
    · intro hk
      exact ⟨fun he => hk.2 he.symm, hk.1⟩
    · intro hk
      exact ⟨hk.2, fun he => hk.1 he.symm⟩

/-- A route that is no shorter than those that are there adds to them only. -/
theorem mem_offerRoute {r s : Route Nat} {rs : List (Route Nat)}
    (h : ∀ t ∈ rs, t.metric ≤ r.metric) :
    s ∈ offerRoute r rs ↔ s ∈ rs ∨ s = r ∧ Lacks rs r.key := by
  induction rs with
  | nil => simp [offerRoute, Lacks]
  | cons t rs ih =>
    rw [List.forall_mem_cons] at h
    rw [offerRoute_cons]
    by_cases ht : t.key = r.key
    · have hlacks : ¬ Lacks (t :: rs) r.key := fun hl => hl t (List.mem_cons_self ..) ht
      rw [if_pos ht, if_neg (not_lt.2 h.1)]
      simp [hlacks]
    · have hlacks : Lacks (t :: rs) r.key ↔ Lacks rs r.key := by simp [Lacks, ht]
      rw [if_neg ht, List.mem_cons, ih h.2, List.mem_cons, hlacks, or_assoc]

def offerAll (hop : Hop) (distance : Nat) (ds : List (Address × Mask)) (rs : List (Route Nat)) :
    List (Route Nat) :=
  ds.foldl (fun rs (x, m) => offerRoute ⟨x, m, some hop.address, hop.interface, distance⟩ rs) rs

/-- The route by a hop to a destination. -/
def routeBy (hop : Hop) (distance : Nat) (d : Address × Mask) : Route Nat :=
  ⟨d.1, d.2, some hop.address, hop.interface, distance⟩

theorem nodup_offerAll {hop : Hop} {distance : Nat} {ds : List (Address × Mask)}
    {rs : List (Route Nat)} (h : (rs.map Route.key).Nodup) :
    ((offerAll hop distance ds rs).map Route.key).Nodup := by
  induction ds generalizing rs with
  | nil => exact h
  | cons d ds ih => exact ih (nodup_offerRoute h)

/-- A vertex adds its routes to the destinations that were not reached before it. -/
theorem mem_offerAll {hop : Hop} {distance : Nat} {ds : List (Address × Mask)}
    {rs : List (Route Nat)} {r : Route Nat} (h : ∀ t ∈ rs, t.metric ≤ distance)
    (hmask : ∀ d ∈ ds, ∀ e ∈ ds, d.1 = e.1 → d.2.length = e.2.length → d = e) :
    r ∈ offerAll hop distance ds rs ↔
      r ∈ rs ∨ (∃ d ∈ ds, r = routeBy hop distance d) ∧ Lacks rs r.key := by
  induction ds generalizing rs with
  | nil => simp [offerAll]
  | cons e ds ih =>
    have hfirst {t : Route Nat} := mem_offerRoute (r := routeBy hop distance e) (s := t) h
    have hbound : ∀ t ∈ offerRoute (routeBy hop distance e) rs, t.metric ≤ distance := by
      intro t ht
      rcases hfirst.1 ht with ht | ⟨rfl, -⟩
      · exact h t ht
      · exact le_refl _
    have hrest := ih hbound fun d hd e he => hmask d (List.mem_cons_of_mem _ hd) e
      (List.mem_cons_of_mem _ he)
    -- another entry for the first destination is the same entry again
    have same {d : Address × Mask} (hd : d ∈ ds)
        (hk : (routeBy hop distance e).key = (routeBy hop distance d).key) : d = e := by
      obtain ⟨hx, hl⟩ := Prod.mk.injEq .. ▸ hk
      exact hmask d (List.mem_cons_of_mem _ hd) e (List.mem_cons_self ..) hx.symm hl.symm
    rw [show offerAll hop distance (e :: ds) rs =
      offerAll hop distance ds (offerRoute (routeBy hop distance e) rs) from rfl, hrest, hfirst,
      lacks_offerRoute, List.exists_mem_cons_iff]
    constructor
    · rintro ((hr | ⟨rfl, hl⟩) | ⟨hd, -, hl⟩)
      · exact .inl hr
      · exact .inr ⟨.inl rfl, hl⟩
      · exact .inr ⟨.inr hd, hl⟩
    · rintro (hr | ⟨rfl | ⟨d, hd, rfl⟩, hl⟩)
      · exact .inl (.inl hr)
      · exact .inl (.inr ⟨rfl, hl⟩)
      · by_cases hk : (routeBy hop distance e).key = (routeBy hop distance d).key
        · obtain rfl := same hd hk
          exact .inl (.inr ⟨rfl, hl⟩)
        · exact .inr ⟨⟨d, hd, rfl⟩, hk, hl⟩

theorem routeBefore_iff {r t : Route Nat} : routeBefore r t ↔
    r.network.toNat < t.network.toNat ∨
      r.network.toNat = t.network.toNat ∧ r.mask.length ≤ t.mask.length := by
  rw [routeBefore, Address.compare, Ordering.isLE_then_iff_or, compare_lt_iff_lt, compare_eq_iff_eq,
    ← compare_le_iff_le, Ordering.isLE_iff_ne_gt]

def Ascending (rs : List (Route Nat)) : Prop :=
  rs.Pairwise fun r t =>
    r.network.toNat < t.network.toNat ∨ r.network = t.network ∧ r.mask.length < t.mask.length

theorem mergeSort_ascending {rs : List (Route Nat)} (h : (rs.map Route.key).Nodup) :
    Ascending (rs.mergeSort routeBefore) := by
  have trans (a b c : Route Nat) : routeBefore a b → routeBefore b c → routeBefore a c := by
    simp only [routeBefore_iff]
    omega
  have total (a b : Route Nat) : routeBefore a b || routeBefore b a := by
    rw [Bool.or_eq_true, routeBefore_iff, routeBefore_iff]
    omega
  have sorted := List.pairwise_mergeSort trans total rs
  have distinct : (rs.mergeSort routeBefore).Pairwise fun r t => r.key ≠ t.key := by
    rw [← List.pairwise_map]
    exact ((List.mergeSort_perm rs routeBefore).map Route.key).nodup_iff.2 h
  refine (sorted.and distinct).imp fun {r t} hrt => ?_
  obtain ⟨hle, hne⟩ := hrt
  rw [routeBefore_iff] at hle
  rcases hle with hlt | ⟨heq, hle⟩
  · exact .inl hlt
  · have hnet := Address.toNat_inj.1 heq
    refine .inr ⟨hnet, Nat.lt_of_le_of_ne hle fun hlen => hne ?_⟩
    rw [Route.key, Route.key, hnet, hlen]

/-- Ascending routes are known by which routes there are. -/
theorem Ascending.eq_of_mem_iff {rs ts : List (Route Nat)} (hr : Ascending rs) (ht : Ascending ts)
    (h : ∀ r, r ∈ rs ↔ r ∈ ts) : rs = ts := by
  have hne {r t : Route Nat} (hrt : r.network.toNat < t.network.toNat ∨
      r.network = t.network ∧ r.mask.length < t.mask.length) : r ≠ t := by
    rintro rfl
    omega
  refine List.Perm.eq_of_pairwise (fun r t _ _ hrt htr => ?_) hr ht
    ((List.perm_ext_iff_of_nodup (hr.imp hne) (ht.imp hne)).2 h)
  rcases hrt with hrt | ⟨hrt, hlt⟩
  · rcases htr with htr | ⟨htr, -⟩
    · omega
    · rw [htr] at hrt
      omega
  · rw [hrt] at htr
    omega

end Tree

/-! ### What the vertices of a tree offer -/

/-- A router gives the addresses that it has links at, a network gives itself. -/
def Gives (db : Database Advertisement) : VertexKey → Address → Nat → Prop
  | .router u, x, k => k = 32 ∧ ∃ r, Lists db u r ∧ r.type = .pointToPoint ∧ r.data = x
  | .network y l, x, k => y = x ∧ l = k

/-- Neither the root itself nor one of its own networks. -/
def Foreign (db : Database Advertisement) (root : Address) : VertexKey → Prop
  | .router u => u ≠ root
  | .network y l => ∀ w, ¬ Leads db root (.network y l) w

theorem gives_iff {db : Database Advertisement} {v : PathVertex} (hg : v.Genuine db) {x : Address}
    {k : Nat} : Gives db v.key x k ↔ ∃ m, (x, m) ∈ Tree.destinations v ∧ m.length = k := by
  rw [Vertex.key, Tree.destinations]
  cases htype : v.type with
  | router =>
    obtain ⟨-, hadv, hsome⟩ := hg.router htype
    obtain ⟨a, ha⟩ := Option.isSome_iff_exists.1 hsome
    rw [hadv, ha]
    simp only [VertexKey.make, Gives, Lists, ha, Option.elim_some, List.mem_filterMap,
      Option.some.injEq]
    constructor
    · rintro ⟨rfl, r, ⟨_, rfl, hr⟩, hp, rfl⟩
      refine ⟨Mask.host, ⟨r, hr, ?_⟩, Mask.length_ofLength 32⟩
      rw [if_pos hp]
    · rintro ⟨m, ⟨r, hr, hm⟩, rfl⟩
      split at hm
      · next hp =>
        obtain ⟨rfl, rfl⟩ := Prod.mk.injEq .. ▸ Option.some.inj hm
        exact ⟨Mask.length_ofLength 32, r, ⟨a, rfl, hr⟩, hp, rfl⟩
      · cases hm
  | network =>
    obtain ⟨-, m, -, hm, -⟩ := hg.network htype
    rw [hm]
    simp only [VertexKey.make, prefixLength, Gives, Option.elim_some, List.mem_singleton,
      Prod.mk.injEq]
    constructor
    · rintro ⟨rfl, rfl⟩
      exact ⟨m, ⟨rfl, rfl⟩, rfl⟩
    · rintro ⟨_, ⟨rfl, rfl⟩, rfl⟩
      exact ⟨rfl, rfl⟩

theorem whole_of_destinations {db : Database Advertisement} {v : PathVertex} (hg : v.Genuine db)
    {x : Address} {m : Mask} (hd : (x, m) ∈ Tree.destinations v) : m.Whole := by
  rw [Tree.destinations] at hd
  cases htype : v.type with
  | router =>
    rw [htype] at hd
    obtain ⟨r, -, hr⟩ := List.mem_filterMap.1 hd
    split at hr
    · obtain ⟨-, rfl⟩ := Prod.mk.injEq .. ▸ Option.some.inj hr
      exact Mask.whole_ofLength 32
    · cases hr
  | network =>
    rw [htype] at hd
    obtain ⟨-, m', y, hm, hy⟩ := hg.network htype
    rw [hm, Option.elim_some, List.mem_singleton] at hd
    obtain ⟨-, rfl⟩ := Prod.mk.injEq .. ▸ hd
    exact Mask.whole_of_octetsOf (Mask.ofAddress_eq_ok_iff.1 hy)

theorem Foreign.not_leads {db : Database Advertisement} {root : Address} {v : PathVertex}
    (hf : Foreign db root v.key) (htype : v.type = .network)
    (w : Nat) : ¬ Leads db root v.key w := by
  rw [Vertex.key, htype] at hf ⊢
  exact hf w

/-- The destinations of a vertex are known by address and prefix length. -/
theorem destination_unique {db : Database Advertisement} {v : PathVertex} (hg : v.Genuine db) :
    ∀ d ∈ Tree.destinations v, ∀ e ∈ Tree.destinations v, d.1 = e.1 → d.2.length = e.2.length →
      d = e := by
  intro d hd e he hx hl
  exact Prod.ext hx ((whole_of_destinations hg hd).eq_of_length_eq (whole_of_destinations hg he) hl)

namespace Search

variable {db : Database Advertisement} {root : Address} {s : Search} {names : NameOrder}
  {interfaces : List Interface} {rv : PathVertex}

theorem Finished.foreign_iff (hf : Finished db root s) (hr : s.tree.view 0 = some rv) {h : Nat}
    {v : PathVertex} (hv : s.tree.view h = some v) :
    (decide (h = 0) || decide (v.type = .network) && Tree.isOwnStub rv v) = false ↔
      Foreign db root v.key := by
  have hroot := hf.isRoot hr
  have hg := hf.sound.arena.genuine h v hv
  have horigin : h = 0 ↔ v.key = .router root := by
    obtain ⟨r, hr, hk, -⟩ := hf.sound.arena.origin
    constructor
    · rintro rfl
      obtain rfl := Option.some.inj (hv.symm.trans hr.1)
      exact hk
    · intro hkv
      exact hf.sound.arena.keys h 0 v r hv hr.1 (hkv.trans hk.symm)
  cases htype : v.type with
  | router =>
    rw [key_of_router htype] at horigin ⊢
    simp [horigin, Foreign]
  | network =>
    have hown := isOwnStub_iff hroot hg htype
    have hkey : ∃ l, v.key = .network v.id l := by
      rw [Vertex.key, htype]
      exact ⟨_, rfl⟩
    obtain ⟨l, hl⟩ := hkey
    rw [hl] at horigin hown ⊢
    have hz : h ≠ 0 := by
      intro e
      cases horigin.1 e
    rw [Foreign, ← not_exists, ← hown]
    simp [hz]

def HopTo (t : PathTree) (rv : PathVertex) (interfaces : List Interface) (h : Nat) (hop : Hop) :
    Prop :=
  ∃ y w, FirstHop t.view h y ∧ t.vertices[y]? = some w ∧ Tree.hopTo rv w interfaces = some hop

theorem mem_near {t : PathTree} {h : Nat} {hops : List Nat}
    (hm : ∀ y, y ∈ hops ↔ FirstHop t.view h y) {hop : Hop} :
    (hop ∈ hops.filterMap fun y => t.vertices[y]?.bind fun w => Tree.hopTo rv w interfaces) ↔
      HopTo t rv interfaces h hop := by
  simp only [List.mem_filterMap, Option.bind_eq_some_iff, hm, HopTo]
  constructor
  · rintro ⟨y, hy, w, hw, hh⟩
    exact ⟨y, w, hy, hw, hh⟩
  · rintro ⟨y, w, hy, hw, hh⟩
    exact ⟨y, hy, w, hw, hh⟩

/-- The least hop by which the root reaches the vertex at `h`. -/
def LeastHop (names : NameOrder) (t : PathTree) (rv : PathVertex) (interfaces : List Interface)
    (h : Nat) (hop : Hop) : Prop :=
  HopTo t rv interfaces h hop ∧
    ∀ other, HopTo t rv interfaces h other → (hop.compare names other).isLE

theorem LeastHop.unique {t : PathTree} {h : Nat} {hop other : Hop}
    (hl : LeastHop names t rv interfaces h hop) (hl' : LeastHop names t rv interfaces h other) :
    hop = other :=
  Hop.eq_of_isLE (hl.2 other hl'.1) (hl'.2 hop hl.1)

theorem least?_near {t : PathTree} {h : Nat} {hops : List Nat}
    (hm : ∀ y, y ∈ hops ↔ FirstHop t.view h y) {hop : Hop} :
    Hop.least? names
      (hops.filterMap fun y => t.vertices[y]?.bind fun w => Tree.hopTo rv w interfaces) =
      some hop ↔ LeastHop names t rv interfaces h hop := by
  simp only [Hop.least?_eq_some_iff, LeastHop, mem_near hm]

/-- If there is a hop to a vertex in the tree there is a least one. -/
theorem Finished.exists_leastHop (hf : Finished db root s) (names : NameOrder) {h : Nat}
    (hm : h ∈ s.tree.order) {hop : Hop} (hh : HopTo s.tree rv interfaces h hop) :
    ∃ least, LeastHop names s.tree rv interfaces h least := by
  obtain ⟨j, hj⟩ := Array.mem_iff_getElem?.1 hm
  have hc : Known s.tree.view [] := nofun
  obtain ⟨hops, -, -, -, hhops⟩ := hf.firstHops (j + 1) hj (Nat.lt_succ_self j) hc
  have hnear := (mem_near hhops).2 hh
  cases hl : Hop.least? names (hops.filterMap fun y => s.tree.vertices[y]?.bind fun w =>
      Tree.hopTo rv w interfaces) with
  | none =>
    rw [Hop.least?_eq_none.1 hl] at hnear
    cases hnear
  | some least => exact ⟨least, (least?_near hhops).1 hl⟩

def Offers (names : NameOrder) (db : Database Advertisement) (root : Address) (t : PathTree)
    (rv : PathVertex) (interfaces : List Interface) (e : Nat × PathVertex) (r : Route Nat) : Prop :=
  Foreign db root e.2.key ∧ ∃ hop, LeastHop names t rv interfaces e.1 hop ∧
    ∃ d ∈ Tree.destinations e.2, r = Tree.routeBy hop e.2.distance d

/-- Among the vertices, the first to offer a route to the destination offers this one. -/
inductive FirstOffers (offers : Nat × PathVertex → Route Nat → Prop) :
    List (Nat × PathVertex) → Route Nat → Prop
  | here {e : Nat × PathVertex} {es : List (Nat × PathVertex)} {r : Route Nat} (h : offers e r) :
    FirstOffers offers (e :: es) r
  | later {e : Nat × PathVertex} {es : List (Nat × PathVertex)} {r : Route Nat}
    (no : ∀ t, offers e t → t.key ≠ r.key) (h : FirstOffers offers es r) :
    FirstOffers offers (e :: es) r

namespace FirstOffers

variable {offers : Nat × PathVertex → Route Nat → Prop} {e : Nat × PathVertex}
  {es : List (Nat × PathVertex)} {r : Route Nat}

theorem cons_iff : FirstOffers offers (e :: es) r ↔
    offers e r ∨ (∀ t, offers e t → t.key ≠ r.key) ∧ FirstOffers offers es r := by
  constructor
  · intro h
    cases h with
    | here h => exact .inl h
    | later no h => exact .inr ⟨no, h⟩
  · intro h
    rcases h with h | ⟨no, h⟩
    · exact .here h
    · exact .later no h

theorem offers_of_mem (h : FirstOffers offers es r) : ∃ e ∈ es, offers e r := by
  induction h with
  | here h => exact ⟨_, List.mem_cons_self .., h⟩
  | later _ _ ih =>
    obtain ⟨e, he, hr⟩ := ih
    exact ⟨e, List.mem_cons_of_mem _ he, hr⟩

/-- To what is offered there is a first offer. -/
theorem exists_key (he : e ∈ es) (hr : offers e r) :
    ∃ t, FirstOffers offers es t ∧ t.key = r.key := by
  induction es with
  | nil => cases he
  | cons x es ih =>
    by_cases hx : ∃ t, offers x t ∧ t.key = r.key
    · obtain ⟨t, ht, hk⟩ := hx
      exact ⟨t, .here ht, hk⟩
    · rcases List.mem_cons.1 he with rfl | he
      · exact absurd ⟨r, hr, rfl⟩ hx
      · obtain ⟨t, ht, hk⟩ := ih he
        exact ⟨t, .later (fun u hu hku => hx ⟨u, hu, hku.trans hk⟩) ht, hk⟩

/-- Where later vertices are not nearer, the first offer is no longer than the others. -/
theorem metric_le (h : FirstOffers offers es r) {d : Nat × PathVertex → Nat}
    (hd : ∀ e t, offers e t → t.metric = d e) (hes : es.Pairwise fun e f => d e ≤ d f)
    {t : Route Nat} (he : e ∈ es) (ht : offers e t) (hk : t.key = r.key) : r.metric ≤ t.metric := by
  induction h with
  | here h =>
    rw [hd _ _ h, hd _ _ ht]
    rcases List.mem_cons.1 he with rfl | he
    · exact le_refl _
    · exact List.rel_of_pairwise_cons hes he
  | later no _ ih =>
    rcases List.mem_cons.1 he with rfl | he
    · exact absurd hk (no t ht)
    · exact ih hes.of_cons he hk

/-- Where one destination is offered one route only, the order does not matter. -/
theorem iff_of_unique
    (h : ∀ e ∈ es, ∀ f ∈ es, ∀ r t, offers e r → offers f t → t.key = r.key → r = t) :
    FirstOffers offers es r ↔ ∃ e ∈ es, offers e r := by
  constructor
  · exact offers_of_mem
  · intro hr
    obtain ⟨e, he, hr⟩ := hr
    obtain ⟨t, ht, hk⟩ := exists_key he hr
    obtain ⟨f, hf, hft⟩ := ht.offers_of_mem
    rwa [h e he f hf r t hr hft hk]

/-- Vertices that offer the same one by one offer the same first. -/
theorem congr {offers' : Nat × PathVertex → Route Nat → Prop} {es' : List (Nat × PathVertex)}
    (h : List.Forall₂ (fun e e' => ∀ r, offers e r ↔ offers' e' r) es es') (r : Route Nat) :
    FirstOffers offers es r ↔ FirstOffers offers' es' r := by
  induction h with
  | nil => exact iff_of_false nofun nofun
  | cons he _ ih => simp only [cons_iff, he, ih]

end FirstOffers

theorem Offers.metric_eq {t : PathTree} {e : Nat × PathVertex} {r : Route Nat}
    (h : Offers names db root t rv interfaces e r) : r.metric = e.2.distance := by
  obtain ⟨-, hop, -, d, -, rfl⟩ := h
  rfl

/-- A vertex adds what it offers to destinations that were not reached before it. -/
theorem Finished.collect (hf : Finished db root s) (hr : s.tree.vertices[0]? = some rv)
    (names : NameOrder) (interfaces : List Interface) {e : Nat × PathVertex}
    (he : e ∈ s.tree.inOrder) {rs : List (Route Nat)} (hn : (rs.map Route.key).Nodup)
    (hrs : ∀ r ∈ rs, r.metric ≤ e.2.distance)
    {cache : Tree.HopCache} (hc : Known s.tree.view cache) :
    ∃ rs' cache', s.tree.collect names rv interfaces (rs, cache) e = .ok (rs', cache') ∧
      Known s.tree.view cache' ∧ (rs'.map Route.key).Nodup ∧
      ∀ r, r ∈ rs' ↔
        r ∈ rs ∨ Offers names db root s.tree rv interfaces e r ∧ Tree.Lacks rs r.key := by
  obtain ⟨h, v⟩ := e
  obtain ⟨hm, hv⟩ := Tree.mem_inOrder.1 he
  have hview := Tree.view_of_getElem? hv
  have hforeign : (decide (h = 0) || decide (v.type = .network) && Tree.isOwnStub rv v) = false ↔
      Foreign db root v.key := by
    have hiff := hf.foreign_iff (Tree.view_of_getElem? hr) hview
    exact hiff
  rw [Tree.collect]
  dsimp only
  split
  · next hskip =>
    refine ⟨rs, cache, rfl, hc, hn, fun r => ⟨.inl, ?_⟩⟩
    intro hr
    rcases hr with hr | ⟨⟨hfor, -⟩, -⟩
    · exact hr
    · rw [hforeign.2 hfor] at hskip
      cases hskip
  · next hskip =>
    have hfor := hforeign.1 (Bool.eq_false_iff.2 hskip)
    obtain ⟨j, hj⟩ := Array.mem_iff_getElem?.1 hm
    have hlt : j < s.tree.order.size := (Array.getElem?_eq_some_iff.1 hj).1
    obtain ⟨hops, cache', hrun, hc', hhops⟩ := hf.firstHops s.tree.ancestryBound hj
      (by rw [Tree.ancestryBound, ← hf.size_order]; omega) hc
    have hnear (hop : Hop) : _ ↔ LeastHop names s.tree rv interfaces h hop := least?_near hhops
    rw [hrun]
    cases hl : Hop.least? names (hops.filterMap fun y => s.tree.vertices[y]?.bind fun w =>
        Tree.hopTo rv w interfaces) with
    | none =>
      refine ⟨rs, cache', ?_, hc', hn, fun r => ⟨.inl, ?_⟩⟩
      · simp only [bind, Except.bind, hl]
        rfl
      · intro hr
        rcases hr with hr | ⟨⟨-, hop, hh, -⟩, -⟩
        · exact hr
        · rw [(hnear hop).2 hh] at hl
          cases hl
    | some hop =>
      have hleast := (hnear hop).1 hl
      refine ⟨Tree.offerAll hop v.distance (Tree.destinations v) rs, cache', ?_, hc',
        Tree.nodup_offerAll hn, fun r => ?_⟩
      · simp only [bind, Except.bind, hl]
        rfl
      · have hoffers : Offers names db root s.tree rv interfaces (h, v) r ↔
            ∃ d ∈ Tree.destinations v, r = Tree.routeBy hop v.distance d := by
          constructor
          · intro hr
            obtain ⟨-, other, ho, hd⟩ := hr
            obtain rfl := hleast.unique ho
            exact hd
          · intro hd
            exact ⟨hfor, hop, hleast, hd⟩
        have hunique := destination_unique (hf.sound.arena.genuine h _ hview)
        rw [hoffers]
        exact Tree.mem_offerAll hrs hunique

/-- Over vertices in order of distance the first offers are added. -/
theorem Finished.foldlM_collect (hf : Finished db root s) (hr : s.tree.vertices[0]? = some rv)
    (names : NameOrder) (interfaces : List Interface) (es : List (Nat × PathVertex))
    (hes : ∀ e ∈ es, e ∈ s.tree.inOrder)
    (hasc : es.Pairwise fun e f => e.2.distance ≤ f.2.distance) (rs : List (Route Nat))
    (hn : (rs.map Route.key).Nodup) (hrs : ∀ r ∈ rs, ∀ e ∈ es, r.metric ≤ e.2.distance)
    (cache : Tree.HopCache) (hc : Known s.tree.view cache) :
    ∃ rs' cache', es.foldlM (s.tree.collect names rv interfaces) (rs, cache) = .ok (rs', cache') ∧
      (rs'.map Route.key).Nodup ∧ ∀ r, r ∈ rs' ↔
        r ∈ rs ∨ FirstOffers (Offers names db root s.tree rv interfaces) es r ∧
          Tree.Lacks rs r.key := by
  induction es generalizing rs cache with
  | nil =>
    refine ⟨rs, cache, rfl, hn, fun r => ⟨.inl, ?_⟩⟩
    intro hr
    rcases hr with hr | ⟨h, -⟩
    · exact hr
    · cases h
  | cons e es ih =>
    rw [List.forall_mem_cons] at hes
    rw [List.pairwise_cons] at hasc
    obtain ⟨rs₁, cache₁, hrun, hc₁, hn₁, hmem₁⟩ := hf.collect hr names interfaces hes.1 hn
      (fun r hr => hrs r hr e (List.mem_cons_self ..)) hc
    have hrs₁ : ∀ r ∈ rs₁, ∀ f ∈ es, r.metric ≤ f.2.distance := by
      intro r hr f he
      rcases (hmem₁ r).1 hr with hr | ⟨ho, -⟩
      · exact hrs r hr f (List.mem_cons_of_mem _ he)
      · exact ho.metric_eq.trans_le (hasc.1 f he)
    obtain ⟨rs₂, cache₂, hrun₂, hn₂, hmem₂⟩ := ih hes.2 hasc.2 rs₁ hn₁ hrs₁ cache₁ hc₁
    refine ⟨rs₂, cache₂, ?_, hn₂, fun r => ?_⟩
    · rw [List.foldlM_cons, hrun]
      exact hrun₂
    · -- a destination that was not reached before the vertex is so after it, unless it is offered
      have hlacks (hl : Tree.Lacks rs r.key) : Tree.Lacks rs₁ r.key ↔
          ∀ t, Offers names db root s.tree rv interfaces e t → t.key ≠ r.key := by
        constructor
        · intro hl₁ t ht hk
          exact hl₁ t ((hmem₁ t).2 (.inr ⟨ht, hk ▸ hl⟩)) hk
        · intro hno t ht
          rcases (hmem₁ t).1 ht with ht | ⟨ho, -⟩
          · exact hl t ht
          · exact hno t ho
      have hmono (hl₁ : Tree.Lacks rs₁ r.key) : Tree.Lacks rs r.key :=
        fun t ht => hl₁ t ((hmem₁ t).2 (.inl ht))
      rw [hmem₂, hmem₁, FirstOffers.cons_iff]
      tauto

theorem Chronicle.pairwise_inOrder {done : Nat → Prop} (hch : Chronicle db s.tree done) :
    s.tree.inOrder.Pairwise fun e f => e.2.distance ≤ f.2.distance := by
  rw [Tree.inOrder, List.pairwise_filterMap, List.pairwise_iff_getElem]
  intro a b ha hb hab e he f hf
  obtain ⟨v, hv, rfl⟩ := Option.map_eq_some_iff.1 he
  obtain ⟨w, hw, rfl⟩ := Option.map_eq_some_iff.1 hf
  have place {a : Nat} (ha : a < s.tree.order.toList.length) :
      s.tree.order[a]? = some s.tree.order.toList[a] := by simp
  exact hch.ascending a b _ _ v.bare w.bare hab.le ⟨place ha, Tree.view_of_getElem? hv⟩
    ⟨place hb, Tree.view_of_getElem? hw⟩

/-- The routes of a tree are what its vertices offer first. -/
theorem Finished.routes_iff (hf : Finished db root s) (hch : Chronicle db s.tree fun _ => True)
    (hr : s.tree.vertices[0]? = some rv) (names : NameOrder) (interfaces : List Interface) :
    ∃ rs, s.tree.routes names interfaces = .ok rs ∧ Tree.Ascending rs ∧
      ∀ r, r ∈ rs ↔ FirstOffers (Offers names db root s.tree rv interfaces) s.tree.inOrder r := by
  obtain ⟨found, cache, hrun, hn, hmem⟩ := hf.foldlM_collect hr names interfaces s.tree.inOrder
    (fun _ he => he) hch.pairwise_inOrder [] List.nodup_nil nofun [] nofun
  refine ⟨found.mergeSort Tree.routeBefore, ?_, Tree.mergeSort_ascending hn, fun r => ?_⟩
  · rw [Tree.routes, Tree.root?, hr]
    exact congrArg (· >>= fun x => pure (x.1.mergeSort Tree.routeBefore)) hrun
  · rw [List.mem_mergeSort, hmem]
    simp [Tree.Lacks]

end Search

end LinkState
