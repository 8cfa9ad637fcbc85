import LinkState.Proofs.Calculation
import LinkState.Proofs.Search.Chronicle

/-! Paths of equal length. A vertex has every router as a parent that stands before it on a shortest
path, and no other. If links between routers have positive metrics, routers are settled in the order
of their ranks, and so the only vertex that is settled before such a router is a network with a
record of metric 0: it is settled with the first of these routers, before those of equal distance
whose IDs are above its address. -/

namespace LinkState

def Database.PositiveLinks (db : Database Advertisement) : Prop :=
  ∀ e ∈ db.entries, ∀ r ∈ e.2.records, r.type = .pointToPoint → 1 ≤ r.metric.value

instance (db : Database Advertisement) : Decidable db.PositiveLinks :=
  inferInstanceAs (Decidable (∀ e ∈ db.entries, _))

namespace Tree

/-- The router `u` at the handle `p` is in the tree, and one of its records leads to `v` along a
shortest path. -/
def Upstream (db : Database Advertisement) (t : PathTree) (p : Nat) (u v : PathVertex) : Prop :=
  (p, u) ∈ t.inOrder ∧ u.type = .router ∧ ∃ w, Leads db u.id v.key w ∧ u.distance + w = v.distance

/-- The network `v` is as far as the router `u`, its address is below the ID of `u`, and it is
reached over a router nearer than `u`, or as near and of a lower ID. -/
def LeftOut (db : Database Advertisement) (t : PathTree) (u v : PathVertex) : Prop :=
  v.type = .network ∧ u.distance = v.distance ∧ v.id.toNat < u.id.toNat ∧
    ∃ q x, t.Upstream db q x v ∧
      (x.distance < u.distance ∨ x.distance = u.distance ∧ x.id.toNat < u.id.toNat)

end Tree

namespace Search

variable {db : Database Advertisement} {root : Address} {s : Search} {a b i p : Nat}
  {u v : PathVertex}

def Lengthens (db : Database Advertisement) : Prop :=
  ∀ u id w, Leads db u (.router id) w → 0 < w

theorem lengthens_of_positiveLinks (hpos : db.PositiveLinks) : Lengthens db := by
  intro u id w hl
  cases hl with
  | router own mem type => exact hpos _ (mem_entries_of_get? own) _ mem type

theorem rank_lt_iff_of_router (hu : u.Genuine db) (hv : v.Genuine db) (hr : u.type = .router)
    (hr' : v.type = .router) : u.rank < v.rank ↔
      u.distance < v.distance ∨ u.distance = v.distance ∧ u.id.toNat < v.id.toNat := by
  rw [hu.rank_eq, hv.rank_eq, key_of_router hr, key_of_router hr']
  simp [VertexKey.rank, Prod.Lex.toLex_lt_toLex]

theorem rank_lt_iff_of_network (hu : u.Genuine db) (hv : v.Genuine db) (hr : u.type = .router)
    (hn : v.type = .network) : v.rank < u.rank ↔
      v.distance < u.distance ∨ v.distance = u.distance ∧ v.id.toNat < u.id.toNat := by
  have hkey : ∃ k, v.key = .network v.id k := ⟨prefixLength v.mask, by rw [Vertex.key, hn]; rfl⟩
  obtain ⟨k, hk⟩ := hkey
  rw [hu.rank_eq, hv.rank_eq, key_of_router hr, hk]
  simp [VertexKey.rank, Prod.Lex.toLex_lt_toLex]

section Finished

variable (hf : Finished db root s) (hch : Chronicle db s.tree fun _ => True) (hpos : Lengthens db)
include hf hch hpos

/-- A router stands before all that is of higher rank: something nearer leads to it, so it was
waiting when that was chosen. -/
theorem router_before (hu : Stands s.tree a p u) (hr : u.type = .router)
    (hv : Stands s.tree b i v) (hlt : u.rank < v.rank) : a < b := by
  by_contra hle
  have hd := Vertex.distance_le_of_rank_le hlt.le
  by_cases hp : p = 0
  · subst hp
    obtain rfl := hf.stands_root hu
    obtain rfl : b = 0 := by omega
    obtain rfl := Option.some.inj (hu.1.symm.trans hv.1)
    obtain rfl := Option.some.inj (hu.2.symm.trans hv.2)
    exact lt_irrefl _ hlt
  · obtain ⟨q, hq⟩ := List.exists_mem_of_ne_nil _ (hf.sound.arena.parents p u hu.2 hp)
    obtain ⟨c, x, w, hca, hx, hxr, hl, hsum⟩ := (hf.mem_parents_iff hch hu).1 hq
    have hw := hpos x.id u.id w (key_of_router hr ▸ hl)
    have hcb := hch.lt_of_distance_lt hx hv (by omega)
    have hmax := hf.sound.arena.le_max p u hu.2
    rcases hch.chosen c b q i x v u.key w hcb hx hv hxr hl (by omega) with hearlier | hrank
    · obtain ⟨e, j, y, heb, hy, hk⟩ := hearlier
      obtain ⟨rfl, -⟩ := hf.stands_unique hy hu hk
      omega
    · rw [hsum, ← (hf.sound.arena.genuine p u hu.2).rank_eq] at hrank
      exact absurd hlt (not_lt.2 hrank)

theorem rank_lt_of_before {q c : Nat} {x : PathVertex} (hx : Stands s.tree c q x)
    (hu : Stands s.tree a p u) (hr : u.type = .router) (hca : c < a) : x.rank < u.rank := by
  rcases lt_trichotomy x.rank u.rank with hlt | heq | hgt
  · exact hlt
  · have := (hf.eq_of_rank_eq hx hu heq).1
    omega
  · have := router_before hf hch hpos hu hr hx hgt
    omega

/-- What a router on a shortest path does not stand before is a network as far as the router. -/
theorem network_of_before {w : Nat} (hu : Stands s.tree a p u) (hr : u.type = .router)
    (hl : Leads db u.id v.key w) (hsum : u.distance + w = v.distance) (hv : Stands s.tree b i v)
    (hba : b ≤ a) : v.type = .network ∧ u.distance = v.distance ∧ v.id.toNat < u.id.toNat := by
  have hrank : v.rank ≤ u.rank := by
    by_contra hlt
    have := router_before hf hch hpos hu hr hv (not_le.1 hlt)
    omega
  have hd := Vertex.distance_le_of_rank_le hrank
  have hn : v.type = .network := by
    cases htype : v.type with
    | network => rfl
    | router =>
      have := hpos u.id v.id w (key_of_router htype ▸ hl)
      omega
  have hgu := hf.sound.arena.genuine p u hu.2
  have hgv := hf.sound.arena.genuine i v hv.2
  rcases hrank.lt_or_eq with hlt | heq
  · rcases (rank_lt_iff_of_network hgu hgv hr hn).1 hlt with hd' | hd'
    · omega
    · exact ⟨hn, hd'.1.symm, hd'.2⟩
  · obtain ⟨-, -, rfl⟩ := hf.eq_of_rank_eq hv hu heq
    rw [hr] at hn
    cases hn

/-- A router that stands after another one on a shortest path to a network has missed the network,
if it is as far as that and above it. -/
theorem before_of_leftOut {q c w : Nat} {x : PathVertex} (hu : Stands s.tree a p u)
    (hr : u.type = .router) (hv : Stands s.tree b i v) (hn : v.type = .network)
    (hd : u.distance = v.distance) (hid : v.id.toNat < u.id.toNat) (hx : Stands s.tree c q x)
    (hxr : x.type = .router) (hl : Leads db x.id v.key w) (hsum : x.distance + w = v.distance)
    (hlt : x.rank < u.rank) : b < a := by
  have hca := router_before hf hch hpos hx hxr hu hlt
  have hmax := hf.sound.arena.le_max i v hv.2
  have hgv := hf.sound.arena.genuine i v hv.2
  rcases hch.chosen c a q p x u v.key w hca hx hu hxr hl (by omega) with hearlier | hrank
  · obtain ⟨e, j, y, hea, hy, hk⟩ := hearlier
    obtain ⟨rfl, -⟩ := hf.stands_unique hy hv hk
    exact hea
  · rw [hsum, ← hgv.rank_eq] at hrank
    have := (rank_lt_iff_of_network (hf.sound.arena.genuine p u hu.2) hgv hr hn).2
      (.inr ⟨hd.symm, hid⟩)
    exact absurd this (not_lt.2 hrank)

end Finished

end Search

/-! ### The tree -/

namespace Search

variable {db : Database Advertisement} {root : Address} {s : Search}

theorem Finished.stands_of_inOrder (hf : Finished db root s) {h : Nat} {v : PathVertex}
    (hv : (h, v) ∈ s.tree.inOrder) : ∃ a, Stands s.tree a h v.bare :=
  hf.exists_stands (Tree.view_of_getElem? (Tree.mem_inOrder.1 hv).2)

theorem Finished.ne_zero_of_network (hf : Finished db root s) {h : Nat} {v : PathVertex}
    (hv : s.tree.view h = some v) (hn : v.type = .network) : h ≠ 0 := by
  rintro rfl
  obtain ⟨r, hr, hk, -⟩ := hf.sound.arena.origin
  obtain rfl := Option.some.inj (hv.symm.trans hr.1)
  rw [(key_eq_router_iff.1 hk).1] at hn
  cases hn

theorem Finished.mem_parents_iff_upstream (hf : Finished db root s)
    (hch : Chronicle db s.tree fun _ => True) (hpos : Lengthens db) {h p : Nat} {v : PathVertex}
    (hv : (h, v) ∈ s.tree.inOrder) :
    p ∈ v.parents ↔ ∃ u, s.tree.Upstream db p u v ∧ ¬ s.tree.LeftOut db u v := by
  obtain ⟨b, hb⟩ := hf.stands_of_inOrder hv
  constructor
  · intro hp
    obtain ⟨a, u, w, hab, hu, hr, hl, hsum⟩ := (hf.mem_parents_iff hch hb).1 hp
    obtain ⟨u, hm, rfl⟩ := hf.inOrder_of_view hu.2
    refine ⟨u, ⟨hm, hr, w, hl, hsum⟩, ?_⟩
    intro hout
    obtain ⟨hn, hd, hid, q, x, ⟨hx, hxr, e, hle, hsume⟩, hlt⟩ := hout
    obtain ⟨c, hc⟩ := hf.stands_of_inOrder hx
    have hrank := (rank_lt_iff_of_router (hf.sound.arena.genuine q _ hc.2)
      (hf.sound.arena.genuine p _ hu.2) hxr hr).2 hlt
    have := before_of_leftOut hf hch hpos hu hr hb hn hd hid hc hxr hle hsume hrank
    omega
  · intro hp
    obtain ⟨u, ⟨hm, hr, w, hl, hsum⟩, hin⟩ := hp
    obtain ⟨a, hu⟩ := hf.stands_of_inOrder hm
    by_contra hnot
    have hba : b ≤ a := by
      by_contra hab
      exact hnot ((hf.mem_parents_iff hch hb).2 ⟨a, u.bare, w, not_le.1 hab, hu, hr, hl, hsum⟩)
    obtain ⟨hn, hd, hid⟩ := network_of_before (v := v.bare) hf hch hpos hu hr hl hsum hb hba
    -- the network has a parent, which stands before it and hence before `u`
    obtain ⟨q, hq⟩ := List.exists_mem_of_ne_nil _
      (hf.sound.arena.parents h _ hb.2 (hf.ne_zero_of_network hb.2 hn))
    obtain ⟨c, x, e, hcb, hx, hxr, hle, hsume⟩ := (hf.mem_parents_iff hch hb).1 hq
    have hrank := rank_lt_of_before hf hch hpos hx hu hr (by omega)
    have hlt := (rank_lt_iff_of_router (hf.sound.arena.genuine q _ hx.2)
      (hf.sound.arena.genuine p _ hu.2) hxr hr).1 hrank
    obtain ⟨x, hxm, rfl⟩ := hf.inOrder_of_view hx.2
    exact hin ⟨hn, hd, hid, q, x, ⟨hxm, hxr, e, hle, hsume⟩, hlt⟩

end Search

open Search

/-- The parents of the vertices of a tree, if links between routers have positive metrics. -/
theorem parents_shortestPaths {db : Database Advertisement} (hpos : Lengthens db) (root : Address)
    {h : Nat} {v : PathVertex} (hv : (h, v) ∈ (shortestPaths db root).inOrder) :
    v.parents.Nodup ∧ ∀ p, p ∈ v.parents ↔ ∃ u, (shortestPaths db root).Upstream db p u v ∧
      ¬ (shortestPaths db root).LeftOut db u v := by
  by_cases hroot : (db.get? root).isSome
  · have hf := run_finished hroot
    have hch := run_chronicle hroot
    refine ⟨?_, fun p => hf.mem_parents_iff_upstream hch hpos hv⟩
    have hview : (run db root).tree.view h = some v.bare :=
      Tree.view_of_getElem? (Tree.mem_inOrder.1 hv).2
    have hsub := hch.lineage.parents h
    rw [Tree.parentsAt_eq hview] at hsub
    exact hf.sound.frontier.nodup.sublist hsub
  · rw [shortestPaths, run_noRoot (Option.not_isSome_iff_eq_none.1 hroot)] at hv
    cases hv

namespace SameRecords

variable {db db' : Database Advertisement} {t : PathTree} {u v : PathVertex}

theorem upstream_iff (h : SameRecords db db') {p : Nat} :
    t.Upstream db p u v ↔ t.Upstream db' p u v := by
  simp only [Tree.Upstream, h.leads_iff]

theorem leftOut_iff (h : SameRecords db db') : t.LeftOut db u v ↔ t.LeftOut db' u v := by
  simp only [Tree.LeftOut, h.upstream_iff]

end SameRecords

namespace Network

/-- The parents of a vertex are the routers with a record to it along a shortest path, each once.
One is left out if it is as far as a network of lower address that another one is nearer to. -/
theorem calculate_parents (n : Network) (s : SearcherId) (root : Address)
    (hpos : (n.snapshot (n.searcher s).database).PositiveLinks) :
    Completes (calculate s root) n fun t _ => ∀ h v, (h, v) ∈ t.inOrder →
      v.parents.Nodup ∧ ∀ p, p ∈ v.parents ↔
        ∃ u, t.Upstream (n.snapshot (n.searcher s).database) p u v ∧
          ¬ t.LeftOut (n.snapshot (n.searcher s).database) u v := by
  refine (completes_calculate s root).mono fun t n' h => ?_
  obtain ⟨-, db, hdb, rfl, -⟩ := h
  have hlong : Lengthens db := by
    intro u id w hl
    exact lengthens_of_positiveLinks hpos u id w (hdb.leads_iff.2 hl)
  intro h v hv
  simp only [hdb.upstream_iff, hdb.leftOut_iff]
  exact parents_shortestPaths hlong root hv

/-! ### A network that misses a parent -/

def sharedStubSetup : NetworkM SearcherId := do
  let d ← newDatabase
  install d ⟨⟨1, 1, 1, 1⟩, ⟨1, 1, 1, 1⟩, .notExplored,
    [⟨.pointToPoint, ⟨200, 0, 0, 1⟩, ⟨10, 1, 0, 1⟩, defaultInterfaceCost⟩,
     ⟨.pointToPoint, ⟨200, 0, 0, 2⟩, ⟨10, 2, 0, 1⟩, defaultInterfaceCost⟩]⟩
  install d ⟨⟨200, 0, 0, 1⟩, ⟨200, 0, 0, 1⟩, .notExplored,
    [⟨.pointToPoint, ⟨1, 1, 1, 1⟩, ⟨10, 1, 0, 2⟩, defaultInterfaceCost⟩,
     ⟨.stubNetwork, ⟨10, 0, 0, 0⟩, ⟨255, 255, 255, 0⟩, .zero⟩]⟩
  install d ⟨⟨200, 0, 0, 2⟩, ⟨200, 0, 0, 2⟩, .notExplored,
    [⟨.pointToPoint, ⟨1, 1, 1, 1⟩, ⟨10, 2, 0, 2⟩, defaultInterfaceCost⟩,
     ⟨.stubNetwork, ⟨10, 0, 0, 0⟩, ⟨255, 255, 255, 0⟩, .zero⟩]⟩
  newSearcher d

/-- A router and two neighbours, which both advertise one stub network at metric 0. -/
def sharedStub : Network := (exec sharedStubSetup .empty).2

theorem sharedStub_parents :
    (sharedStub.snapshot (sharedStub.searcher 0).database).PositiveLinks ∧
      ∃ t, (exec (calculate 0 ⟨1, 1, 1, 1⟩) sharedStub).1 = .ok t ∧ ∀ h v, (h, v) ∈ t.inOrder →
        v.parents.Nodup ∧ ∀ p, p ∈ v.parents ↔
          ∃ u, t.Upstream (sharedStub.snapshot (sharedStub.searcher 0).database) p u v ∧
            ¬ t.LeftOut (sharedStub.snapshot (sharedStub.searcher 0).database) u v :=
  have hpos : (sharedStub.snapshot (sharedStub.searcher 0).database).PositiveLinks := by
    decide +kernel
  ⟨hpos, (calculate_parents sharedStub 0 ⟨1, 1, 1, 1⟩ hpos).of_quiet
    (quiet_of_nil (by decide +kernel))⟩

set_option maxRecDepth 10000 in
theorem sharedStub_tree :
    (exec (calculate 0 ⟨1, 1, 1, 1⟩) sharedStub).1.toOption.map
      (fun t => t.inOrder.map fun e => (e.1, e.2.key, e.2.distance, e.2.parents)) =
    some [(0, .router ⟨1, 1, 1, 1⟩, 0, []), (1, .router ⟨200, 0, 0, 1⟩, 1, [0]),
      (3, .network ⟨10, 0, 0, 0⟩ 24, 1, [1]), (2, .router ⟨200, 0, 0, 2⟩, 1, [0])] := by
  cbv

/-- Both neighbours lead to the stub network along a shortest path, but one of them is settled after
the network, whose address is below both IDs, and is none of its parents. -/
theorem sharedStub_missesParent :
    (sharedStub.snapshot (sharedStub.searcher 0).database).PositiveLinks ∧
      ((sharedStub.snapshot (sharedStub.searcher 0).database).get? ⟨1, 1, 1, 1⟩).isSome ∧
      ∃ t, (exec (calculate 0 ⟨1, 1, 1, 1⟩) sharedStub).1 = .ok t ∧ ∃ h v p u,
        (h, v) ∈ t.inOrder ∧ v.key ≠ .router ⟨1, 1, 1, 1⟩ ∧
          t.Upstream (sharedStub.snapshot (sharedStub.searcher 0).database) p u v ∧
            p ∉ v.parents := by
  obtain ⟨t, ht, htree⟩ := Option.map_eq_some_iff.1 sharedStub_tree
  have mem {h d : Nat} {k : VertexKey} {ps : List Nat} (hm : (h, k, d, ps) ∈
      t.inOrder.map fun e => (e.1, e.2.key, e.2.distance, e.2.parents)) :
      ∃ v, (h, v) ∈ t.inOrder ∧ v.key = k ∧ v.distance = d ∧ v.parents = ps := by
    obtain ⟨⟨i, v⟩, hv, heq⟩ := List.mem_map.1 hm
    simp only [Prod.mk.injEq] at heq
    obtain ⟨rfl, hk, hd, hps⟩ := heq
    exact ⟨v, hv, hk, hd, hps⟩
  obtain ⟨v, hv, hk, hd, hps⟩ : ∃ v, (3, v) ∈ t.inOrder ∧ v.key = .network ⟨10, 0, 0, 0⟩ 24 ∧
      v.distance = 1 ∧ v.parents = [1] := mem (by simp [htree])
  obtain ⟨u, hu, hku, hdu, -⟩ : ∃ u, (2, u) ∈ t.inOrder ∧ u.key = .router ⟨200, 0, 0, 2⟩ ∧
      u.distance = 1 ∧ u.parents = [0] := mem (by simp [htree])
  obtain ⟨hr, hid⟩ := key_eq_router_iff.1 hku
  obtain ⟨m, hm, hlen⟩ : ∃ m, Mask.ofAddress ⟨255, 255, 255, 0⟩ = .ok m ∧ m.length = 24 := by
    exact ⟨Mask.ofLength 24, by decide +kernel, by decide +kernel⟩
  have hlead : Leads (sharedStub.snapshot (sharedStub.searcher 0).database) ⟨200, 0, 0, 2⟩
      (.network ⟨10, 0, 0, 0⟩ 24) 0 := by
    rw [← hlen]
    exact .network (r := ⟨.stubNetwork, ⟨10, 0, 0, 0⟩, ⟨255, 255, 255, 0⟩, .zero⟩) rfl
      (.tail _ (.head _)) rfl hm
  refine ⟨by decide +kernel, by decide +kernel, t, toOption_eq_some_iff.1 ht, 3, v, 2, u, hv, ?_,
    ⟨hu, hr, 0, ?_, ?_⟩, ?_⟩
  · simp [hk]
  · rw [hid, hk]
    exact hlead
  · rw [hdu, hd]
  · simp [hps]

end Network

end LinkState
