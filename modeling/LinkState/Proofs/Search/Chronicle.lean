import LinkState.Proofs.Search.Lineage

/-! The order in which a search settles vertices. Each time it takes the vertex of least rank among
those that the routers settled before lead to, and distances never decrease on the way. -/

namespace LinkState

def VertexKey.rank (d : Nat) : VertexKey → Nat ×ₗ Nat ×ₗ Nat ×ₗ Nat
  | .router id => toLex (d, toLex (id.toNat, toLex (0, 32)))
  | .network id k => toLex (d, toLex (id.toNat, toLex (1, k)))

namespace VertexKey

theorem rank_injective {k k' : VertexKey} {d d' : Nat} (h : k.rank d = k'.rank d') :
    k = k' ∧ d = d' := by
  cases k <;> cases k' <;> simp_all [rank, Address.toNat_inj]

theorem rank_le_rank {k : VertexKey} {d d' : Nat} (h : d ≤ d') : k.rank d ≤ k.rank d' := by
  rcases Nat.lt_or_eq_of_le h with hlt | rfl
  · cases k <;> exact Prod.Lex.toLex_le_toLex.2 (.inl hlt)
  · exact le_refl _

end VertexKey

theorem Vertex.Genuine.rank_eq {db : Database Advertisement} {v : PathVertex} (hg : v.Genuine db) :
    v.rank = v.key.rank v.distance := by
  cases htype : v.type with
  | router =>
    simp [Vertex.rank, Vertex.key, htype, (hg.router htype).1, VertexKey.make, VertexKey.rank,
      Vertex.typeRank, prefixLength]
  | network =>
    simp [Vertex.rank, Vertex.key, htype, VertexKey.make, VertexKey.rank, Vertex.typeRank]

namespace Search

variable {db : Database Advertisement} {root : Address} {s : Search} {h : Nat}

def Stands (t : PathTree) (a i : Nat) (v : PathVertex) : Prop :=
  t.order[a]? = some i ∧ t.view i = some v

/-- The order so far. All paths are known over the routers that are `done`. -/
structure Chronicle (db : Database Advertisement) (t : PathTree) (done : Nat → Prop) : Prop where
  lineage : t.Lineage
  served : ∀ p u, done p → Settled t.view p u → u.type = .router → AllServed db t p u
  ascending : ∀ a b i j u v, a ≤ b → Stands t a i u → Stands t b j v → u.distance ≤ v.distance
  chosen : ∀ a b p h u v k w, a < b → Stands t a p u → Stands t b h v → u.type = .router →
    Leads db u.id k w → u.distance + w ≤ maxMetric →
    (∃ c i x, c < b ∧ Stands t c i x ∧ x.key = k) ∨ v.rank ≤ k.rank (u.distance + w)

theorem Sound.settled_of_stands (hs : Sound db root s) {a i : Nat} {v : PathVertex}
    (hv : Stands s.tree a i v) : Settled s.tree.view i v := by
  obtain ⟨u, hu⟩ := (hs.frontier.settled i).1 (Array.mem_of_getElem? hv.1)
  obtain rfl := Option.some.inj (hv.2.symm.trans hu.1)
  exact hu

theorem Sound.exists_stands (hs : Sound db root s) {i : Nat} {v : PathVertex}
    (hv : Settled s.tree.view i v) : ∃ a < s.tree.order.size, Stands s.tree a i v := by
  obtain ⟨a, ha⟩ := Array.mem_iff_getElem?.1 ((hs.frontier.settled i).2 ⟨v, hv⟩)
  exact ⟨a, (Array.getElem?_eq_some_iff.1 ha).1, ha, hv.1⟩

/-! ### One choice and the next -/

theorem Step.stands_iff {s' : Search} (hstep : Step db root s s') (hs : Sound db root s) {a i : Nat}
    {v : PathVertex} : Stands s'.tree a i v ↔ Stands s.tree a i v := by
  constructor
  · intro hv
    have := (hstep.grows.settled i v).1 (hstep.sound.settled_of_stands hv)
    exact ⟨hstep.order ▸ hv.1, this.1⟩
  · intro hv
    have := (hstep.grows.settled i v).2 (hs.settled_of_stands hv)
    exact ⟨hstep.order.symm ▸ hv.1, this.1⟩

/-- Relaxing the vertex that was settled last makes all paths over it known. -/
theorem Choice.relax_chronicle (hc : Choice db root s h) (hlast : s.tree.order.back? = some h)
    (hch : Chronicle db s.tree (· ≠ h)) : Chronicle db (s.relax db h).tree fun _ => True := by
  obtain ⟨hstep, -⟩ := hc.relax
  obtain ⟨hl, himp, hserved⟩ := hc.relax_lineage hlast hch.lineage
  have hstands {a i : Nat} {v : PathVertex} := hstep.stands_iff hc.sound (a := a) (i := i) (v := v)
  refine ⟨hl, ?_, ?_, ?_⟩
  · intro p u _ hu hr
    rw [hstep.grows.settled] at hu
    by_cases hp : p = h
    · subst hp
      exact hserved u hu hr
    · intro k w hlead hmax
      exact (hch.served p u hp hu hr k w hlead hmax).improves himp
  · intro a b i j u v hab hu hv
    exact hch.ascending a b i j u v hab (hstands.1 hu) (hstands.1 hv)
  · intro a b p i u v k w hab hu hv hr hlead hmax
    refine (hch.chosen a b p i u v k w hab (hstands.1 hu) (hstands.1 hv) hr hlead hmax).imp_left ?_
    intro hx
    obtain ⟨c, j, x, hc', hx, hk⟩ := hx
    exact ⟨c, j, x, hc', hstands.2 hx, hk⟩

theorem stands_enter {v x : PathVertex} (hv : s.tree.view h = some v) (hnot : h ∉ s.tree.order)
    (hps : ∀ p ∈ v.parents, (s.tree.view p).isSome) {a i : Nat} :
    Stands (s.enter h).tree a i x ↔
      Stands s.tree a i x ∨ a = s.tree.order.size ∧ i = h ∧ x = settle v := by
  obtain ⟨-, horder, hview⟩ := enter_order hv hps
  have hne {a i : Nat} (ha : s.tree.order[a]? = some i) : i ≠ h := by
    intro heq
    exact hnot (heq ▸ Array.mem_of_getElem? ha)
  unfold Stands
  rw [horder, hview, Array.getElem?_push]
  by_cases ha : a = s.tree.order.size
  · subst ha
    simp only [if_pos, Option.some.injEq, Array.getElem?_size, reduceCtorEq, false_and, false_or,
      true_and]
    constructor
    · intro hx
      obtain ⟨rfl, hx⟩ := hx
      rw [Function.update_self] at hx
      exact ⟨rfl, (Option.some.inj hx).symm⟩
    · intro hx
      obtain ⟨rfl, rfl⟩ := hx
      exact ⟨rfl, Function.update_self ..⟩
  · simp only [ha, if_false, false_and, or_false]
    exact and_congr_right fun hi => by rw [Function.update_of_ne (hne hi)]

/-- The vertex of least rank is settled next. -/
theorem Chronicle.choose {next : Nat} {queue : Queue Nat} (hch : Chronicle db s.tree fun _ => True)
    (hs : Sound db root s) (hpop : s.queue.pop? (order s.tree) = some (next, queue)) :
    ({ s with queue := queue }.enter next).tree.order.back? = some next ∧
      Chronicle db ({ s with queue := queue }.enter next).tree (· ≠ next) := by
  obtain ⟨v, hv, hnot, hps⟩ := hs.popped hpop
  obtain ⟨-, least⟩ := hs.frontier.sorted.pop hs.frontier.ranked hpop
  have horder := (enter_order (s := { s with queue := queue }) hv.1 hps).2.1
  have hview := (enter_order (s := { s with queue := queue }) hv.1 hps).2.2
  have himp := improves_enter (s := { s with queue := queue }) hv.1 hps
  have hstands {a i : Nat} {x : PathVertex} :
      Stands ({ s with queue := queue }.enter next).tree a i x ↔
        Stands s.tree a i x ∨ a = s.tree.order.size ∧ i = next ∧ x = settle v :=
    stands_enter (s := { s with queue := queue }) hv.1 hnot hps
  refine ⟨?_, ?_, ?_, ?_, ?_⟩
  · rw [horder, Array.back?_push]
  · rw [enter_tree (s := { s with queue := queue }) hv.1]
    exact hch.lineage.settle hs.frontier.nodup hv.1 hps
  · intro p u hp hu hr k w hlead hmax
    rw [hview, settled_update_of_ne hp] at hu
    exact (hch.served p u trivial hu hr k w hlead hmax).improves himp
  · intro a b i j u x hab hu hx
    rcases hstands.1 hu with hu | ⟨ha, -, hu⟩ <;> rcases hstands.1 hx with hx | ⟨hb, hj, hx⟩
    · exact hch.ascending a b i j u x hab hu hx
    · rw [hx]
      exact hs.frontier.behind i next u v (hs.settled_of_stands hu) hv
    · have := (Array.getElem?_eq_some_iff.1 hx.1).1
      omega
    · rw [hu, hx]
  · intro a b p i u x k w hab hu hx hr hlead hmax
    have hu : Stands s.tree a p u := by
      refine (hstands.1 hu).resolve_right fun hnew => ?_
      rcases hstands.1 hx with hx | ⟨hb, -, -⟩
      · have := (Array.getElem?_eq_some_iff.1 hx.1).1
        omega
      · omega
    rcases hstands.1 hx with hx | ⟨rfl, -, rfl⟩
    · refine (hch.chosen a b p i u x k w hab hu hx hr hlead hmax).imp_left ?_
      intro hy
      obtain ⟨c, j, y, hc, hy, hk⟩ := hy
      exact ⟨c, j, y, hc, hstands.2 (.inl hy), hk⟩
    · obtain ⟨j, y, hy, rfl, hd, -⟩ :=
        hch.served p u trivial (hs.settled_of_stands hu) hr k w hlead hmax
      rcases hs.arena.status j y hy with hin | hwaits
      · obtain ⟨c, hc, hy⟩ := hs.exists_stands ⟨hy, hin⟩
        exact .inl ⟨c, j, y, hc, hstands.2 (.inl hy), rfl⟩
      · -- what waits has no lesser rank than what is settled
        have hle := least j ((hs.frontier.queued j).2 ⟨y, hy, hwaits⟩)
        rw [Tree.rankAt_eq hv.1, Tree.rankAt_eq hy, (hs.arena.genuine j y hy).rank_eq] at hle
        exact .inr (hle.trans (VertexKey.rank_le_rank hd))

/-! ### A whole search -/

theorem chronicle_root (db : Database Advertisement) (root : Address) (a : Advertisement) :
    ((start root a).enter 0).tree.order.back? = some 0 ∧
      Chronicle db ((start root a).enter 0).tree (· ≠ 0) := by
  have hfresh := view_start_zero root a
  obtain ⟨-, horder, henter⟩ := enter_order hfresh nofun
  have hl : (start root a).tree.Lineage := by
    constructor
    · intro i
      rw [Tree.parentsAt, view_start, Function.update_apply]
      split <;> exact List.Sublist.refl _
    · intro i v hv
      have hv : ((#[] : Array PathVertex).push (.fresh .router root none (some a) 0))[i]? =
        some v := hv
      rw [Array.getElem?_push] at hv
      split at hv
      · obtain rfl := Option.some.inj hv
        rfl
      · cases hv
  have lone {b i : Nat} {v : PathVertex} (hv : Stands ((start root a).enter 0).tree b i v) :
      b = 0 ∧ v = rootVertex root a := by
    rcases (stands_enter hfresh (Array.not_mem_empty 0) nofun).1 hv with hv | ⟨hb, -, hv⟩
    · cases hv.1
    · exact ⟨hb, hv⟩
  refine ⟨by rw [horder]; rfl, ?_, ?_, ?_, ?_⟩
  · rw [enter_tree hfresh]
    exact hl.settle List.nodup_nil hfresh nofun
  · intro p u hp hu
    rw [henter, view_start, settled_update_of_ne hp] at hu
    have hnone := hu.1
    rw [Function.update_of_ne hp] at hnone
    cases hnone
  · intro b c i j u v _ hu hv
    rw [(lone hu).2, (lone hv).2]
  · intro b c i j u v k w hbc hu hv
    have hb := (lone hu).1
    have hc := (lone hv).1
    omega

theorem run_chronicle (hroot : (db.get? root).isSome) :
    Chronicle db (run db root).tree fun _ => True := by
  obtain ⟨a, ha⟩ := Option.isSome_iff_exists.1 hroot
  obtain ⟨hchoice, hsize⟩ := choice_root ha
  obtain ⟨s', h', hloop, hc, ⟨hlast, hch⟩, -⟩ := loop_induction
    (P := fun s h => s.tree.order.back? = some h ∧ Chronicle db s.tree (· ≠ h))
    (fun s h next queue hc hp hpop =>
      (hc.relax_chronicle hp.1 hp.2).choose hc.relax.1.sound hpop)
    (vertexBound db) _ 0 hchoice (chronicle_root db root a) (by omega)
  rw [run_eq ha]
  dsimp only
  rw [hloop]
  exact hc.relax_chronicle hlast hch

/-! ### Where the vertices of a finished search stand -/

section Places

variable {a b i j : Nat} {u v : PathVertex}

theorem Finished.exists_stands (hf : Finished db root s) (hv : s.tree.view i = some v) :
    ∃ a, Stands s.tree a i v := by
  obtain ⟨a, -, ha⟩ := hf.sound.exists_stands (hf.settled i v hv)
  exact ⟨a, ha⟩

/-- One place has one vertex, and one key one place. -/
theorem Finished.stands_unique (hf : Finished db root s) (hu : Stands s.tree a i u)
    (hv : Stands s.tree b j v) (hk : u.key = v.key) : a = b ∧ i = j ∧ u = v := by
  obtain rfl := hf.sound.arena.keys i j u v hu.2 hv.2 hk
  exact ⟨hf.order_inj hu.1 hv.1, rfl, Option.some.inj (hu.2.symm.trans hv.2)⟩

theorem Finished.eq_of_rank_eq (hf : Finished db root s) (hu : Stands s.tree a i u)
    (hv : Stands s.tree b j v) (hr : u.rank = v.rank) : a = b ∧ i = j ∧ u = v := by
  rw [(hf.sound.arena.genuine i u hu.2).rank_eq, (hf.sound.arena.genuine j v hv.2).rank_eq] at hr
  exact hf.stands_unique hu hv (VertexKey.rank_injective hr).1

theorem Chronicle.lt_of_distance_lt {done : Nat → Prop} (hch : Chronicle db s.tree done)
    (hu : Stands s.tree a i u) (hv : Stands s.tree b j v) (hd : u.distance < v.distance) :
    a < b := by
  by_contra hle
  have := hch.ascending b a j i v u (not_lt.1 hle) hv hu
  omega

/-- The parents of a vertex are the routers before it that lie on a shortest path to it. -/
theorem Finished.mem_parents_iff (hf : Finished db root s)
    (hch : Chronicle db s.tree fun _ => True) (hv : Stands s.tree b i v) {p : Nat} :
    p ∈ v.parents ↔ ∃ a u w, a < b ∧ Stands s.tree a p u ∧ u.type = .router ∧
      Leads db u.id v.key w ∧ u.distance + w = v.distance := by
  constructor
  · intro hp
    obtain ⟨u, w, hu, hr, hl, hd⟩ := hf.sound.arena.tight i v hv.2 p hp
    obtain ⟨a, c, hac, ha, hc⟩ := hf.sound.frontier.earlier i v (hf.settled i v hv.2) p hp
    obtain rfl := hf.order_inj hc hv.1
    exact ⟨a, u, w, hac, ⟨ha, hu.1⟩, hr, hl, hd⟩
  · intro hp
    obtain ⟨a, u, w, hab, hu, hr, hl, hd⟩ := hp
    have hmax := hf.sound.arena.le_max i v hv.2
    obtain ⟨j, x, hx, hk, -, hserved⟩ := hch.served p u trivial (hf.settled p u hu.2) hr v.key w hl
      (by omega)
    obtain rfl := hf.sound.arena.keys j i x v hx hv.2 hk
    obtain rfl := Option.some.inj (hx.symm.trans hv.2)
    refine (hserved hd.symm).resolve_right fun hlate => ?_
    obtain ⟨c, e, hce, hc, he⟩ := hlate
    obtain rfl := hf.order_inj hc hv.1
    obtain rfl := hf.order_inj he hu.1
    omega

theorem Finished.mem_parents_iff_of_stands (hf : Finished db root s)
    (hch : Chronicle db s.tree fun _ => True) {c p : Nat} (hu : Stands s.tree c p u)
    (hv : Stands s.tree b i v) : p ∈ v.parents ↔ c < b ∧ u.type = .router ∧
      ∃ w, Leads db u.id v.key w ∧ u.distance + w = v.distance := by
  rw [hf.mem_parents_iff hch hv]
  constructor
  · intro hp
    obtain ⟨a, u', w, hab, hu', hr, hl, hd⟩ := hp
    obtain rfl := hf.order_inj hu.1 hu'.1
    obtain rfl := Option.some.inj (hu.2.symm.trans hu'.2)
    exact ⟨hab, hr, w, hl, hd⟩
  · intro hp
    obtain ⟨hcb, hr, w, hl, hd⟩ := hp
    exact ⟨c, u, w, hcb, hu, hr, hl, hd⟩

/-- The root stands first: whatever else does has a parent before it. -/
theorem Finished.stands_root (hf : Finished db root s) (hu : Stands s.tree a 0 u) : a = 0 := by
  have hlt := (Array.getElem?_eq_some_iff.1 hu.1).1
  obtain ⟨j, hj⟩ : ∃ j, s.tree.order[0]? = some j :=
    ⟨_, Array.getElem?_eq_getElem (Nat.zero_lt_of_lt hlt)⟩
  obtain ⟨x, hx⟩ := (hf.sound.frontier.settled j).1 (Array.mem_of_getElem? hj)
  by_cases hz : j = 0
  · exact hf.order_inj hu.1 (hz ▸ hj)
  · obtain ⟨p, hp⟩ := List.exists_mem_of_ne_nil _ (hf.sound.arena.parents j x hx.1 hz)
    obtain ⟨c, d, hcd, -, hd⟩ := hf.sound.frontier.earlier j x hx p hp
    obtain rfl := hf.order_inj hd hj
    omega

end Places

end Search

end LinkState
