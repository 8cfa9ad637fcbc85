import LinkState.Proofs.Renaming
import LinkState.Proofs.Search.Chronicle

/-! Two searches over the same records in different orders. They settle the same vertices in the
same order at the same distances. Handles differ, and translating them by their places in the order
makes one tree the other. -/

namespace LinkState

namespace Tree

/-- The handle that stands where `h` stands, in the order of another tree. -/
def translate (t t' : PathTree) (h : Nat) : Nat := t'.order.toList.getD (t.order.toList.idxOf h) 0

/-- One tree is the other with translated handles. Advertisements are not compared. -/
structure Renames (σ : Nat → Nat) (t t' : PathTree) : Prop where
  order : t'.order.toList = t.order.toList.map σ
  inj : ∀ h < t.size, ∀ i < t.size, σ h = σ i → h = i
  size : t'.size = t.size
  vertex : ∀ h v, t.vertices[h]? = some v → ∃ v', t'.vertices[σ h]? = some v' ∧
    v'.type = v.type ∧ v'.id = v.id ∧ v'.mask = v.mask ∧ v'.distance = v.distance ∧
    v'.status = v.status ∧ v'.parents = v.parents.map σ ∧ v'.children = v.children.map σ

theorem Renames.refl (t : PathTree) : Renames id t t :=
  ⟨(List.map_id _).symm, fun _ _ _ _ h => h, rfl, fun _ v hv =>
    ⟨v, hv, rfl, rfl, rfl, rfl, rfl, (List.map_id _).symm, (List.map_id _).symm⟩⟩

end Tree

namespace Search

variable {db db' : Database Advertisement} {root : Address} {s s' : Search}

/-- What does not change the order of a list without repetition is settled by its members. -/
theorem filter_mem_eq {l L : List Nat} (h : l.Sublist L) (hn : L.Nodup) : L.filter (· ∈ l) = l := by
  have hself : l.filter (· ∈ l) = l := List.filter_eq_self.2 fun x hx => decide_eq_true hx
  have hsub := h.filter (· ∈ l)
  rw [hself] at hsub
  refine (hsub.eq_of_length_le ?_).symm
  refine ((hn.filter (· ∈ l)).subperm fun x hx => ?_).length_le
  exact of_decide_eq_true (List.mem_filter.1 hx).2

/-- Vertices of one key have one type, ID and mask. -/
theorem eq_of_key_eq {v v' : PathVertex} (hv : v.Genuine db) (hv' : v'.Genuine db')
    (hk : v'.key = v.key) : v'.type = v.type ∧ v'.id = v.id ∧ v'.mask = v.mask := by
  obtain ⟨htype, hmask, hid⟩ := hv.of_key_eq (f := id) hv' (by simpa using hk)
  exact ⟨htype, by simpa using hid, hmask⟩

/-! ### The order is the same -/

def Matched (t t' : PathTree) (a : Nat) : Prop :=
  ∃ i u j x, Stands t a i u ∧ Stands t' a j x ∧ x.key = u.key ∧ x.distance = u.distance

theorem Matched.symm {t t' : PathTree} {a : Nat} (h : Matched t t' a) : Matched t' t a := by
  obtain ⟨i, u, j, x, hu, hx, hk, hd⟩ := h
  exact ⟨j, x, i, u, hx, hu, hk.symm, hd.symm⟩

theorem Stands.unique {t : PathTree} {a i j : Nat} {u v : PathVertex} (hu : Stands t a i u)
    (hv : Stands t a j v) : i = j ∧ u = v := by
  obtain rfl := Option.some.inj (hu.1.symm.trans hv.1)
  exact ⟨rfl, Option.some.inj (hu.2.symm.trans hv.2)⟩

theorem Stands.lt_size {t : PathTree} {a i : Nat} {u : PathVertex} (hu : Stands t a i u) :
    a < t.order.size := (Array.getElem?_eq_some_iff.1 hu.1).1

theorem Finished.exists_stands_of_lt (hf : Finished db root s) {a : Nat}
    (ha : a < s.tree.order.size) : ∃ i v, Stands s.tree a i v := by
  have hi := Array.getElem?_eq_getElem ha
  obtain ⟨v, hv⟩ := (hf.sound.frontier.settled _).1 (Array.mem_of_getElem? hi)
  exact ⟨_, v, hi, hv.1⟩

theorem Finished.key_of_first (hf : Finished db root s) {i : Nat} {v : PathVertex}
    (hv : Stands s.tree 0 i v) : v.key = .router root := by
  obtain ⟨r, hr, hk, -⟩ := hf.sound.arena.origin
  obtain ⟨a, ha⟩ := hf.exists_stands hr.1
  obtain rfl := hf.stands_root ha
  rw [(hv.unique ha).2]
  exact hk

section Agree

variable (hf : Finished db root s) (hch : Chronicle db s.tree fun _ => True)
  (hf' : Finished db' root s') (hch' : Chronicle db' s'.tree fun _ => True)
  (hsame : Rearranged db db')
include hf hch hf' hch' hsame

omit hch hch' in
theorem exists_same {i : Nat} {v : PathVertex} (hv : s.tree.view i = some v) :
    ∃ j x, s'.tree.view j = some x ∧ x.key = v.key ∧ x.distance = v.distance := by
  simpa using hf.exists_twin hf' hsame.renamed hv

/-- Where all before is matched, the vertex of one search has no higher rank than that of the
other: when it was chosen, the other was waiting. -/
theorem rank_le_of_matched {a i j : Nat} {v x : PathVertex}
    (hbelow : ∀ c < a, Matched s.tree s'.tree c) (hv : Stands s.tree a i v)
    (hx : Stands s'.tree a j x) : v.rank ≤ x.rank := by
  by_cases ha : a = 0
  · subst ha
    obtain ⟨i', v', hv', hk, hd⟩ := exists_same hf' hf hsame.symm hx.2
    have hkey := hk.trans ((hf'.key_of_first hx).trans (hf.key_of_first hv).symm)
    obtain rfl := hf.sound.arena.keys i' i v' v hv' hv.2 hkey
    obtain rfl := Option.some.inj (hv'.symm.trans hv.2)
    rw [(hf.sound.arena.genuine i' v' hv.2).rank_eq, (hf'.sound.arena.genuine j x hx.2).rank_eq, hk,
      hd]
  · have hj : j ≠ 0 := by
      rintro rfl
      exact ha (hf'.stands_root hx)
    -- a parent of the other stands at a matched place, and leads to it in both
    obtain ⟨p, hp⟩ := List.exists_mem_of_ne_nil _ (hf'.sound.arena.parents j x hx.2 hj)
    obtain ⟨c, y, w, hca, hy, hr, hl, hsum⟩ := (hf'.mem_parents_iff hch' hx).1 hp
    obtain ⟨q, u, p', y', hu, hy', hk, hd⟩ := hbelow c hca
    obtain ⟨rfl, rfl⟩ := hy.unique hy'
    obtain ⟨hr', hid⟩ := key_eq_router_iff.1 (hk.symm.trans (key_of_router hr))
    have hmax := hf'.sound.arena.le_max j x hx.2
    have hl' : Leads db u.id x.key w := hid ▸ hsame.leads_iff.2 hl
    rcases hch.chosen c a q i u v x.key w hca hu hv hr' hl' (by omega) with hearlier | hrank
    · obtain ⟨e, m, z, hea, hz, hkz⟩ := hearlier
      obtain ⟨m', z', n, o, hz', ho, hko, -⟩ := hbelow e hea
      obtain ⟨rfl, rfl⟩ := hz.unique hz'
      obtain ⟨rfl, -⟩ := hf'.stands_unique ho hx (hko.trans hkz)
      omega
    · rwa [← hd, hsum, ← (hf'.sound.arena.genuine j x hx.2).rank_eq] at hrank

theorem matched (a : Nat) (ha : a < s.tree.order.size) : Matched s.tree s'.tree a := by
  induction a using Nat.strongRecOn with
  | ind a ih =>
    have hbelow : ∀ c < a, Matched s.tree s'.tree c := fun c hc => ih c hc (by omega)
    obtain ⟨i, v, hv⟩ := hf.exists_stands_of_lt ha
    obtain ⟨j, x, hx, hk, hd⟩ := exists_same hf hf' hsame hv.2
    obtain ⟨b, hb⟩ := hf'.exists_stands hx
    -- the vertex of the other search does not stand among what is matched already
    have hab : a ≤ b := by
      by_contra hlt
      obtain ⟨m, z, n, o, hz, ho, hko, -⟩ := hbelow b (not_le.1 hlt)
      obtain ⟨rfl, rfl⟩ := hb.unique ho
      obtain ⟨rfl, -⟩ := hf.stands_unique hz hv (hko.symm.trans hk)
      omega
    obtain ⟨n, y, hy⟩ := hf'.exists_stands_of_lt (a := a) (hab.trans_lt hb.lt_size)
    have hle := rank_le_of_matched hf hch hf' hch' hsame hbelow hv hy
    have hge := rank_le_of_matched hf' hch' hf hch hsame.symm (fun c hc => (hbelow c hc).symm) hy hv
    have hrank := le_antisymm hle hge
    rw [(hf.sound.arena.genuine i v hv.2).rank_eq,
      (hf'.sound.arena.genuine n y hy.2).rank_eq] at hrank
    obtain ⟨hkey, hdist⟩ := VertexKey.rank_injective hrank
    exact ⟨i, v, n, y, hv, hy, hkey.symm, hdist.symm⟩

theorem stands_translate {a i : Nat} {v : PathVertex} (hv : Stands s.tree a i v) :
    ∃ x, Stands s'.tree a (s.tree.translate s'.tree i) x ∧ x.key = v.key ∧
      x.distance = v.distance := by
  obtain ⟨i', v', j, x, hv', hx, hk, hd⟩ := matched hf hch hf' hch' hsame a hv.lt_size
  obtain ⟨rfl, rfl⟩ := hv.unique hv'
  have hi := hv.1
  have hj := hx.1
  rw [← Array.getElem?_toList] at hi hj
  obtain ⟨hlt, hget⟩ := List.getElem?_eq_some_iff.1 hi
  have hidx : s.tree.order.toList.idxOf i = a := by
    rw [← hget]
    exact hf.sound.frontier.nodup.idxOf_getElem a hlt
  have htrans : s.tree.translate s'.tree i = j := by
    rw [Tree.translate, hidx, List.getD_eq_getElem?_getD, hj, Option.getD_some]
  exact ⟨x, htrans ▸ hx, hk, hd⟩

theorem order_translate :
    s'.tree.order.toList = s.tree.order.toList.map (s.tree.translate s'.tree) := by
  apply List.ext_getElem?
  intro a
  rw [List.getElem?_map, Array.getElem?_toList, Array.getElem?_toList]
  by_cases ha : a < s.tree.order.size
  · obtain ⟨i, v, hv⟩ := hf.exists_stands_of_lt ha
    obtain ⟨x, hx, -⟩ := stands_translate hf hch hf' hch' hsame hv
    rw [hx.1, hv.1, Option.map_some]
  · have ha' : ¬ a < s'.tree.order.size := by
      intro hlt
      obtain ⟨j, x, i, v, hx, hv, -⟩ := matched hf' hch' hf hch hsame.symm a hlt
      exact ha hv.lt_size
    rw [Array.getElem?_eq_none (not_lt.1 ha), Array.getElem?_eq_none (not_lt.1 ha'),
      Option.map_none]

theorem translate_inj {h i : Nat} (hh : h < s.tree.size) (hi : i < s.tree.size)
    (heq : s.tree.translate s'.tree h = s.tree.translate s'.tree i) : h = i := by
  obtain ⟨a, ha⟩ := hf.exists_stands (Tree.view_of_getElem? (Array.getElem?_eq_getElem hh))
  obtain ⟨b, hb⟩ := hf.exists_stands (Tree.view_of_getElem? (Array.getElem?_eq_getElem hi))
  obtain ⟨x, hx, -⟩ := stands_translate hf hch hf' hch' hsame ha
  obtain ⟨y, hy, -⟩ := stands_translate hf hch hf' hch' hsame hb
  obtain rfl := hf'.order_inj (heq ▸ hx.1) hy.1
  exact (ha.unique hb).1

theorem translate_mem_parents {h p : Nat} {v x : PathVertex} (hv : s.tree.view h = some v)
    (hx : s'.tree.view (s.tree.translate s'.tree h) = some x) (hp : p ∈ s.tree.order) :
    s.tree.translate s'.tree p ∈ x.parents ↔ p ∈ v.parents := by
  obtain ⟨a, hv⟩ := hf.exists_stands hv
  obtain ⟨x', hx', hkx, hdx⟩ := stands_translate hf hch hf' hch' hsame hv
  obtain rfl := Option.some.inj (hx.symm.trans hx'.2)
  obtain ⟨u, hu, -⟩ := (hf.sound.frontier.settled p).1 hp
  obtain ⟨c, hu⟩ := hf.exists_stands hu
  obtain ⟨y, hy, hky, hdy⟩ := stands_translate hf hch hf' hch' hsame hu
  rw [hf.mem_parents_iff_of_stands hch hu hv, hf'.mem_parents_iff_of_stands hch' hy hx', hkx, hdx,
    hdy]
  obtain ⟨htype, hid, -⟩ := eq_of_key_eq (hf.sound.arena.genuine p u hu.2)
    (hf'.sound.arena.genuine _ y hy.2) hky
  simp only [htype, hid, hsame.leads_iff]

/-- The one tree is the other with translated handles. -/
theorem renames : Tree.Renames (s.tree.translate s'.tree) s.tree s'.tree := by
  have horder := order_translate hf hch hf' hch' hsame
  have hnodup := hf.sound.frontier.nodup
  refine ⟨horder, fun h hh i hi => translate_inj hf hch hf' hch' hsame hh hi, ?_, ?_⟩
  · have := congrArg List.length horder
    rw [List.length_map, Array.length_toList, Array.length_toList] at this
    rw [← hf.size_order, ← hf'.size_order, this]
  · intro h v hv
    have hview := Tree.view_of_getElem? hv
    obtain ⟨a, ha⟩ := hf.exists_stands hview
    obtain ⟨x, hx, hk, hd⟩ := stands_translate hf hch hf' hch' hsame ha
    obtain ⟨cs, hw, -⟩ := Tree.view_eq_some_iff.1 hx.2
    obtain ⟨htype, hid, hmask⟩ := eq_of_key_eq (hf.sound.arena.genuine h _ hview)
      (hf'.sound.arena.genuine _ x hx.2) hk
    refine ⟨_, hw, htype, hid, hmask, hd, ?_, ?_, ?_⟩
    · exact (hf'.settled _ x hx.2).2.trans (hf.settled h _ hview).2.symm
    · -- both lists of parents are the part of the order that the members are
      have hsub := hch.lineage.parents h
      have hsub' := hch'.lineage.parents (s.tree.translate s'.tree h)
      rw [Tree.parentsAt_eq hview] at hsub
      rw [Tree.parentsAt_eq hx.2] at hsub'
      have hv := filter_mem_eq hsub hnodup
      have hx' := filter_mem_eq hsub' hf'.sound.frontier.nodup
      show x.parents = v.parents.map _
      rw [← hx', horder, List.filter_map]
      conv_rhs => rw [show v.parents = v.bare.parents from rfl, ← hv]
      refine congrArg (List.map _) (List.filter_congr fun p hp => ?_)
      simp only [Function.comp_apply,
        translate_mem_parents hf hch hf' hch' hsame hview hx.2 (Array.mem_toList_iff.1 hp)]
    · have hcs : cs = _ := hch'.lineage.children _ _ hw
      show cs = v.children.map _
      rw [hcs, hch.lineage.children h v hv, horder, List.filter_map]
      refine congrArg (List.map _) (List.filter_congr fun i hi => ?_)
      obtain ⟨u, hu, -⟩ := (hf.sound.frontier.settled i).1 (Array.mem_toList_iff.1 hi)
      obtain ⟨c, hc⟩ := hf.exists_stands hu
      obtain ⟨y, hy, -⟩ := stands_translate hf hch hf' hch' hsame hc
      rw [Function.comp_apply, Tree.parentsAt_eq hu, Tree.parentsAt_eq hy.2]
      simp only [translate_mem_parents hf hch hf' hch' hsame hu hy.2
        (Array.mem_of_getElem? ha.1)]

end Agree

end Search

end LinkState
