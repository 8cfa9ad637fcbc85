import LinkState.Proofs.Offers
import LinkState.Proofs.Renaming

/-! The routes of trees that are alike. Where parents of twins are twins, the ways back from twins
end at twins, and to these there are the same hops, for a hop depends on addresses and metrics
alone. So twins offer the same routes. -/

namespace LinkState

/-- A sorted list is known by its members. -/
theorem Address.sort_congr {xs ys : List Address} (h : xs.Perm ys) : sort xs = sort ys := by
  refine List.Perm.eq_of_pairwise ?_ (pairwise_sort xs) (pairwise_sort ys)
    ((List.mergeSort_perm ..).trans (h.trans (List.mergeSort_perm ..).symm))
  intro x y _ _ hxy hyx
  exact Address.toNat_inj.1 (le_antisymm hxy hyx)

namespace Tree

variable {rv rv' w w' : PathVertex} {interfaces : List Interface}

def sites (rs : List LinkRecord) : List (Address × Metric) := rs.map fun r => (r.data, r.metric)

/-- The addresses of the given metric that are at interfaces, in ascending order. -/
def nearSide (ls : List (Address × Metric)) (d : Nat) (interfaces : List Interface) :
    List (Address × Interface) :=
  (Address.sort ((ls.filter fun l => l.2.value = d).map Prod.fst)).filterMap fun x =>
    (interfaces.find? (·.address = some x)).map (x, ·)

theorem nearSide_exits (rv w : PathVertex) (interfaces : List Interface) :
    (exits rv w interfaces).map (fun e => (e.1.data, e.2)) =
      nearSide (sites (linksTo rv w.id)) w.distance interfaces := by
  have hsort (ls : List LinkRecord) :
      (ls.mergeSort fun r s => r.data.toNat ≤ s.data.toNat).map (·.data) =
        Address.sort (ls.map (·.data)) := List.map_mergeSort fun _ _ _ _ => rfl
  have hdata : ((sites (linksTo rv w.id)).filter fun l => l.2.value = w.distance).map Prod.fst =
      ((linksTo rv w.id).filter fun r => r.metric.value = w.distance).map (·.data) := by
    simp [sites, List.filter_map, Function.comp_def]
  rw [exits, nearSide, hdata, ← hsort, List.filterMap_map, List.map_filterMap]
  simp [Function.comp_def]

/-- The hop from the near to the far addresses: the lowest in the subnet of an interface, or else
the lowest at the first one. -/
def hopOver (near : List (Address × Interface)) (far : List Address) : Option Hop :=
  (near.findSome? fun (x, i) =>
    (i.mask.bind fun m => far.find? (·.sameSubnet x m)).map (⟨·, i.name⟩)) <|>
  near.head?.bind fun (_, i) => far.head?.map (⟨·, i.name⟩)

theorem hopTo_eq : hopTo rv w interfaces =
    hopOver (nearSide (sites (linksTo rv w.id)) w.distance interfaces)
      (Address.sort ((sites (linksTo w rv.id)).map Prod.fst)) := by
  rw [← nearSide_exits, sites, List.map_map, hopTo, hopOver, List.findSome?_map, List.head?_map]
  simp [Function.comp_def, Option.bind_map]

/-- The hop depends on the addresses and metrics of the links, whatever their order. -/
theorem hopTo_congr (hd : w'.distance = w.distance)
    (hnear : (sites (linksTo rv' w'.id)).Perm (sites (linksTo rv w.id)))
    (hfar : (sites (linksTo w' rv'.id)).Perm (sites (linksTo w rv.id))) :
    hopTo rv' w' interfaces = hopTo rv w interfaces := by
  rw [hopTo_eq, hopTo_eq, nearSide, nearSide, hd, Address.sort_congr (hfar.map _),
    Address.sort_congr ((hnear.filter _).map _)]

theorem hopTo_of_network {db : Database Advertisement} (hg : w.Genuine db)
    (hn : w.type = .network) : hopTo rv w interfaces = none := by
  have hfar : linksTo w rv.id = [] := by rw [linksTo, (hg.network hn).1]; rfl
  cases hh : hopTo rv w interfaces with
  | none => rfl
  | some hop =>
    obtain ⟨r, i, l, -, hl, -⟩ := hopTo_spec hh
    rw [hfar] at hl
    cases hl

end Tree

/-- The links of a router to another one are at the same addresses after renaming. -/
theorem Renamed.sites_linksTo {f : Equiv.Perm Address} {db db' : Database Advertisement}
    (h : Renamed f db db') {v v' : PathVertex} {u : Address} (hv : v.advertisement = db.get? u)
    (hv' : v'.advertisement = db'.get? (f u)) (w : Address) :
    (Tree.sites (Tree.linksTo v' (f w))).Perm (Tree.sites (Tree.linksTo v w)) := by
  rw [Tree.linksTo, Tree.linksTo, hv, hv']
  have hu := h u
  generalize db.get? u = a at hu
  generalize db'.get? (f u) = b at hu
  cases hu with
  | none => exact .refl _
  | @some a b hab =>
    have hlinks := (hab.filter (·.leadsTo (f w))).map fun r => (r.data, r.metric)
    simpa [Tree.sites, Advertisement.linksTo, List.filter_map, Function.comp_def] using hlinks

namespace Renamed

variable {f : Equiv.Perm Address} {db db' : Database Advertisement} {root : Address}
  {k : VertexKey}

theorem gives (h : Renamed f db db') {x : Address} {l : Nat} (hg : Gives db k x l) :
    Gives db' (k.rename f) x l := by
  cases k with
  | router u =>
    obtain ⟨hl, r, hr, htype, hx⟩ := hg
    exact ⟨hl, r.rename f, h.lists hr, by simp [htype], by simp [hx]⟩
  | network => exact hg

theorem foreign (h : Renamed f db db') (hf : Foreign db root k) :
    Foreign db' (f root) (k.rename f) := by
  cases k with
  | router u =>
    intro heq
    exact hf (f.injective heq)
  | network x l =>
    intro w hl
    exact hf w (h.leads_iff.2 hl)

end Renamed

/-! ### Twins -/

namespace Search

variable {f : Equiv.Perm Address} {db db' : Database Advertisement} {root root' : Address}
  {s s' : Search} {t t' : PathTree} {h h' : Nat} {v v' rv rv' : PathVertex}
  {names : NameOrder} {interfaces : List Interface}

/-- The vertices at the handles have one key, up to the renaming. -/
def Twins (f : Equiv.Perm Address) (t t' : PathTree) (h h' : Nat) : Prop :=
  ∃ v v', t.view h = some v ∧ t'.view h' = some v' ∧ v'.key = v.key.rename f

theorem Twins.symm (ht : Twins f t t' h h') : Twins f.symm t' t h' h := by
  obtain ⟨v, v', hv, hv', hk⟩ := ht
  exact ⟨v', v, hv', hv, (VertexKey.rename_eq_iff f).1 hk⟩

def TwinParents (f : Equiv.Perm Address) (t t' : PathTree) : Prop :=
  ∀ h h' v v', t.view h = some v → t'.view h' = some v' → v'.key = v.key.rename f →
    ∀ p ∈ v.parents, ∃ p' ∈ v'.parents, Twins f t t' p p'

/-- Searches over a database and a renamed one, and parents of twins are twins. -/
structure Alike (f : Equiv.Perm Address) (db db' : Database Advertisement) (root root' : Address)
    (s s' : Search) : Prop where
  left : Finished db root s
  right : Finished db' root' s'
  renamed : Renamed f db db'
  root_eq : f root = root'
  parents : TwinParents f s.tree s'.tree
  parents_symm : TwinParents f.symm s'.tree s.tree

namespace Alike

theorem symm (ha : Alike f db db' root root' s s') :
    Alike f.symm db' db root' root s' s :=
  ⟨ha.right, ha.left, ha.renamed.symm, by simp [← ha.root_eq], ha.parents_symm, ha.parents⟩

variable (ha : Alike f db db' root root' s s')
include ha

theorem exists_twin (hv : s.tree.view h = some v) : ∃ h' v', s'.tree.view h' = some v' ∧
    v'.key = v.key.rename f ∧ v'.distance = v.distance := by
  obtain ⟨hf, hf', hdb, rfl, -, -⟩ := ha
  exact hf.exists_twin hf' hdb hv

theorem distance_eq (hv : s.tree.view h = some v) (hv' : s'.tree.view h' = some v')
    (hk : v'.key = v.key.rename f) : v'.distance = v.distance := by
  obtain ⟨i, x, hx, hkx, hd⟩ := ha.exists_twin hv
  obtain rfl := ha.right.sound.arena.keys i h' x v' hx hv' (hkx.trans hk.symm)
  obtain rfl := Option.some.inj (hx.symm.trans hv')
  exact hd

theorem zero_of_zero (ht : Twins f s.tree s'.tree 0 h') : h' = 0 := by
  obtain ⟨v, v', hv, hv', hk⟩ := ht
  obtain ⟨r, hr, hkr, -⟩ := ha.left.sound.arena.origin
  obtain ⟨r', hr', hkr', -⟩ := ha.right.sound.arena.origin
  obtain rfl := Option.some.inj (hv.symm.trans hr.1)
  refine ha.right.sound.arena.keys h' 0 v' r' hv' hr'.1 ?_
  rw [hk, hkr, hkr', VertexKey.rename, ha.root_eq]

theorem zero_iff (ht : Twins f s.tree s'.tree h h') : h = 0 ↔ h' = 0 := by
  constructor
  · rintro rfl
    exact ha.zero_of_zero ht
  · rintro rfl
    exact ha.symm.zero_of_zero ht.symm

/-- The ways back from twins end at twins. -/
theorem firstHop {y : Nat} (hy : FirstHop s.tree.view h y) (ht : Twins f s.tree s'.tree h h') :
    ∃ y', Twins f s.tree s'.tree y y' ∧ FirstHop s'.tree.view h' y' := by
  induction hy generalizing h' with
  | here hv mem =>
    obtain ⟨v, v', hw, hv', hk⟩ := id ht
    obtain rfl := Option.some.inj (hv.symm.trans hw)
    obtain ⟨p, hp, hpt⟩ := ha.parents _ _ _ v' hv hv' hk 0 mem
    obtain rfl := ha.zero_of_zero hpt
    exact ⟨h', ht, .here hv' hp⟩
  | up hv mem hp _ ih =>
    obtain ⟨v, v', hw, hv', hk⟩ := ht
    obtain rfl := Option.some.inj (hv.symm.trans hw)
    obtain ⟨p', hp', hpt⟩ := ha.parents _ _ _ v' hv hv' hk _ mem
    obtain ⟨y', hy', hfirst⟩ := ih hpt
    exact ⟨y', hy', .up hv' hp' (fun hz => hp ((ha.zero_iff hpt).2 hz)) hfirst⟩

theorem hopTo_eq {y y' : Nat} {w w' : PathVertex} (hr : s.tree.vertices[0]? = some rv)
    (hr' : s'.tree.vertices[0]? = some rv') (hw : s.tree.vertices[y]? = some w)
    (hw' : s'.tree.vertices[y']? = some w') (hk : w'.key = w.key.rename f) :
    Tree.hopTo rv' w' interfaces = Tree.hopTo rv w interfaces := by
  have hview := Tree.view_of_getElem? hw
  have hview' := Tree.view_of_getElem? hw'
  have hg := ha.left.genuine hw
  have hg' := ha.right.genuine hw'
  have hd : w'.distance = w.distance := by
    have hbare := ha.distance_eq hview hview' hk
    exact hbare
  have hroot := ha.left.isRoot (Tree.view_of_getElem? hr)
  have hroot' := ha.right.isRoot (Tree.view_of_getElem? hr')
  obtain ⟨htype, -, hid⟩ := hg.of_key_eq hg' hk
  cases hn : w.type with
  | network =>
    rw [Tree.hopTo_of_network hg hn, Tree.hopTo_of_network hg' (htype.trans hn)]
  | router =>
    rw [hn, if_pos rfl] at hid
    have hg := hg.router hn
    have hg' := hg'.router (htype.trans hn)
    have hrid : rv.id = root := hroot.id
    have hrid' : rv'.id = f rv.id := hroot'.id.trans (ha.root_eq.symm.trans (by rw [hrid]))
    refine Tree.hopTo_congr hd ?_ ?_
    · rw [hid]
      refine ha.renamed.sites_linksTo hroot.advertisement ?_ _
      rw [ha.root_eq]
      exact hroot'.advertisement
    · rw [hrid']
      exact ha.renamed.sites_linksTo hg.2.1 (hid ▸ hg'.2.1) _

theorem hopTo {hop : Hop} (hr : s.tree.vertices[0]? = some rv)
    (hr' : s'.tree.vertices[0]? = some rv') (ht : Twins f s.tree s'.tree h h')
    (hh : HopTo s.tree rv interfaces h hop) : HopTo s'.tree rv' interfaces h' hop := by
  obtain ⟨y, w, hy, hw, hhop⟩ := hh
  obtain ⟨y', ⟨v, v', hv, hv', hk⟩, hfirst⟩ := ha.firstHop hy ht
  obtain rfl := Option.some.inj ((Tree.view_of_getElem? hw).symm.trans hv)
  obtain ⟨cs, hw', -⟩ := Tree.view_eq_some_iff.1 hv'
  refine ⟨y', _, hfirst, hw', ?_⟩
  rw [ha.hopTo_eq hr hr' hw hw' hk, hhop]

theorem leastHop {hop : Hop} (hr : s.tree.vertices[0]? = some rv)
    (hr' : s'.tree.vertices[0]? = some rv') (ht : Twins f s.tree s'.tree h h')
    (hl : LeastHop names s.tree rv interfaces h hop) :
    LeastHop names s'.tree rv' interfaces h' hop :=
  ⟨ha.hopTo hr hr' ht hl.1, fun other ho => hl.2 other (ha.symm.hopTo hr' hr ht.symm ho)⟩

theorem destinations {w w' : PathVertex} (hw : s.tree.vertices[h]? = some w)
    (hw' : s'.tree.vertices[h']? = some w') (hk : w'.key = w.key.rename f) {d : Address × Mask}
    (hd : d ∈ Tree.destinations w) : d ∈ Tree.destinations w' := by
  have hg := ha.left.genuine hw
  have hg' := ha.right.genuine hw'
  have hgives := ha.renamed.gives ((gives_iff hg).2 ⟨d.2, hd, rfl⟩)
  rw [← hk] at hgives
  obtain ⟨m, hm, hlen⟩ := (gives_iff hg').1 hgives
  rwa [(whole_of_destinations hg' hm).eq_of_length_eq (whole_of_destinations hg hd) hlen] at hm

theorem offers {e e' : Nat × PathVertex} {r : Route Nat} (hr : s.tree.vertices[0]? = some rv)
    (hr' : s'.tree.vertices[0]? = some rv') (he : e ∈ s.tree.inOrder) (he' : e' ∈ s'.tree.inOrder)
    (hk : e'.2.key = e.2.key.rename f) (ho : Offers names db root s.tree rv interfaces e r) :
    Offers names db' root' s'.tree rv' interfaces e' r := by
  obtain ⟨hfor, hop, hl, d, hd, rfl⟩ := ho
  have hv := (Tree.mem_inOrder.1 he).2
  have hv' := (Tree.mem_inOrder.1 he').2
  have hview := Tree.view_of_getElem? hv
  have hview' := Tree.view_of_getElem? hv'
  have hdist : e'.2.distance = e.2.distance := by
    have hbare := ha.distance_eq hview hview' hk
    exact hbare
  have hforeign := ha.renamed.foreign hfor
  rw [ha.root_eq, ← hk] at hforeign
  refine ⟨hforeign, hop, ha.leastHop hr hr' ⟨_, _, hview, hview', hk⟩ hl, d,
    ha.destinations hv hv' hk hd, ?_⟩
  rw [hdist]

theorem exists_offer {e : Nat × PathVertex} {r : Route Nat} (hr : s.tree.vertices[0]? = some rv)
    (hr' : s'.tree.vertices[0]? = some rv') (he : e ∈ s.tree.inOrder)
    (ho : Offers names db root s.tree rv interfaces e r) :
    ∃ e' ∈ s'.tree.inOrder, Offers names db' root' s'.tree rv' interfaces e' r := by
  obtain ⟨i, x, hx, hk, -⟩ := ha.exists_twin (Tree.view_of_getElem? (Tree.mem_inOrder.1 he).2)
  obtain ⟨y, hy, rfl⟩ := ha.right.inOrder_of_view hx
  exact ⟨_, hy, ha.offers hr hr' he hy hk ho⟩

/-- What is offered first makes the routes. -/
theorem routes_eq (hch : Chronicle db s.tree fun _ => True)
    (hch' : Chronicle db' s'.tree fun _ => True) (names : NameOrder) (interfaces : List Interface)
    (h : ∀ rv rv', s.tree.vertices[0]? = some rv → s'.tree.vertices[0]? = some rv' →
      ∀ r, FirstOffers (Offers names db root s.tree rv interfaces) s.tree.inOrder r ↔
        FirstOffers (Offers names db' root' s'.tree rv' interfaces) s'.tree.inOrder r) :
    ∃ rs, s.tree.routes names interfaces = .ok rs ∧ s'.tree.routes names interfaces = .ok rs := by
  obtain ⟨r, hr, -⟩ := ha.left.sound.arena.origin
  obtain ⟨r', hr', -⟩ := ha.right.sound.arena.origin
  obtain ⟨cs, hv, -⟩ := Tree.view_eq_some_iff.1 hr.1
  obtain ⟨cs', hv', -⟩ := Tree.view_eq_some_iff.1 hr'.1
  obtain ⟨rs, hrun, hasc, hmem⟩ := ha.left.routes_iff hch hv names interfaces
  obtain ⟨rs', hrun', hasc', hmem'⟩ := ha.right.routes_iff hch' hv' names interfaces
  have heq : rs = rs' := hasc.eq_of_mem_iff hasc' fun r => by
    rw [hmem, hmem', h _ _ hv hv']
  exact ⟨rs, hrun, heq ▸ hrun'⟩

end Alike

end Search

end LinkState
