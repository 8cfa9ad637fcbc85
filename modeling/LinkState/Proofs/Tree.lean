import LinkState.Spf.Search
import Mathlib

/-! A tree seen through its vertices without their children: appending, changing and settling a
vertex is then an update at one handle. Vertices are compared by a rank in a linear order. -/

namespace LinkState

abbrev PathVertex := Vertex Nat Advertisement

namespace Vertex

variable {δ α : Type}

def bare (v : PathVertex) : PathVertex := { v with children := [] }

@[simp] theorem bare_key (v : PathVertex) : v.bare.key = v.key := rfl

/-- Routers come before networks. -/
def typeRank : VertexType → Nat
  | .router => 0
  | .network => 1

/-- What vertices are ordered by: distance, ID, type, prefix length. -/
def rank (v : Vertex δ α) : δ ×ₗ Nat ×ₗ Nat ×ₗ Nat :=
  toLex (v.distance, toLex (v.id.toNat, toLex (typeRank v.type, prefixLength v.mask)))

@[simp] theorem rank_bare (v : PathVertex) : v.bare.rank = v.rank := rfl

theorem compareTypes_eq (t u : VertexType) :
    compareTypes t u = Ord.compare (typeRank t) (typeRank u) := by
  cases t <;> cases u <;> rfl

theorem compare_toLex [LinearOrder δ] (a a' : δ) (b c d b' c' d' : Nat) :
    Ord.compare (toLex (a, toLex (b, toLex (c, d)))) (toLex (a', toLex (b', toLex (c', d')))) =
      (Ord.compare a a').then ((Ord.compare b b').then
        ((Ord.compare c c').then (Ord.compare d d'))) := by
  rw [Prod.Lex.compare_def]
  rfl

theorem compare_eq_rank [LinearOrder δ] (v w : Vertex δ α) :
    v.compare w = Ord.compare v.rank w.rank := by
  rw [rank, rank, compare_toLex, compare, Address.compare, compareTypes_eq,
    ← LinearOrder.compare_eq_compareOfLessAndEq]

theorem distance_le_of_rank_le {v w : PathVertex} (h : v.rank ≤ w.rank) :
    v.distance ≤ w.distance := by
  rcases Prod.Lex.toLex_le_toLex.1 h with hlt | heq
  · exact hlt.le
  · exact heq.1.le

theorem rank_le_of_distance_lt {v w : PathVertex} (h : v.distance < w.distance) :
    v.rank ≤ w.rank := Prod.Lex.toLex_le_toLex.2 (.inl h)

end Vertex

namespace Tree

section Find

variable {δ α : Type} {t : Tree δ α} {k : VertexKey} {h : Nat}

theorem find?_eq_none_iff :
    t.find? k = none ↔ ∀ (h : Nat) (v : Vertex δ α), t.vertices[h]? = some v → v.key ≠ k := by
  rw [find?, Array.findIdx?_eq_none_iff]
  simp only [decide_eq_false_iff_not]
  constructor
  · exact fun hall h v hv => hall v (Array.mem_of_getElem? hv)
  · intro hall v hv
    obtain ⟨h, hv⟩ := Array.getElem?_of_mem hv
    exact hall h v hv

theorem exists_of_find? (hf : t.find? k = some h) : ∃ v, t.vertices[h]? = some v ∧ v.key = k := by
  obtain ⟨hlt, hk, -⟩ := Array.findIdx?_eq_some_iff_getElem.1 hf
  exact ⟨_, Array.getElem?_eq_getElem hlt, of_decide_eq_true hk⟩

end Find

variable {t : PathTree}

def view (t : PathTree) (h : Nat) : Option PathVertex := t.vertices[h]?.map Vertex.bare

theorem view_eq_some_iff {h : Nat} {v : PathVertex} :
    t.view h = some v ↔
      ∃ cs, t.vertices[h]? = some { v with children := cs } ∧ v.children = [] := by
  rw [view, Option.map_eq_some_iff]
  constructor
  · rintro ⟨w, hw, rfl⟩
    exact ⟨w.children, hw, rfl⟩
  · rintro ⟨cs, hw, hc⟩
    refine ⟨_, hw, ?_⟩
    rw [Vertex.bare, ← hc]

theorem view_of_getElem? {h : Nat} {v : PathVertex} (hv : t.vertices[h]? = some v) :
    t.view h = some v.bare := by
  rw [view, hv, Option.map_some]

theorem view_size_le {h : Nat} (hh : t.size ≤ h) : t.view h = none := by
  rw [view, Array.getElem?_eq_none hh, Option.map_none]

theorem lt_size_of_view {h : Nat} {v : PathVertex} (hv : t.view h = some v) : h < t.size := by
  rw [← Nat.not_le]
  intro hle
  rw [view_size_le hle] at hv
  cases hv

theorem view_append (t : PathTree) (v : PathVertex) :
    (t.append v).view = Function.update t.view t.size (some v.bare) := by
  funext h
  rw [view, append, Array.getElem?_push, Function.update_apply, ← size]
  by_cases hh : h = t.size
  · rw [if_pos hh, if_pos hh, Option.map_some]
  · rw [if_neg hh, if_neg hh, view]

theorem view_modify {h : Nat} {v : PathVertex} {f : PathVertex → PathVertex}
    (hv : t.vertices[h]? = some v) :
    (t.modify h f).view = Function.update t.view h (some (f v).bare) := by
  funext i
  rw [view, modify, Array.getElem?_modify, Function.update_apply]
  by_cases hi : i = h
  · subst hi
    rw [if_pos rfl, if_pos rfl, hv]
    rfl
  · rw [if_neg (Ne.symm hi), if_neg hi]
    rfl

theorem refer_eq {p : Nat} (hp : (t.view p).isSome) : t.refer p = .ok p := by
  rw [view, Option.isSome_map] at hp
  obtain ⟨v, hv⟩ := Option.isSome_iff_exists.1 hp
  show (do let _ ← t.get p; return p : Except Fault Nat) = .ok p
  rw [get, hv]
  rfl

theorem view_modify_children {p : Nat} (hp : (t.view p).isSome)
    (f : PathVertex → List Nat) :
    (t.modify p fun v => { v with children := f v }).view = t.view := by
  rw [view, Option.isSome_map] at hp
  obtain ⟨v, hv⟩ := Option.isSome_iff_exists.1 hp
  rw [view_modify hv]
  exact Function.update_eq_self_iff.2 (view_of_getElem? hv).symm

/-- Children apart, adopting changes nothing. -/
theorem adopt_spec (h : Nat) (ps : List Nat) (t : PathTree)
    (hps : ∀ p ∈ ps, (t.view p).isSome) :
    (adopt h ps t).1 = .ok () ∧ (adopt h ps t).2.order = t.order ∧
      (adopt h ps t).2.view = t.view := by
  induction ps generalizing t with
  | nil => exact ⟨rfl, rfl, rfl⟩
  | cons p ps ih =>
    rw [List.forall_mem_cons] at hps
    have hview := view_modify_children hps.1 fun v => v.children ++ [h]
    rw [adopt, refer_eq hps.1]
    have := ih (t.modify p fun v => { v with children := v.children ++ [h] })
      (fun q hq => hview ▸ hps.2 q hq)
    exact ⟨this.1, this.2.1, this.2.2.trans hview⟩

/-- Adopting makes a child of each parent once. -/
theorem adopt_vertices (h : Nat) (ps : List Nat) (t : PathTree)
    (hps : ∀ p ∈ ps, (t.view p).isSome) (hn : ps.Nodup) (i : Nat) :
    (adopt h ps t).2.vertices[i]? = t.vertices[i]?.map fun v =>
      { v with children := v.children ++ if i ∈ ps then [h] else [] } := by
  induction ps generalizing t with
  | nil => simp [adopt]
  | cons p ps ih =>
    rw [List.forall_mem_cons] at hps
    obtain ⟨hp, hn⟩ := List.nodup_cons.1 hn
    have hview := view_modify_children hps.1 fun v => v.children ++ [h]
    rw [adopt, refer_eq hps.1]
    refine (ih (t.modify p _) (fun q hq => hview ▸ hps.2 q hq) hn).trans ?_
    rw [modify, Array.getElem?_modify]
    by_cases hi : p = i
    · subst hi
      simp [hp, Function.comp_def]
    · simp [hi, Ne.symm hi]

theorem view_modify_status {h : Nat} {v : PathVertex} (hv : t.view h = some v) (s : Status) :
    (t.modify h fun v => { v with status := s }).view =
      Function.update t.view h (some { v with status := s }) := by
  obtain ⟨cs, hw, hc⟩ := view_eq_some_iff.1 hv
  rw [view_modify (f := fun v => { v with status := s }) hw, Vertex.bare, ← hc]

theorem isSome_view_modify_status {h p : Nat} {v : PathVertex} (hv : t.view h = some v) (s : Status)
    (hp : (t.view p).isSome) : ((t.modify h fun v => { v with status := s }).view p).isSome := by
  rw [view_modify_status hv, Function.update_apply]
  split
  · rfl
  · exact hp

theorem settle_eq {h : Nat} {v : PathVertex} (hv : t.view h = some v)
    (hps : ∀ p ∈ v.parents, (t.view p).isSome) :
    (t.settle h).2 =
      { (adopt h v.parents (t.modify h fun v => { v with status := .inTree })).2 with
        order := t.order.push h } := by
  obtain ⟨cs, hw, -⟩ := view_eq_some_iff.1 hv
  obtain ⟨hok, horder, -⟩ := adopt_spec h v.parents _
    fun p hp => isSome_view_modify_status hv .inTree (hps p hp)
  rw [settle, get, hw]
  dsimp only
  rcases hA : adopt h v.parents (t.modify h fun v => { v with status := .inTree }) with ⟨r, t'⟩
  rw [hA] at hok horder
  obtain rfl : r = .ok () := hok
  rw [show t.order = t'.order from horder.symm]

/-- A vertex whose parents exist enters the tree as the last one. -/
theorem settle_spec {h : Nat} {v : PathVertex} (hv : t.view h = some v)
    (hps : ∀ p ∈ v.parents, (t.view p).isSome) :
    (t.settle h).2.order = t.order.push h ∧
      (t.settle h).2.view = Function.update t.view h (some { v with status := .inTree }) := by
  rw [settle_eq hv hps]
  exact ⟨rfl, (adopt_spec h v.parents _
    fun p hp => isSome_view_modify_status hv .inTree (hps p hp)).2.2.trans
      (view_modify_status hv .inTree)⟩

/-- A vertex that enters the tree becomes a child of each of its parents once. -/
theorem settle_children {h : Nat} {v : PathVertex} (hv : t.view h = some v)
    (hps : ∀ p ∈ v.parents, (t.view p).isSome) (hn : v.parents.Nodup) {i : Nat} {w : PathVertex}
    (hw : (t.settle h).2.vertices[i]? = some w) :
    ∃ u, t.vertices[i]? = some u ∧
      w.children = u.children ++ if i ∈ v.parents then [h] else [] := by
  have hadopt := adopt_vertices h v.parents _
    (fun p hp => isSome_view_modify_status hv .inTree (hps p hp)) hn i
  rw [settle_eq hv hps] at hw
  rw [show _ = some w from hw, modify, Array.getElem?_modify] at hadopt
  obtain ⟨x, hx, rfl⟩ := Option.map_eq_some_iff.1 hadopt.symm
  by_cases hi : h = i
  · rw [if_pos hi] at hx
    obtain ⟨u, hu, rfl⟩ := Option.map_eq_some_iff.1 hx
    exact ⟨u, hu, rfl⟩
  · rw [if_neg hi] at hx
    exact ⟨x, hx, rfl⟩

/-! Comparing handles is comparing the ranks of their vertices. -/

def rankAt (look : Nat → Option PathVertex) (h : Nat) : Nat ×ₗ Nat ×ₗ Nat ×ₗ Nat :=
  (look h).elim (toLex (0, toLex (0, toLex (0, 0)))) Vertex.rank

theorem rankAt_eq {look : Nat → Option PathVertex} {h : Nat} {v : PathVertex}
    (hv : look h = some v) : rankAt look h = v.rank := by
  rw [rankAt, hv, Option.elim_some]

theorem compare?_eq {a b : Nat} (ha : (t.view a).isSome) (hb : (t.view b).isSome) :
    t.compare? a b = some (Ord.compare (rankAt t.view a) (rankAt t.view b)) := by
  obtain ⟨v, hv⟩ := Option.isSome_iff_exists.1 ha
  obtain ⟨w, hw⟩ := Option.isSome_iff_exists.1 hb
  obtain ⟨cs, hv', _⟩ := view_eq_some_iff.1 hv
  obtain ⟨ds, hw', _⟩ := view_eq_some_iff.1 hw
  rw [compare?, hv', hw', rankAt_eq hv, rankAt_eq hw]
  exact congrArg some (Vertex.compare_eq_rank ..)

end Tree

end LinkState
