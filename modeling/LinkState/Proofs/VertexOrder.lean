import LinkState.Proofs.VertexKeys

/-! Vertices are in a strict order: by distance, then ID, then type, then prefix length, of which
the last three are the key, and no two vertices have one key. So no two of them tie, and that stays
so while distances change. -/

namespace LinkState

namespace Tree

variable {δ α : Type} {t : Tree δ α}

inductive Edit (δ α : Type) where
  | add (v : Vertex δ α)
  | setDistance (h : Nat) (d : δ)

/-- A vertex whose key is taken is not added. -/
def edit (t : Tree δ α) : Edit δ α → Tree δ α
  | .add v => (attempt add t v).2
  | .setDistance h d => t.modify h fun v => { v with distance := d }

def edited (es : List (Edit δ α)) : Tree δ α := es.foldl edit empty

theorem Keyed.edit (ht : t.Keyed) (e : Edit δ α) : (t.edit e).Keyed := by
  cases e with
  | add v =>
    rw [Tree.edit, attempt, add]
    cases hv : t.find? v.key with
    | none => exact ht.append hv
    | some h => exact ht
  | setDistance h d => exact ht.modify h fun _ => rfl

theorem keyed_edited (es : List (Edit δ α)) : (edited es).Keyed := by
  induction es using List.reverseRecOn with
  | nil => exact keyed_empty
  | append_singleton es e ih =>
    rw [edited, List.foldl_concat]
    exact ih.edit e

/-- Vertices that tie in all that they are ordered by have one key. -/
theorem key_eq_of_rank_eq {v w : Vertex δ α} (h : v.rank = w.rank) : v.key = w.key := by
  simp only [Vertex.rank, EmbeddingLike.apply_eq_iff_eq, Prod.mk.injEq, Address.toNat_inj] at h
  obtain ⟨-, hid, htype, hlen⟩ := h
  have hsame : v.type = w.type := by
    cases hv : v.type <;> cases hw : w.type <;> simp_all [Vertex.typeRank]
  exact VertexKey.make_eq_iff.2 ⟨hsame, hid, fun _ => hlen⟩

variable [LinearOrder δ]

theorem compare?_eq_some {a b : Nat} {o : Ordering} :
    t.compare? a b = some o ↔ ∃ v w, t.vertices[a]? = some v ∧ t.vertices[b]? = some w ∧
      compare v.rank w.rank = o := by
  rw [compare?]
  cases t.vertices[a]? <;> cases t.vertices[b]? <;> simp [Vertex.compare_eq_rank]

structure StrictlyOrdered (t : Tree δ α) : Prop where
  total : ∀ a b, a < t.size → b < t.size → (t.compare? a b).isSome
  swap : ∀ a b o, t.compare? a b = some o → t.compare? b a = some o.swap
  trans : ∀ a b c, t.compare? a b = some .lt → t.compare? b c = some .lt → t.compare? a c = some .lt
  tie : ∀ a b, a < t.size → (t.compare? a b = some .eq ↔ a = b)

theorem Keyed.strictlyOrdered (ht : t.Keyed) : t.StrictlyOrdered where
  total a b ha hb := by
    rw [compare?, Array.getElem?_eq_getElem ha, Array.getElem?_eq_getElem hb]
    rfl
  swap a b o h := by
    obtain ⟨v, w, hv, hw, rfl⟩ := compare?_eq_some.1 h
    exact compare?_eq_some.2 ⟨w, v, hw, hv, Std.OrientedOrd.eq_swap⟩
  trans a b c hab hbc := by
    obtain ⟨u, v, hu, hv, huv⟩ := compare?_eq_some.1 hab
    obtain ⟨v', w, hv', hw, hvw⟩ := compare?_eq_some.1 hbc
    obtain rfl := Option.some.inj (hv.symm.trans hv')
    refine compare?_eq_some.2 ⟨u, w, hu, hw, ?_⟩
    rw [compare_lt_iff_lt] at huv hvw ⊢
    exact huv.trans hvw
  tie a b ha := by
    constructor
    · intro h
      obtain ⟨v, w, hv, hw, hvw⟩ := compare?_eq_some.1 h
      exact ht a b v w hv hw (key_eq_of_rank_eq (compare_eq_iff_eq.1 hvw))
    · rintro rfl
      have hv := Array.getElem?_eq_getElem ha
      exact compare?_eq_some.2 ⟨_, _, hv, hv, compare_eq_iff_eq.2 rfl⟩

/-- However vertices are added and distances change, the vertices are in a strict order. -/
theorem edited_strictlyOrdered (es : List (Edit δ α)) : (edited es).StrictlyOrdered :=
  (keyed_edited es).strictlyOrdered

end Tree

end LinkState
