import LinkState.Proofs.Addressing
import LinkState.Proofs.Tree

/-! Vertices go by their keys. Two keys have one text only if they are the same, so that the handles
may be looked up by these texts; a table of them stays in step with the vertices. However vertices
are added, no two of them get the same key, and a key leads to the one vertex that has it. -/

namespace LinkState

namespace VertexKey

theorem slash_not_mem_digits (n : Nat) : '/' ∉ (toString n).toList := by
  rw [Nat.toString_eq_ofList_toDigits, String.toList_ofList]
  intro h
  exact absurd (Nat.isDigit_of_mem_toDigits (by decide) (by decide) h) (by decide)

theorem slash_not_mem_text (x : Address) : '/' ∉ x.text.toList := by
  have hdigits (o : UInt8) := slash_not_mem_digits o.toNat
  simp_all [Address.text, Dotted.join, Address.octets]

theorem toList_text_router (x : Address) :
    (router x).text.toList = "router:".toList ++ x.text.toList := by
  simp [text, toString]

theorem toList_text_network (x : Address) (n : Nat) :
    (network x n).text.toList =
      "network:".toList ++ (x.text.toList ++ '/' :: (toString n).toList) := by
  simp [text, toString]

/-- No two keys print alike. -/
theorem text_injective : Function.Injective text := by
  intro k k' h
  have hl := congrArg String.toList h
  cases k with
  | router x =>
    cases k' with
    | router y =>
      rw [toList_text_router, toList_text_router, List.append_cancel_left_eq] at hl
      rw [Address.text_injective (String.toList_inj.1 hl)]
    | network y n =>
      rw [toList_text_router, toList_text_network] at hl
      simp at hl
  | network x m =>
    cases k' with
    | router y =>
      rw [toList_text_router, toList_text_network] at hl
      simp at hl
    | network y n =>
      rw [toList_text_network, toList_text_network, List.append_cancel_left_eq] at hl
      obtain ⟨htext, -, hdigits⟩ := (List.append_cons_inj_of_notMem (slash_not_mem_text x)
        (slash_not_mem_digits m)).1 hl
      rw [Address.text_injective (String.toList_inj.1 htext),
        digits_injective (String.toList_inj.1 hdigits)]

/-- A key says a type, an ID and, of a network, a prefix length. -/
theorem make_eq_iff {type type' : VertexType} {id id' : Address} {mask mask' : Option Mask} :
    make type id mask = make type' id' mask' ↔
      type = type' ∧ id = id' ∧ (type' = .network → prefixLength mask = prefixLength mask') := by
  cases type <;> cases type' <;> simp [make]

end VertexKey

namespace Tree

variable {δ α : Type} {t : Tree δ α} {k : VertexKey} {v : Vertex δ α} {h : Nat}

def Keyed (t : Tree δ α) : Prop :=
  ∀ (h i : Nat) (v w : Vertex δ α), t.vertices[h]? = some v → t.vertices[i]? = some w →
    v.key = w.key → h = i

theorem keyed_empty : (empty : Tree δ α).Keyed := by
  intro h i v w hv
  simp [empty] at hv

/-- A key leads to the vertex that has it. -/
theorem Keyed.find?_eq_some_iff (ht : t.Keyed) :
    t.find? k = some h ↔ ∃ v, t.vertices[h]? = some v ∧ v.key = k := by
  refine ⟨exists_of_find?, ?_⟩
  rintro ⟨v, hv, rfl⟩
  cases hf : t.find? v.key with
  | none => exact absurd rfl (find?_eq_none_iff.1 hf h v hv)
  | some i =>
    obtain ⟨w, hw, hk⟩ := exists_of_find? hf
    rw [ht i h w v hw hv hk]

theorem find?_append (t : Tree δ α) (v : Vertex δ α) (k : VertexKey) :
    (t.append v).find? k = (t.find? k).or (if v.key = k then some t.size else none) := by
  simp [find?, append, size, Array.findIdx?_push]

theorem getElem?_append (t : Tree δ α) (v : Vertex δ α) (h : Nat) :
    (t.append v).vertices[h]? = if h = t.size then some v else t.vertices[h]? := by
  rw [append, Array.getElem?_push, size]

theorem Keyed.append (ht : t.Keyed) (hv : t.find? v.key = none) : (t.append v).Keyed := by
  have hnew := find?_eq_none_iff.1 hv
  intro h i x y hx hy hk
  rw [getElem?_append] at hx hy
  split at hx
  · next hh =>
    split at hy
    · next hi => rw [hh, hi]
    · exact absurd (hk ▸ congrArg Vertex.key (Option.some.inj hx)).symm (hnew i y hy)
  · split at hy
    · exact absurd (hk ▸ congrArg Vertex.key (Option.some.inj hy)).symm (hnew h x hx)
    · exact ht h i x y hx hy hk

theorem Keyed.modify (ht : t.Keyed) (h : Nat) {f : Vertex δ α → Vertex δ α}
    (hf : ∀ v, (f v).key = v.key) : (t.modify h f).Keyed := by
  have same {i : Nat} {x : Vertex δ α} (hx : (t.modify h f).vertices[i]? = some x) :
      ∃ v, t.vertices[i]? = some v ∧ v.key = x.key := by
    rw [Tree.modify, Array.getElem?_modify] at hx
    split at hx
    · obtain ⟨v, hv, rfl⟩ := Option.map_eq_some_iff.1 hx
      exact ⟨v, hv, (hf v).symm⟩
    · exact ⟨x, hx, rfl⟩
  intro i j x y hx hy hk
  obtain ⟨v, hv, hvx⟩ := same hx
  obtain ⟨w, hw, hwy⟩ := same hy
  exact ht i j v w hv hw (hvx.trans (hk.trans hwy.symm))

def Has (t : Tree δ α) (h : Nat) (type : VertexType) (id : Address) (mask : Option Mask) : Prop :=
  ∃ v, t.vertices[h]? = some v ∧ v.type = type ∧ v.id = id ∧
    (type = .network → prefixLength v.mask = prefixLength mask)

theorem Keyed.find?_eq_some_iff_has (ht : t.Keyed) {type : VertexType} {id : Address}
    {mask : Option Mask} : t.find? (.make type id mask) = some h ↔ t.Has h type id mask := by
  simp only [ht.find?_eq_some_iff, Has, Vertex.key, VertexKey.make_eq_iff]

end Tree

/-! ### Additions -/

section Additions

variable {σ β : Type}

/-- An addition that fails leaves all as it was. -/
def attempt (add : σ → β → Except Fault (Nat × σ)) (s : σ) (x : β) : Except Fault Nat × σ :=
  match add s x with
  | .ok (h, s') => (.ok h, s')
  | .error f => (.error f, s)

def additions (add : σ → β → Except Fault (Nat × σ)) (s : σ) (xs : List β) :
    List (Except Fault Nat) × σ :=
  xs.foldl (fun r x => (r.1 ++ [(attempt add r.2 x).1], (attempt add r.2 x).2)) ([], s)

theorem additions_append_singleton (add : σ → β → Except Fault (Nat × σ)) (s : σ) (xs : List β)
    (x : β) :
    additions add s (xs ++ [x]) =
      ((additions add s xs).1 ++ [(attempt add (additions add s xs).2 x).1],
        (attempt add (additions add s xs).2 x).2) :=
  List.foldl_concat _ _ _ _

end Additions

/-- A tree, and its handles by the texts of their keys. -/
structure IndexedTree (δ α : Type) where
  tree : Tree δ α
  handles : Std.HashMap String Nat

namespace IndexedTree

variable {δ α : Type} {t : IndexedTree δ α} {v : Vertex δ α} {vs : List (Vertex δ α)}
  {k : VertexKey}

def empty : IndexedTree δ α := ⟨.empty, ∅⟩

def find? (t : IndexedTree δ α) (k : VertexKey) : Option Nat := t.handles[k.text]?

def add (t : IndexedTree δ α) (v : Vertex δ α) : Except Fault (Nat × IndexedTree δ α) :=
  if v.key.text ∈ t.handles then .error (.vertexExists v.key.text)
  else .ok (t.tree.size, ⟨t.tree.append v, t.handles.insert v.key.text t.tree.size⟩)

structure InStep (t : IndexedTree δ α) : Prop where
  keyed : t.tree.Keyed
  find? : ∀ k, t.find? k = t.tree.find? k

theorem inStep_empty : (empty : IndexedTree δ α).InStep := by
  refine ⟨Tree.keyed_empty, fun k => ?_⟩
  simp [empty, IndexedTree.find?, Tree.empty, Tree.find?]

theorem InStep.mem_iff (ht : t.InStep) :
    k.text ∈ t.handles ↔ (t.tree.find? k).isSome = true := by
  rw [← ht.find? k, IndexedTree.find?, Std.HashMap.isSome_getElem?_iff_mem]

/-- The one addition fails where the other does. -/
theorem InStep.add_eq (ht : t.InStep) (v : Vertex δ α) :
    t.add v = (t.tree.add v).map fun (h, tree) => (h, ⟨tree, t.handles.insert v.key.text h⟩) := by
  rw [add, Tree.add]
  cases hf : t.tree.find? v.key with
  | none => rw [if_neg (by simp [ht.mem_iff, hf])]; rfl
  | some h => rw [if_pos (by simp [ht.mem_iff, hf])]; rfl

theorem InStep.append (ht : t.InStep) (hv : t.tree.find? v.key = none) :
    InStep ⟨t.tree.append v, t.handles.insert v.key.text t.tree.size⟩ where
  keyed := ht.keyed.append hv
  find? k := by
    have hk := ht.find? k
    rw [IndexedTree.find?] at hk ⊢
    rw [Std.HashMap.getElem?_insert, Tree.find?_append, hk]
    by_cases he : v.key = k
    · subst he
      simp [hv]
    · simp [he, VertexKey.text_injective.ne he]

/-- Additions are answered by the table as they are by the vertices themselves. -/
theorem additions_inStep (vs : List (Vertex δ α)) :
    (additions add empty vs).2.InStep ∧
      (additions add empty vs).1 = (additions Tree.add .empty vs).1 ∧
        (additions add empty vs).2.tree = (additions Tree.add .empty vs).2 := by
  induction vs using List.reverseRecOn with
  | nil => exact ⟨inStep_empty, rfl, rfl⟩
  | append_singleton vs v ih =>
    obtain ⟨hstep, hanswers, htree⟩ := ih
    simp only [additions_append_singleton, attempt, hstep.add_eq, ← htree, ← hanswers]
    rw [Tree.add]
    cases hf : (additions add empty vs).2.tree.find? v.key with
    | none => exact ⟨hstep.append hf, rfl, rfl⟩
    | some h => exact ⟨hstep, rfl, rfl⟩

/-- The handles given out are consecutive. -/
theorem handles_additions (vs : List (Vertex δ α)) :
    (additions Tree.add .empty vs).1.filterMap Except.toOption =
      List.range (additions Tree.add .empty vs).2.size := by
  induction vs using List.reverseRecOn with
  | nil => rfl
  | append_singleton vs v ih =>
    simp only [additions_append_singleton, attempt, Tree.add, List.filterMap_append, ih]
    cases (additions Tree.add .empty vs).2.find? v.key with
    | none => simp [Except.toOption, Tree.size_append, List.range_succ]
    | some h => simp [Except.toOption]

structure Identified (answers : List (Except Fault Nat)) (t : IndexedTree δ α) : Prop where
  handles : answers.filterMap Except.toOption = List.range t.tree.size
  find : ∀ type id mask h, t.find? (.make type id mask) = some h ↔ t.tree.Has h type id mask
  unique : ∀ type id mask h i, t.tree.Has h type id mask → t.tree.Has i type id mask → h = i
  refused : ∀ v, (∃ f, t.add v = .error f) ↔ (t.find? v.key).isSome
  unchanged : ∀ v f, t.add v = .error f →
    attempt add t v = (.error (.vertexExists v.key.text), t)
  next : ∀ v, t.find? v.key = none → (attempt add t v).1 = .ok t.tree.size

theorem InStep.refused_iff (ht : t.InStep) (v : Vertex δ α) :
    (∃ f, t.add v = .error f) ↔ (t.find? v.key).isSome := by
  rw [add, ht.find?, ← ht.mem_iff]
  split
  · next h => exact iff_of_true ⟨_, rfl⟩ h
  · next h => exact iff_of_false nofun h

theorem InStep.unique (ht : t.InStep) {type : VertexType} {id : Address} {mask : Option Mask}
    {h i : Nat} (hh : t.tree.Has h type id mask) (hi : t.tree.Has i type id mask) : h = i := by
  rw [← ht.keyed.find?_eq_some_iff_has] at hh hi
  exact Option.some.inj (hh.symm.trans hi)

/-- Whatever is added, the handles that are given out count up from 0, a type, an ID and a prefix
length lead to the one vertex that has them, and what is refused is what has its key already. The
texts of the keys serve for this as well as the keys themselves. -/
theorem additions_identified (vs : List (Vertex δ α)) :
    Identified (additions add empty vs).1 (additions add empty vs).2 ∧
      additions Tree.add .empty vs =
        ((additions add empty vs).1, (additions add empty vs).2.tree) ∧
      ∀ k, (additions add empty vs).2.tree.find? k = (additions add empty vs).2.find? k := by
  obtain ⟨hstep, hanswers, htree⟩ := additions_inStep vs
  refine ⟨?_, Prod.ext hanswers.symm htree.symm, fun k => (hstep.find? k).symm⟩
  constructor
  · rw [hanswers, htree]
    exact handles_additions vs
  · intro type id mask h
    rw [hstep.find?, hstep.keyed.find?_eq_some_iff_has]
  · exact fun _ _ _ _ _ => hstep.unique
  · exact hstep.refused_iff
  · intro v f hf
    have hmem := (hstep.refused_iff v).1 ⟨f, hf⟩
    rw [attempt, add, if_pos (hstep.mem_iff.2 (hstep.find? v.key ▸ hmem))]
  · intro v hv
    have hmem : v.key.text ∉ (additions add empty vs).2.handles := by
      rw [hstep.mem_iff, ← hstep.find?, hv]
      simp
    rw [attempt, add, if_neg hmem]

end IndexedTree

end LinkState
