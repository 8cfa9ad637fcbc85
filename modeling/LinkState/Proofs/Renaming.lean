import LinkState.Proofs.Addressing
import LinkState.Proofs.ShortestPaths

/-! Databases of which one is the other under other router IDs, its records in any order. What a
record leads to is renamed along with the router, the walks are as long, and so a vertex of the one
tree has a twin in the other, at the same distance. -/

namespace LinkState

/-- The router that a point-to-point link leads to goes by another ID. -/
def LinkRecord.rename (f : Address → Address) (r : LinkRecord) : LinkRecord :=
  if r.type = .pointToPoint then { r with id := f r.id } else r

namespace LinkRecord

variable (f : Address → Address) (r : LinkRecord)

@[simp]
theorem rename_type : (r.rename f).type = r.type := by
  unfold rename
  split <;> rfl

@[simp]
theorem rename_data : (r.rename f).data = r.data := by
  unfold rename
  split <;> rfl

@[simp]
theorem rename_metric : (r.rename f).metric = r.metric := by
  unfold rename
  split <;> rfl

theorem rename_of_ne (h : r.type ≠ .pointToPoint) : r.rename f = r := by
  simp [rename, h]

@[simp]
theorem rename_symm (f : Equiv.Perm Address) : (r.rename f).rename f.symm = r := by
  by_cases h : r.type = .pointToPoint
  · cases r
    simp_all [rename]
  · simp [rename, h]

theorem rename_rename (f g : Equiv.Perm Address) :
    (r.rename f).rename g = r.rename (f.trans g) := by
  by_cases h : r.type = .pointToPoint <;> simp [rename, h]

@[simp]
theorem leadsTo_rename (f : Equiv.Perm Address) (u : Address) :
    (r.rename f).leadsTo (f u) = r.leadsTo u := by
  by_cases h : r.type = .pointToPoint <;> simp [leadsTo, rename, h]

end LinkRecord

@[simp]
theorem record_rename_id (r : LinkRecord) : r.rename id = r := by
  simp [LinkRecord.rename]

/-- The vertex of a router goes by another ID. -/
def VertexKey.rename (f : Address → Address) : VertexKey → VertexKey
  | .router u => .router (f u)
  | .network x k => .network x k

namespace VertexKey

@[simp]
theorem rename_id (k : VertexKey) : k.rename id = k := by
  cases k <;> rfl

@[simp]
theorem rename_symm (f : Equiv.Perm Address) (k : VertexKey) :
    (k.rename f).rename f.symm = k := by
  cases k <;> simp [rename]

theorem rename_eq_iff (f : Equiv.Perm Address) {k k' : VertexKey} :
    k' = k.rename f ↔ k = k'.rename f.symm := by
  constructor
  · rintro rfl
    simp
  · rintro rfl
    exact (rename_symm f.symm k').symm

end VertexKey

/-- The records that `db` has under an ID stand in `db'` under the new ID, renamed and in any
order. -/
def Renamed (f : Equiv.Perm Address) (db db' : Database Advertisement) : Prop :=
  ∀ u, Option.Rel (fun a b => b.records.Perm (a.records.map (·.rename f))) (db.get? u)
    (db'.get? (f u))

namespace Renamed

variable {f : Equiv.Perm Address} {db db' : Database Advertisement}

theorem get? (h : Renamed f db db') {u : Address} {a : Advertisement} (ha : db.get? u = some a) :
    ∃ b, db'.get? (f u) = some b ∧ b.records.Perm (a.records.map (·.rename f)) := by
  have hu := h u
  rw [ha] at hu
  generalize hb : db'.get? (f u) = b at hu
  cases hu with
  | some hab => exact ⟨_, rfl, hab⟩

theorem symm (h : Renamed f db db') : Renamed f.symm db' db := by
  intro u
  have hu := h (f.symm u)
  rw [Equiv.apply_symm_apply] at hu
  generalize db.get? (f.symm u) = a at hu ⊢
  generalize db'.get? u = b at hu ⊢
  cases hu with
  | none => exact .none
  | some hab =>
    refine .some ?_
    have hback := hab.map (·.rename f.symm)
    simpa [Function.comp_def] using hback.symm

theorem trans {g : Equiv.Perm Address} {db'' : Database Advertisement} (h : Renamed f db db')
    (h' : Renamed g db' db'') : Renamed (f.trans g) db db'' := by
  intro u
  have hu := h u
  have hu' := h' (f u)
  rw [Equiv.trans_apply]
  generalize db.get? u = a at hu ⊢
  generalize db'.get? (f u) = b at hu hu'
  generalize db''.get? (g (f u)) = c at hu' ⊢
  cases hu with
  | none =>
    cases hu'
    exact .none
  | some hab =>
    cases hu' with
    | some hbc =>
      refine .some (hbc.trans ?_)
      simpa [LinkRecord.rename_rename, Function.comp_def] using hab.map (·.rename g)

theorem lists (h : Renamed f db db') {u : Address} {r : LinkRecord} (hl : Lists db u r) :
    Lists db' (f u) (r.rename f) := by
  obtain ⟨a, ha, hr⟩ := hl
  obtain ⟨b, hb, hperm⟩ := h.get? ha
  exact ⟨b, hb, hperm.mem_iff.2 (List.mem_map_of_mem hr)⟩

theorem isSome (h : Renamed f db db') {u : Address} (hu : (db.get? u).isSome) :
    (db'.get? (f u)).isSome := by
  obtain ⟨a, ha⟩ := Option.isSome_iff_exists.1 hu
  obtain ⟨b, hb, -⟩ := h.get? ha
  exact hb ▸ rfl

theorem eq_none (h : Renamed f db db') {u : Address} (hu : db.get? u = none) :
    db'.get? (f u) = none := by
  by_contra hne
  have hback := h.symm.isSome (Option.isSome_iff_ne_none.2 hne)
  rw [Equiv.symm_apply_apply, hu] at hback
  cases hback

theorem leads (h : Renamed f db db') {u : Address} {k : VertexKey} {w : Nat}
    (l : Leads db u k w) : Leads db' (f u) (k.rename f) w := by
  cases k with
  | router v =>
    obtain ⟨r, l, hr, hto, hw, hl, hback⟩ := leads_router_iff.1 l
    exact leads_router_iff.2 ⟨r.rename f, l.rename f, h.lists hr, by simpa using hto,
      by simpa using hw, h.lists hl, by simpa using hback⟩
  | network x k =>
    cases l with
    | @network a r m own mem type mask =>
      obtain ⟨b, hb, hr⟩ := h.lists ⟨a, own, mem⟩
      rw [r.rename_of_ne f (by simp [type])] at hr
      exact .network hb hr type mask

theorem leads_iff (h : Renamed f db db') {u : Address} {k : VertexKey} {w : Nat} :
    Leads db u k w ↔ Leads db' (f u) (k.rename f) w := by
  refine ⟨h.leads, fun l => ?_⟩
  simpa using h.symm.leads l

theorem walk (h : Renamed f db db') {root : Address} {k : VertexKey} {d : Nat}
    (hw : Walk db root k d) : Walk db' (f root) (k.rename f) d := by
  induction hw with
  | start hroot => exact .start (h.isSome hroot)
  | step _ l ih => exact .step ih (h.leads l)

end Renamed

/-- Each router has the same records in both databases, in any order. -/
def Rearranged (db db' : Database Advertisement) : Prop :=
  ∀ u, Option.Rel (fun a b => b.records.Perm a.records) (db.get? u) (db'.get? u)

namespace Rearranged

variable {db db' : Database Advertisement}

theorem renamed (h : Rearranged db db') : Renamed (Equiv.refl Address) db db' := by
  intro u
  simpa using h u

theorem symm (h : Rearranged db db') : Rearranged db' db := by
  intro u
  simpa using h.renamed.symm u

theorem trans {db'' : Database Advertisement} (h : Rearranged db db') (h' : Rearranged db' db'') :
    Rearranged db db'' := by
  intro u
  simpa using h.renamed.trans h'.renamed u

theorem leads_iff (h : Rearranged db db') {u : Address} {k : VertexKey} {w : Nat} :
    Leads db u k w ↔ Leads db' u k w := by
  simpa using h.renamed.leads_iff (u := u) (k := k) (w := w)

end Rearranged

theorem SameRecords.rearranged {db db' : Database Advertisement} (h : SameRecords db db') :
    Rearranged db db' := by
  intro u
  have hu := h u
  generalize db.get? u = a at hu ⊢
  generalize db'.get? u = b at hu ⊢
  cases a with
  | none =>
    rw [Option.map_eq_none_iff.1 hu.symm]
    exact .none
  | some a =>
    obtain ⟨b, rfl, hb⟩ := Option.map_eq_some_iff.1 hu.symm
    exact .some (hb ▸ .refl _)

/-- Vertices of one key, up to the renaming, differ in the IDs of routers alone. -/
theorem Vertex.Genuine.of_key_eq {f : Address → Address} {db db' : Database Advertisement}
    {v v' : PathVertex} (hv : v.Genuine db) (hv' : v'.Genuine db')
    (hk : v'.key = v.key.rename f) :
    v'.type = v.type ∧ v'.mask = v.mask ∧ v'.id = if v.type = .router then f v.id else v.id := by
  cases htype : v.type with
  | router =>
    rw [Search.key_of_router htype, VertexKey.rename] at hk
    obtain ⟨htype', hid⟩ := Search.key_eq_router_iff.1 hk
    have hmask := (hv'.router htype').1.trans (hv.router htype).1.symm
    exact ⟨htype', hmask, by simpa using hid⟩
  | network =>
    obtain ⟨-, m, x, hm, hx⟩ := hv.network htype
    rw [Vertex.key, Vertex.key, htype, hm] at hk
    cases htype' : v'.type with
    | router =>
      rw [htype'] at hk
      cases hk
    | network =>
      rw [htype'] at hk
      obtain ⟨-, m', x', hm', hx'⟩ := hv'.network htype'
      obtain ⟨hid, hlen⟩ := VertexKey.network.inj hk
      rw [hm'] at hlen ⊢
      refine ⟨rfl, ?_, by simpa using hid⟩
      rw [hm, (Mask.whole_of_octetsOf (Mask.ofAddress_eq_ok_iff.1 hx')).eq_of_length_eq
        (Mask.whole_of_octetsOf (Mask.ofAddress_eq_ok_iff.1 hx)) hlen]

namespace Search

variable {f : Equiv.Perm Address} {db db' : Database Advertisement} {root : Address} {s s' : Search}

/-- A vertex has a twin in the tree over the renamed database. -/
theorem Finished.exists_twin (hf : Finished db root s) (hf' : Finished db' (f root) s')
    (h : Renamed f db db') {i : Nat} {v : PathVertex} (hv : s.tree.view i = some v) :
    ∃ j x, s'.tree.view j = some x ∧ x.key = v.key.rename f ∧ x.distance = v.distance := by
  have hmax := hf.sound.arena.le_max i v hv
  obtain ⟨j, x, hx, hk, hle⟩ := hf'.reached (h.walk (hf.sound.arena.walk i v hv)) hmax
  -- and the other way round
  have hback := h.symm.walk (hf'.sound.arena.walk j x hx)
  rw [hk, VertexKey.rename_symm, Equiv.symm_apply_apply] at hback
  obtain ⟨i', v', hv', hk', hle'⟩ := hf.reached hback (hle.trans hmax)
  obtain rfl := hf.sound.arena.keys i' i v' v hv' hv hk'
  obtain rfl := Option.some.inj (hv'.symm.trans hv)
  exact ⟨j, x, hx, hk, le_antisymm hle hle'⟩

end Search

end LinkState
