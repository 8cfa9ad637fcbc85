import LinkState.Spf.Search
import Mathlib

/-! Walks over a link-state database: what a search is measured against. A point-to-point record
counts if the router it names advertises a link back, a stub network if its mask is contiguous.
Lengths are natural numbers without a bound. -/

namespace LinkState

/-- A record of the router `u` leads to a vertex, at its metric. -/
inductive Leads (db : Database Advertisement) (u : Address) : VertexKey → Nat → Prop
  | router {a b : Advertisement} {r : LinkRecord} (own : db.get? u = some a) (mem : r ∈ a.records)
      (type : r.type = .pointToPoint) (far : db.get? r.id = some b)
      (back : ∃ l ∈ b.records, l.type = .pointToPoint ∧ l.id = u) :
      Leads db u (.router r.id) r.metric.value
  | network {a : Advertisement} {r : LinkRecord} {m : Mask} (own : db.get? u = some a)
      (mem : r ∈ a.records) (type : r.type = .stubNetwork) (mask : Mask.ofAddress r.data = .ok m) :
      Leads db u (.network r.id m.length) r.metric.value

inductive Walk (db : Database Advertisement) (root : Address) : VertexKey → Nat → Prop
  | start (h : (db.get? root).isSome) : Walk db root (.router root) 0
  | step {u : Address} {k : VertexKey} {d w : Nat} (h : Walk db root (.router u) d)
      (l : Leads db u k w) : Walk db root k (d + w)

def Lists (db : Database Advertisement) (u : Address) (r : LinkRecord) : Prop :=
  ∃ a, db.get? u = some a ∧ r ∈ a.records

theorem Lists.isSome {db : Database Advertisement} {u : Address} {r : LinkRecord}
    (h : Lists db u r) : (db.get? u).isSome := by
  obtain ⟨a, ha, -⟩ := h
  simp [ha]

theorem LinkRecord.leadsTo_iff {r : LinkRecord} {u : Address} :
    r.leadsTo u ↔ r.type = .pointToPoint ∧ r.id = u := by
  simp [LinkRecord.leadsTo]

/-- A link to a router counts if the router has a link back. -/
theorem leads_router_iff {db : Database Advertisement} {u v : Address} {w : Nat} :
    Leads db u (.router v) w ↔ ∃ r l, Lists db u r ∧ r.leadsTo v ∧ r.metric.value = w ∧
      Lists db v l ∧ l.leadsTo u := by
  simp only [LinkRecord.leadsTo_iff]
  constructor
  · intro h
    cases h with
    | router own mem type far back =>
      obtain ⟨l, hl, hback⟩ := back
      exact ⟨_, l, ⟨_, own, mem⟩, ⟨type, rfl⟩, rfl, ⟨_, far, hl⟩, hback⟩
  · rintro ⟨r, l, ⟨a, own, mem⟩, ⟨type, rfl⟩, rfl, ⟨b, far, hl⟩, hback⟩
    exact .router own mem type far ⟨l, hl, hback⟩

/-- Two databases with the same records under each router ID. -/
def SameRecords (db db' : Database Advertisement) : Prop :=
  ∀ id, (db.get? id).map Advertisement.records = (db'.get? id).map Advertisement.records

namespace SameRecords

variable {db db' : Database Advertisement}

theorem refl (db : Database Advertisement) : SameRecords db db := fun _ => rfl

theorem symm (h : SameRecords db db') : SameRecords db' db := fun id => (h id).symm

theorem trans {db'' : Database Advertisement} (h : SameRecords db db')
    (h' : SameRecords db' db'') : SameRecords db db'' := fun id => (h id).trans (h' id)

theorem get? (h : SameRecords db db') {id : Address} {a : Advertisement}
    (ha : db.get? id = some a) : ∃ b, db'.get? id = some b ∧ b.records = a.records := by
  have hid := h id
  rw [ha, Option.map_some] at hid
  exact Option.map_eq_some_iff.1 hid.symm

theorem lists (h : SameRecords db db') {u : Address} {r : LinkRecord} (hl : Lists db u r) :
    Lists db' u r := by
  obtain ⟨a, ha, hr⟩ := hl
  obtain ⟨b, hb, hrec⟩ := h.get? ha
  exact ⟨b, hb, hrec ▸ hr⟩

theorem lists_iff (h : SameRecords db db') {u : Address} {r : LinkRecord} :
    Lists db u r ↔ Lists db' u r := ⟨h.lists, h.symm.lists⟩

theorem isSome_get? (h : SameRecords db db') (id : Address) :
    (db.get? id).isSome = (db'.get? id).isSome := by
  rw [← Option.isSome_map (f := Advertisement.records), h id, Option.isSome_map]

theorem leads (h : SameRecords db db') {u : Address} {k : VertexKey} {w : Nat}
    (l : Leads db u k w) : Leads db' u k w := by
  cases l with
  | router own mem type far back =>
    obtain ⟨a', own', ha⟩ := h.get? own
    obtain ⟨b', far', hb⟩ := h.get? far
    exact .router own' (ha ▸ mem) type far' (hb ▸ back)
  | network own mem type mask =>
    obtain ⟨a', own', ha⟩ := h.get? own
    exact .network own' (ha ▸ mem) type mask

theorem walk (h : SameRecords db db') {root : Address} {k : VertexKey} {d : Nat}
    (hw : Walk db root k d) : Walk db' root k d := by
  induction hw with
  | start hr => exact .start (h.isSome_get? root ▸ hr)
  | step _ l ih => exact .step ih (h.leads l)

theorem leads_iff (h : SameRecords db db') {u : Address} {k : VertexKey} {w : Nat} :
    Leads db u k w ↔ Leads db' u k w := ⟨h.leads, h.symm.leads⟩

theorem walk_iff (h : SameRecords db db') {root : Address} {k : VertexKey} {d : Nat} :
    Walk db root k d ↔ Walk db' root k d := ⟨h.walk, h.symm.walk⟩

end SameRecords

namespace Leads

variable {db : Database Advertisement} {u : Address} {k : VertexKey} {w : Nat}

theorem isSome (l : Leads db u k w) : (db.get? u).isSome := by
  cases l with
  | router own | network own => exact own ▸ rfl

/-- The router that a record leads to has an advertisement. -/
theorem far_isSome {v : Address} (l : Leads db u (.router v) w) : (db.get? v).isSome := by
  cases l with
  | router _ _ _ far => exact far ▸ rfl

end Leads

namespace Walk

variable {db : Database Advertisement} {root : Address}

theorem root_isSome {k : VertexKey} {d : Nat} (h : Walk db root k d) : (db.get? root).isSome := by
  induction h with
  | start hr => exact hr
  | step _ _ ih => exact ih

theorem far_isSome {v : Address} {d : Nat} (h : Walk db root (.router v) d) :
    (db.get? v).isSome := by
  cases h with
  | start hr => exact hr
  | step _ l => exact l.far_isSome

theorem trans {u : Address} {k : VertexKey} {d e : Nat} (h : Walk db root (.router u) d)
    (h' : Walk db u k e) : Walk db root k (d + e) := by
  induction h' with
  | start => exact h
  | step _ l ih => exact Nat.add_assoc .. ▸ ih.step l

end Walk

end LinkState
