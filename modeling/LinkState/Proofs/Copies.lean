import LinkState.Network.Paths
import LinkState.Proofs.Operation
import LinkState.Proofs.Search.Run
import LinkState.Proofs.Topology

/-! The advertisements that a database owns. None is in it twice, so what is done to the one under a
router ID is done to that one alone. -/

namespace LinkState

namespace Database

variable {α β γ : Type}

theorem get?_of_mem {d : Database α} {id : Address} {x : α} (h : (id, x) ∈ d.entries) :
    d.get? id = some x := by
  obtain ⟨es, hn⟩ := d
  rw [get?]
  dsimp only at h ⊢
  induction es with
  | nil => cases h
  | cons e es ih =>
    obtain ⟨k, y⟩ := e
    rw [List.map_cons, List.nodup_cons] at hn
    rw [find?]
    rcases List.mem_cons.1 h with h | h
    · obtain ⟨rfl, rfl⟩ := Prod.mk.injEq .. ▸ h
      rw [if_pos rfl]
    · rw [if_neg, ih hn.2 h]
      rintro rfl
      exact hn.1 (List.mem_map.2 ⟨_, h, rfl⟩)

theorem mem_keys_iff {d : Database α} {id : Address} : id ∈ d.keys ↔ (d.get? id).isSome := by
  constructor
  · intro h
    obtain ⟨⟨k, x⟩, he, rfl⟩ := List.mem_map.1 h
    simp [get?_of_mem he]
  · intro h
    obtain ⟨x, hx⟩ := Option.isSome_iff_exists.1 h
    exact List.mem_map_of_mem (Search.mem_entries_of_get? hx)

theorem get?_eq_none {d : Database α} {id : Address} (h : id ∉ d.keys) : d.get? id = none := by
  rwa [mem_keys_iff, Option.not_isSome_iff_eq_none] at h

/-- The same keys, each with a value made from the key and the value before. -/
def mapWith (f : Address → α → β) (d : Database α) : Database β :=
  ⟨d.entries.map fun e => (e.1, f e.1 e.2), by simpa [Function.comp_def] using d.nodup⟩

theorem map_eq_mapWith (f : α → β) (d : Database α) : d.map f = d.mapWith fun _ => f := rfl

theorem mapWith_mapWith (g : Address → β → γ) (f : Address → α → β) (d : Database α) :
    (d.mapWith f).mapWith g = d.mapWith fun k x => g k (f k x) := by
  simp [mapWith, Function.comp_def]

theorem mapWith_congr {f g : Address → α → β} {d : Database α}
    (h : ∀ e ∈ d.entries, f e.1 e.2 = g e.1 e.2) : d.mapWith f = d.mapWith g := by
  rw [mapWith, mapWith, mk.injEq]
  exact List.map_congr_left fun e he => by rw [h e he]

theorem mapWith_id (d : Database α) : (d.mapWith fun _ x => x) = d := by
  simp [mapWith]

theorem get?_mapWith (f : Address → α → β) (d : Database α) (k : Address) :
    (d.mapWith f).get? k = (d.get? k).map (f k) := by
  show find? k (d.entries.map fun e => (e.1, f e.1 e.2)) = (find? k d.entries).map (f k)
  induction d.entries with
  | nil => rfl
  | cons e es ih =>
    obtain ⟨j, y⟩ := e
    by_cases hk : j = k
    · simp [find?, hk]
    · simp [find?, hk, ih]

theorem mem_put {id : Address} {x : α} {es : List (Address × α)} {e : Address × α}
    (h : e ∈ put id x es) : e = (id, x) ∨ e ∈ es := by
  induction es with
  | nil => exact .inl (List.mem_singleton.1 h)
  | cons d es ih =>
    rw [put] at h
    split at h
    · rcases List.mem_cons.1 h with h | h
      · exact .inl h
      · exact .inr (List.mem_cons_of_mem _ h)
    · rcases List.mem_cons.1 h with h | h
      · exact .inr (h ▸ List.mem_cons_self ..)
      · exact (ih h).imp_right (List.mem_cons_of_mem _)

/-- A new value is in the database once. -/
theorem nodup_values_put {id : Address} {x : α} {es : List (Address × α)}
    (hn : (es.map Prod.snd).Nodup) (hx : x ∉ es.map Prod.snd) :
    ((put id x es).map Prod.snd).Nodup := by
  induction es with
  | nil => simp [put]
  | cons e es ih =>
    obtain ⟨k, y⟩ := e
    rw [List.map_cons, List.nodup_cons] at hn
    rw [List.map_cons, List.mem_cons, not_or] at hx
    rw [put]
    split
    · exact List.nodup_cons.2 ⟨hx.2, hn.2⟩
    · refine List.nodup_cons.2 ⟨fun hy => ?_, ih hn.2 hx.2⟩
      obtain ⟨⟨j, z⟩, he, rfl⟩ := List.mem_map.1 hy
      rcases mem_put he with he | he
      · obtain ⟨rfl, rfl⟩ := Prod.mk.injEq .. ▸ he
        exact hx.1 rfl
      · exact hn.1 (List.mem_map.2 ⟨_, he, rfl⟩)

end Database

namespace Network

variable {n n' : Network} {d : DatabaseId}

def Fits (n : Network) (d : DatabaseId) : Prop :=
  ∀ e ∈ (n.database d).entries, e.2 < n.advertisements.size

/-- The advertisements of the database exist, and each is there once. -/
structure OwnCopies (n : Network) (d : DatabaseId) : Prop where
  fits : n.Fits d
  nodup : ((n.database d).entries.map Prod.snd).Nodup

theorem OwnCopies.of_eq (h : n.OwnCopies d) (hd : n'.databases = n.databases)
    (ha : n.advertisements.size ≤ n'.advertisements.size) : n'.OwnCopies d := by
  have hdb : n'.database d = n.database d := by rw [database, hd, database]
  refine ⟨fun e he => ?_, hdb ▸ h.nodup⟩
  rw [hdb] at he
  exact Nat.lt_of_lt_of_le (h.fits e he) ha

theorem ownCopies_of_empty (h : n.database d = .empty) : n.OwnCopies d := by
  refine ⟨fun e he => ?_, ?_⟩
  · rw [h] at he
    cases he
  · rw [h]
    exact List.nodup_nil

theorem ownCopies_clear (h : n.OwnCopies d) (c : DatabaseId) :
    (exec (clearDatabase c) n).2.OwnCopies d := by
  have hdb : (exec (clearDatabase c) n).2.database d =
      if d = c ∧ c < n.databases.size then .empty else n.database d := getD_modify ..
  split at hdb
  · exact ownCopies_of_empty hdb
  · exact ⟨fun e he => h.fits e (hdb ▸ he), hdb ▸ h.nodup⟩

theorem ownCopies_newDatabase (h : n.OwnCopies d) : (exec newDatabase n).2.OwnCopies d := by
  have hdb : (exec newDatabase n).2.database d =
      if d = n.databases.size then .empty else n.database d := getD_push ..
  split at hdb
  · exact ownCopies_of_empty hdb
  · exact ⟨fun e he => h.fits e (hdb ▸ he), hdb ▸ h.nodup⟩

/-- A new advertisement is a copy of its own. -/
theorem OwnCopies.insert (h : n.OwnCopies d) {id : Address}
    (hdb : n'.database d = (n.database d).insert id n.advertisements.size)
    (hsize : n'.advertisements.size = n.advertisements.size + 1) : n'.OwnCopies d := by
  constructor
  · intro e he
    rw [hdb] at he
    rw [hsize]
    rcases Database.mem_put he with rfl | he
    · exact Nat.lt_succ_self _
    · exact Nat.lt_succ_of_lt (h.fits e he)
  · rw [hdb]
    refine Database.nodup_values_put h.nodup fun hm => ?_
    obtain ⟨e, he, heq⟩ := List.mem_map.1 hm
    exact absurd (h.fits e he) (Nat.not_lt.2 heq.ge)

theorem ownCopies_install (h : n.OwnCopies d) (c : DatabaseId) (a : Advertisement) :
    (exec (install c a) n).2.OwnCopies d := by
  have hsize : (exec (install c a) n).2.advertisements.size = n.advertisements.size + 1 :=
    Array.size_push ..
  have hdb : (exec (install c a) n).2.database d = if d = c ∧ c < n.databases.size
      then (n.database c).insert a.id n.advertisements.size else n.database d := getD_modify ..
  split at hdb
  · next hc =>
    obtain ⟨rfl, -⟩ := hc
    exact h.insert hdb hsize
  · refine ⟨fun e he => ?_, hdb ▸ h.nodup⟩
    rw [hdb] at he
    rw [hsize]
    exact Nat.lt_succ_of_lt (h.fits e he)

/-- What is done to the advertisement under a router ID. -/
theorem OwnCopies.snapshot_modify (h : n.OwnCopies d) {id : Address} {a : AdvertisementId}
    (ha : (n.database d).get? id = some a) (f : Advertisement → Advertisement) :
    Network.snapshot { n with advertisements := n.advertisements.modify a f } d =
      (n.snapshot d).mapWith fun k x => if k = id then f x else x := by
  rw [snapshot, snapshot, Database.map_eq_mapWith, Database.map_eq_mapWith,
    Database.mapWith_mapWith]
  refine Database.mapWith_congr fun e he => ?_
  have hadv : Network.advertisement { n with advertisements := n.advertisements.modify a f } e.2 =
      if e.2 = a ∧ a < n.advertisements.size then f (n.advertisement a) else n.advertisement e.2 :=
    getD_modify ..
  have hmem := Search.mem_entries_of_get? ha
  rw [hadv]
  by_cases hid : e.1 = id
  · have hea : e.2 = a := Option.some.inj ((Database.get?_of_mem he).symm.trans (hid ▸ ha))
    rw [if_pos ⟨hea, h.fits _ hmem⟩, if_pos hid, hea]
  · rw [if_neg, if_neg hid]
    intro hc
    exact hid (congrArg Prod.fst (List.inj_on_of_nodup_map h.nodup he hmem hc.1))

end Network

end LinkState
