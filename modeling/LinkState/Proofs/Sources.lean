import LinkState.Proofs.Lasting
import LinkState.Proofs.Refilling

/-! The sources of the routes in a table keep out of each other's way. What stands under a source is
what the calls that concern it make of an empty table, whatever calls come between them. Unless the
connected routes are replaced as a whole, each interface has the one that it was configured to have
last. -/

namespace LinkState

inductive TableCall where
  | addConnected (address : Address) (mask : Mask) (interface : String)
  | removeConnected (interface : String)
  | addStatic (address : Address) (mask : Mask) (via : Address) (interface : String)
      (metric : Number)
  | replace (source : RouteSource) (new : List (Route Number))
  | remove (source : RouteSource)
  | clear
  | list (source : Option RouteSource)
  | lookup (destination : Address)

namespace Routes

variable {rs : Routes} {s : RouteSource} {i : String} {e : TableEntry}

theorem of_append (rs rs' : Routes) (s : RouteSource) : (rs ++ rs').of s = rs.of s ++ rs'.of s :=
  List.filter_append ..

theorem mem_of_iff : e ∈ rs.of s ↔ e ∈ rs ∧ e.source = s := by simp [of]

theorem of_singleton (e : TableEntry) (s : RouteSource) :
    of [e] s = if e.source = s then [e] else [] := by
  by_cases h : e.source = s <;> simp [of, h]

theorem without_of (rs : Routes) (s : RouteSource) : (rs.of s).without s = [] := by
  rw [without, List.filter_eq_nil_iff]
  intro e he
  simp [(mem_of_iff.1 he).2]

theorem of_removeConnected (rs : Routes) (i : String) (s : RouteSource) :
    (rs.removeConnected i).of s = (rs.of s).removeConnected i :=
  List.filter_comm ..

theorem of_removeConnected_of_ne (rs : Routes) (i : String) (h : s ≠ .connected) :
    (rs.removeConnected i).of s = rs.of s := by
  rw [of_removeConnected, removeConnected, List.filter_eq_self]
  intro e he
  simp [(mem_of_iff.1 he).2, h]

theorem mem_removeConnected_iff :
    e ∈ rs.removeConnected i ↔ e ∈ rs ∧ (e.source = .connected → e.interface ≠ i) := by
  simp [removeConnected, imp_iff_not_or]

end Routes

namespace TableCall

variable {x : TableCall} {calls : List TableCall} {rs : Routes} {e : TableEntry} {a : Address}
  {m : Mask} {i : String} {s : RouteSource}

/-- What a call makes of the entries. -/
def change (rs : Routes) : TableCall → Routes
  | addConnected a m i => rs.addConnected a m i
  | removeConnected i => rs.removeConnected i
  | addStatic a m via i metric => rs.addStatic a m via i metric
  | replace s new => rs.replace s new
  | remove s => rs.without s
  | clear => []
  | list _ => rs
  | lookup _ => rs

/-- Does the call change entries of the source? -/
def concerns (s : RouteSource) : TableCall → Bool
  | addConnected .. => s = .connected
  | removeConnected _ => s = .connected
  | addStatic .. => s = .static
  | replace t _ => t = s
  | remove t => t = s
  | clear => true
  | list _ => false
  | lookup _ => false

/-- A call does to the entries of a source that it concerns what it would do without the others. -/
theorem of_change_of_concerns (h : x.concerns s) (rs : Routes) :
    (change rs x).of s = change (rs.of s) x := by
  cases x with
  | addConnected a m i =>
    obtain rfl : s = .connected := of_decide_eq_true h
    rw [change, Routes.addConnected, Routes.of_append, Routes.of_removeConnected,
      Routes.of_singleton, if_pos rfl]
    rfl
  | removeConnected i => exact Routes.of_removeConnected ..
  | addStatic a m via i metric =>
    obtain rfl : s = .static := of_decide_eq_true h
    rw [change, Routes.addStatic, Routes.of_append, Routes.of_singleton, if_pos rfl]
    rfl
  | replace t new =>
    obtain rfl : t = s := of_decide_eq_true h
    rw [change, Routes.of_replace_self, change, Routes.replace, Routes.without_of, List.nil_append]
  | remove t =>
    obtain rfl : t = s := of_decide_eq_true h
    rw [change, Routes.of_without_self, change, Routes.without_of]
  | clear => rfl
  | list _ => cases h
  | lookup _ => cases h

/-- A call leaves the entries of the other sources. -/
theorem of_change_of_not (h : ¬ x.concerns s) (rs : Routes) : (change rs x).of s = rs.of s := by
  cases x with
  | addConnected a m i =>
    have hs : s ≠ .connected := fun hs => h (decide_eq_true hs)
    rw [change, Routes.addConnected, Routes.of_append, Routes.of_removeConnected_of_ne rs i hs,
      Routes.of_singleton, if_neg (Ne.symm hs), List.append_nil]
  | removeConnected i => exact Routes.of_removeConnected_of_ne rs i fun hs => h (decide_eq_true hs)
  | addStatic a m via i metric =>
    have hs : s ≠ .static := fun hs => h (decide_eq_true hs)
    rw [change, Routes.addStatic, Routes.of_append,
      Routes.of_singleton, if_neg (Ne.symm hs), List.append_nil]
  | replace t new => exact Routes.of_replace_of_ne rs (fun hs => h (decide_eq_true hs.symm)) new
  | remove t => exact Routes.of_without_of_ne rs fun hs => h (decide_eq_true hs.symm)
  | clear => cases h rfl
  | list _ => rfl
  | lookup _ => rfl

/-- Each source changes on its own. -/
theorem of_foldl_change (calls : List TableCall) (rs : Routes) (s : RouteSource) :
    (calls.foldl change rs).of s = (calls.filter (·.concerns s)).foldl change (rs.of s) := by
  induction calls generalizing rs with
  | nil => rfl
  | cons x calls ih =>
    rw [List.foldl_cons, ih]
    by_cases hx : x.concerns s
    · rw [of_change_of_concerns hx, List.filter_cons_of_pos hx, List.foldl_cons]
    · rw [of_change_of_not hx, List.filter_cons_of_neg hx]

/-! ### The connected routes -/

/-- Does the call take the connected route of the interface away? -/
def touches (i : String) : TableCall → Bool
  | addConnected _ _ j => j = i
  | removeConnected j => j = i
  | addStatic .. => false
  | replace s _ => s = .connected
  | remove s => s = .connected
  | clear => true
  | list _ => false
  | lookup _ => false

/-- The call that was the last to do with the connected route of the interface configures it. -/
def Configured (calls : List TableCall) (a : Address) (m : Mask) (i : String) : Prop :=
  ∃ before after, calls = before ++ .addConnected a m i :: after ∧ ∀ x ∈ after, ¬ x.touches i

theorem configured_append_singleton : Configured (calls ++ [x]) a m i ↔
    x = .addConnected a m i ∨ ¬ x.touches i ∧ Configured calls a m i :=
  lasting_append_singleton

/-- A call leaves the connected routes that it does not touch, and adds that of the interface it
configures. -/
theorem mem_connected_change (hx : ∀ new, x ≠ .replace .connected new) :
    e ∈ (change rs x).of .connected ↔
      (∃ a m, x = .addConnected a m e.interface ∧
        e = ⟨⟨a.network m, m, none, e.interface, 0⟩, .connected⟩) ∨
      ¬ x.touches e.interface ∧ e ∈ rs.of .connected := by
  cases x with
  | addConnected a m i =>
    rw [of_change_of_concerns rfl]
    constructor
    · intro h
      rcases List.mem_append.1 h with h | h
      · obtain ⟨hmem, hne⟩ := Routes.mem_removeConnected_iff.1 h
        have hi := hne (Routes.mem_of_iff.1 hmem).2
        exact .inr ⟨by simpa [touches] using Ne.symm hi, hmem⟩
      · obtain rfl := List.mem_singleton.1 h
        exact .inl ⟨a, m, rfl, rfl⟩
    · intro h
      rcases h with ⟨a', m', hx, he⟩ | ⟨hi, hmem⟩
      · obtain ⟨rfl, rfl, rfl⟩ := addConnected.inj hx
        exact List.mem_append_right _ (List.mem_singleton.2 he)
      · have hi : i ≠ e.interface := by simpa [touches] using hi
        exact List.mem_append_left _ (Routes.mem_removeConnected_iff.2 ⟨hmem, fun _ => hi.symm⟩)
  | removeConnected i =>
    rw [of_change_of_concerns rfl, change, Routes.mem_removeConnected_iff]
    simp only [touches, Routes.mem_of_iff, decide_eq_true_eq, reduceCtorEq, false_and,
      exists_const, false_or, eq_comm (a := i)]
    tauto
  | addStatic a m via i metric =>
    rw [of_change_of_not (by simp [concerns])]
    simp [touches]
  | replace s new =>
    have hs : s ≠ .connected := fun h => hx new (h ▸ rfl)
    rw [of_change_of_not (by simp [concerns, hs])]
    simp [touches, hs]
  | remove s =>
    by_cases hs : s = .connected
    · subst hs
      simp [change, touches, Routes.of_without_self]
    · rw [of_change_of_not (by simp [concerns, hs])]
      simp [touches, hs]
  | clear => simp [change, touches, Routes.of]
  | list _ => simp [change, touches]
  | lookup _ => simp [change, touches]

theorem nodup_connected_change (hx : ∀ new, x ≠ .replace .connected new)
    (h : ((rs.of .connected).map (·.interface)).Nodup) :
    (((change rs x).of .connected).map (·.interface)).Nodup := by
  have hsub (p : TableEntry → Bool) : (((rs.of .connected).filter p).map (·.interface)).Nodup :=
    h.sublist (List.filter_sublist.map _)
  cases x with
  | addConnected a m i =>
    rw [of_change_of_concerns rfl, change, Routes.addConnected, List.map_append, List.nodup_append]
    refine ⟨hsub _, List.nodup_singleton _, fun j hj k hk => ?_⟩
    obtain rfl := List.mem_singleton.1 hk
    obtain ⟨e, he, rfl⟩ := List.mem_map.1 hj
    obtain ⟨hmem, hne⟩ := Routes.mem_removeConnected_iff.1 he
    exact hne (Routes.mem_of_iff.1 hmem).2
  | removeConnected i =>
    rw [of_change_of_concerns rfl]
    exact hsub _
  | addStatic a m via i metric => rwa [of_change_of_not (by simp [concerns])]
  | replace s new =>
    have hs : s ≠ .connected := fun h => hx new (h ▸ rfl)
    rwa [of_change_of_not (by simp [concerns, hs])]
  | remove s =>
    rw [change, Routes.of, Routes.without, List.filter_comm]
    exact hsub _
  | clear => exact List.nodup_nil
  | list _ => exact h
  | lookup _ => exact h

/-- Each interface has the connected route that it was configured to have last, or none. -/
theorem connected_foldl_change {calls : List TableCall}
    (hcalls : ∀ x ∈ calls, ∀ new, x ≠ .replace .connected new) :
    (((calls.foldl change []).of .connected).map (·.interface)).Nodup ∧
      ∀ e, e ∈ (calls.foldl change []).of .connected ↔
        ∃ a m, Configured calls a m e.interface ∧
          e = ⟨⟨a.network m, m, none, e.interface, 0⟩, .connected⟩ := by
  -- the last call decides about the interfaces that it touches, those before it about the others
  induction calls using List.reverseRecOn with
  | nil =>
    refine ⟨List.nodup_nil, fun e => iff_of_false List.not_mem_nil fun h => ?_⟩
    obtain ⟨a, m, ⟨before, after, h, -⟩, -⟩ := h
    simp at h
  | append_singleton calls x ih =>
    rw [List.forall_mem_append, List.forall_mem_singleton] at hcalls
    obtain ⟨hnodup, hmem⟩ := ih hcalls.1
    rw [List.foldl_concat]
    refine ⟨nodup_connected_change hcalls.2 hnodup, fun e => ?_⟩
    rw [mem_connected_change hcalls.2, hmem]
    simp only [configured_append_singleton]
    constructor
    · intro h
      rcases h with ⟨a, m, hx, he⟩ | ⟨hx, a, m, hconf, he⟩
      · exact ⟨a, m, .inl hx, he⟩
      · exact ⟨a, m, .inr ⟨hx, hconf⟩, he⟩
    · intro h
      obtain ⟨a, m, hx | ⟨hx, hconf⟩, he⟩ := h
      · exact .inl ⟨a, m, hx, he⟩
      · exact .inr ⟨hx, a, m, hconf, he⟩

end TableCall

/-! ### The tables of a network -/

namespace Network

variable {n n' : Network} {t t' : TableId}

def callTable (t : TableId) : TableCall → NetworkM Unit
  | .addConnected a m i => modifyRoutes t (·.addConnected a m i)
  | .removeConnected i => modifyRoutes t (·.removeConnected i)
  | .addStatic a m via i metric => addStaticRoute t a m via i metric
  | .replace s new => discard (replaceRoutes t s new)
  | .remove s => discard (removeRoutes t s)
  | .clear => modifyRoutes t fun _ => []
  | .list s => discard (listRoutes t s)
  | .lookup x => discard (lookupRoute t x)

/-- The network after calls to one of its tables. A call that a subscriber stops has changed the
table already. -/
def callTables (t : TableId) (calls : List TableCall) (n : Network) : Network :=
  execAll (calls.map (callTable t)) n

/-- There are as many tables as before, and the entries of one are as described. -/
structure Holding (n : Network) (t : TableId) (rs : Routes) (n' : Network) : Prop where
  tables : n'.tables.size = n.tables.size
  routes : (n'.table t).routes = rs

theorem Holding.logged {rs : Routes} {n₁ : Network} (h : Holding n t rs n₁) (hl : Logged n₁ n') :
    Holding n t rs n' := by
  obtain ⟨j, rfl⟩ := hl
  exact ⟨h.tables, h.routes⟩

theorem holding_setRoutes (ht : t < n.tables.size) (f : Routes → Routes) :
    Holding n t (f (n.table t).routes) (n.setRoutes t f) := by
  refine ⟨Array.size_modify, ?_⟩
  rw [table_setRoutes, if_pos ⟨rfl, ht⟩]

theorem holding_callTable (ht : t < n.tables.size) (x : TableCall) :
    Holding n t (TableCall.change (n.table t).routes x) (exec (callTable t x) n).2 := by
  cases x with
  | addConnected a m i => exact holding_setRoutes ht (·.addConnected a m i)
  | removeConnected i => exact holding_setRoutes ht (·.removeConnected i)
  | addStatic a m via i metric =>
    exact (holding_setRoutes ht (·.addStatic a m via i metric)).logged logged_log
  | replace s new =>
    rw [callTable, exec_discard]
    exact (holding_setRoutes ht (·.replace s new)).logged (logged_replaceRoutes ..)
  | remove s =>
    rw [callTable, exec_discard]
    exact holding_setRoutes ht (·.without s)
  | clear => exact holding_setRoutes ht fun _ => []
  | list s => exact ⟨rfl, rfl⟩
  | lookup x => exact ⟨rfl, rfl⟩

theorem holding_callTables (ht : t < n.tables.size) (calls : List TableCall) :
    Holding n t (calls.foldl TableCall.change (n.table t).routes) (callTables t calls n) := by
  induction calls generalizing n with
  | nil => exact ⟨rfl, rfl⟩
  | cons x calls ih =>
    have hx := holding_callTable ht x
    have h := ih (hx.tables.symm ▸ ht)
    rw [hx.routes] at h
    exact ⟨h.tables.trans hx.tables, h.routes⟩

/-- A table whose replacements a subscriber stops, and calls to it that go from source to source. -/
def watchedTable : Network := (exec (do
  discard (withJournal (·.subscribe ⟨none, some "fib:replace", none⟩ none (some "enough")))
  newTable "node-1") .empty).2

def mixedCalls : List TableCall :=
  [.addConnected ⟨10, 1, 0, 1⟩ .host "eth0",
   .addStatic ⟨10, 9, 0, 0⟩ .host ⟨10, 1, 0, 2⟩ "eth0" (.ofNat 5),
   .addConnected ⟨10, 2, 0, 1⟩ .host "eth1",
   .replace .global [⟨⟨10, 3, 0, 0⟩, .host, some ⟨10, 1, 0, 2⟩, "eth0", .ofNat 10⟩],
   .list none,
   .addConnected ⟨10, 4, 0, 1⟩ .host "eth0",
   .remove .static,
   .lookup ⟨10, 3, 0, 7⟩,
   .removeConnected "eth1"]

/-- The replacement that was stopped counts. -/
example : ((callTables 0 mixedCalls watchedTable).table 0).routes.map
    (fun e => (e.source, e.network)) =
    [(.global, ⟨10, 3, 0, 0⟩), (.connected, ⟨10, 4, 0, 1⟩)] := by
  decide +kernel

end Network

end LinkState
