import LinkState.Network.Nodes
import LinkState.Proofs.Operation
import LinkState.Proofs.Topology

/-! Identifiers, and the nodes that are registered under them. The counter of an identifier is read
back from behind its last dash, whatever its label has in it, so a counter that only goes up gives
no identifier twice. No new node then takes the place of another: the registry has all nodes that
were made since it was last cleared, in the order in which they were made. -/

namespace LinkState

namespace Identifier

def digitValue (c : Char) : Nat := if c.toNat < 58 then c.toNat - 48 else c.toNat - 87

/-- The number that digits are written for, in base 36. -/
def ofDigits (cs : List Char) : Nat := cs.foldl (fun n c => 36 * n + digitValue c) 0

/-- The number behind the last dash of an identifier. -/
def counterOf (id : String) : Nat := ofDigits (id.toList.rtakeWhile (· ≠ '-'))

theorem digitValue_digit : ∀ n < 36, digitValue (digit n) = n := by decide

theorem digit_ne_dash : ∀ n < 36, digit n ≠ '-' := by decide

theorem ofDigits_append_singleton (cs : List Char) (c : Char) :
    ofDigits (cs ++ [c]) = 36 * ofDigits cs + digitValue c := List.foldl_concat _ _ _ _

theorem ofDigits_base36 (n : Nat) : ofDigits (base36 n) = n := by
  induction n using base36.induct with
  | case1 n h =>
    rw [base36, if_pos h]
    exact (Nat.zero_add _).trans (digitValue_digit n h)
  | case2 n h ih =>
    have hlast : n % 36 < 36 := Nat.mod_lt n (by decide)
    rw [base36, if_neg h, ofDigits_append_singleton, ih, digitValue_digit _ hlast, Nat.div_add_mod]

theorem dash_not_mem_base36 (n : Nat) : '-' ∉ base36 n := by
  induction n using base36.induct with
  | case1 n h =>
    rw [base36, if_pos h, List.mem_singleton]
    exact (digit_ne_dash n h).symm
  | case2 n h ih =>
    have hlast : n % 36 < 36 := Nat.mod_lt n (by decide)
    rw [base36, if_neg h, List.mem_append, List.mem_singleton, not_or]
    exact ⟨ih, (digit_ne_dash _ hlast).symm⟩

theorem rtakeWhile_append_cons {α : Type} {p : α → Bool} {a : α} {u v : List α}
    (hv : ∀ x ∈ v, p x = true) (ha : p a = false) : (u ++ a :: v).rtakeWhile p = v := by
  have hback : ∀ x ∈ v.reverse, p x = true := fun x hx => hv x (List.mem_reverse.1 hx)
  rw [List.rtakeWhile, List.reverse_append, List.reverse_cons, List.append_assoc,
    List.takeWhile_append_of_pos hback]
  simp [ha]

/-- A label may have dashes and digits of its own. -/
theorem counterOf_make (label : String) (n : Nat) : counterOf (make label n) = n := by
  have htext : (make label n).toList = label.toList ++ '-' :: base36 n := by simp [make]
  have hdigits : ∀ c ∈ base36 n, decide (c ≠ '-') = true := fun c hc =>
    decide_eq_true fun h => dash_not_mem_base36 n (h ▸ hc)
  rw [counterOf, htext, rtakeWhile_append_cons hdigits rfl, ofDigits_base36]

def series (counter : Nat) (labels : List String) : List String :=
  (labels.zipIdx (counter + 1)).map fun l => make l.1 l.2

theorem series_append_singleton (counter : Nat) (labels : List String) (label : String) :
    series counter (labels ++ [label]) =
      series counter labels ++ [make label (counter + labels.length + 1)] := by
  simp [series, List.zipIdx_append, Nat.add_right_comm]

theorem map_counterOf_series (counter : Nat) (labels : List String) :
    (series counter labels).map counterOf = List.range' (counter + 1) labels.length := by
  rw [series, List.map_map, ← List.zipIdx_map_snd]
  exact List.map_congr_left fun l _ => counterOf_make l.1 l.2

theorem nodup_series (counter : Nat) (labels : List String) : (series counter labels).Nodup := by
  refine .of_map counterOf ?_
  rw [map_counterOf_series]
  exact List.nodup_range'

/-- The next identifier is a new one. -/
theorem make_not_mem_series (counter : Nat) (labels : List String) (label : String) :
    make label (counter + labels.length + 1) ∉ series counter labels := by
  have h := nodup_series counter (labels ++ [label])
  rw [series_append_singleton, List.nodup_append] at h
  exact fun hmem => h.2.2 _ hmem _ (List.mem_singleton_self _) rfl

/-- A label may look like an identifier, and the numbers have letters. -/
example : series 34 ["node", "node-z", "node"] = ["node-z", "node-z-10", "node-11"] := by cbv

end Identifier

def Node.identity (x : Node) : String × Nat × String := (x.id, x.index, x.name)

namespace Network

variable {n n' : Network} {made : List NodeId} {id : String} {k : NodeId}

/-! ### The registry -/

theorem register_of_absent {registry : List (String × NodeId)} (h : id ∉ registry.map Prod.fst)
    (k : NodeId) : register id k registry = registry ++ [(id, k)] := by
  have hnone : ¬ registry.any (·.1 = id) = true := by
    simp only [List.any_eq_true, decide_eq_true_iff]
    rintro ⟨e, he, rfl⟩
    exact h (List.mem_map_of_mem he)
  rw [register, if_neg hnone]

/-- Where no identifier stands twice each leads to the one node that it stands with. -/
theorem lookup_eq_some_iff_mem {registry : List (String × NodeId)}
    (h : (registry.map Prod.fst).Nodup) : registry.lookup id = some k ↔ (id, k) ∈ registry := by
  rw [List.lookup_eq_some_iff]
  constructor
  · rintro ⟨before, after, rfl, -⟩
    simp
  · intro hmem
    obtain ⟨before, after, rfl⟩ := List.append_of_mem hmem
    rw [List.map_append, List.nodup_append] at h
    refine ⟨before, after, rfl, fun e he => bne_iff_ne.2 fun heq => ?_⟩
    exact h.2.2 e.1 (List.mem_map_of_mem he) id (by simp) heq.symm

def nextNode (n : Network) (name : String) : Node where
  id := Identifier.make "node" (n.counter + 1)
  index := n.nextIndex
  name := name
  interfaces := []
  stubs := []
  table := n.tables.size
  router := none

theorem exec_newNode (n : Network) (name : String) :
    exec (newNode name) n = (.ok n.nodes.size,
      { n with
        counter := n.counter + 1
        tables := n.tables.push ⟨(n.nextNode name).id, []⟩
        nodes := n.nodes.push (n.nextNode name)
        nextIndex := n.nextIndex + 1
        registry := register (n.nextNode name).id n.nodes.size n.registry }) := rfl

theorem node_newNode (n : Network) (name : String) (k : NodeId) :
    (exec (newNode name) n).2.node k = if k = n.nodes.size then n.nextNode name else n.node k :=
  getD_push ..

/-- What is read off the nodes that were there and the new one. -/
theorem map_node_newNode {β : Type} (f : NodeId → Node → β) (h : ∀ k ∈ made, k < n.nodes.size)
    (name : String) :
    ((made ++ [n.nodes.size]).map fun k => f k ((exec (newNode name) n).2.node k)) =
      (made.map fun k => f k (n.node k)) ++ [f n.nodes.size (n.nextNode name)] := by
  have hold : ∀ k ∈ made, f k ((exec (newNode name) n).2.node k) = f k (n.node k) := fun k hk => by
    rw [node_newNode, if_neg (h k hk).ne]
  rw [List.map_append, List.map_congr_left hold, List.map_singleton, node_newNode, if_pos rfl]

structure Enrolled (n : Network) (made : List NodeId) : Prop where
  registry : n.registry = made.map fun k => ((n.node k).id, k)
  nextIndex : n.nextIndex = made.length
  indices : (made.map fun k => (n.node k).index) = List.range made.length
  exist : ∀ k ∈ made, k < n.nodes.size

namespace Enrolled

theorem of_cleared (n : Network) : Enrolled (exec clearRegistry n).2 [] := ⟨rfl, rfl, rfl, nofun⟩

theorem nodup (h : n.Enrolled made) : made.Nodup := by
  refine .of_map (fun k => (n.node k).index) ?_
  rw [h.indices]
  exact List.nodup_range

theorem registeredNodes_eq (h : n.Enrolled made) : n.registeredNodes = made := by
  have hnodes : n.registry.map Prod.snd = made := by
    simp [h.registry, Function.comp_def]
  have hsorted : (made.map fun k => (n.node k).index).Pairwise (· ≤ ·) := by
    rw [h.indices]
    exact List.pairwise_le_range
  rw [registeredNodes, hnodes, byIndex, List.mergeSort_of_pairwise]
  exact (List.pairwise_map.1 hsorted).imp decide_eq_true

theorem registered?_iff (h : n.Enrolled made) (hids : (made.map fun k => (n.node k).id).Nodup) :
    n.registered? id = some k ↔ k ∈ made ∧ (n.node k).id = id := by
  have hkeys : (n.registry.map Prod.fst).Nodup := by
    simpa [h.registry, Function.comp_def] using hids
  rw [registered?, lookup_eq_some_iff_mem hkeys, h.registry, List.mem_map]
  constructor
  · rintro ⟨j, hj, hjk⟩
    obtain ⟨rfl, rfl⟩ := Prod.mk.inj hjk
    exact ⟨hj, rfl⟩
  · rintro ⟨hk, rfl⟩
    exact ⟨k, hk, rfl⟩

theorem newNode (h : n.Enrolled made) (name : String)
    (hid : (n.nextNode name).id ∉ made.map fun k => (n.node k).id) :
    Enrolled (exec (newNode name) n).2 (made ++ [n.nodes.size]) := by
  constructor
  · have hkeys : (n.nextNode name).id ∉ n.registry.map Prod.fst := by
      simpa [h.registry, Function.comp_def] using hid
    rw [map_node_newNode (fun k x => (x.id, k)) h.exist, ← h.registry]
    exact register_of_absent hkeys _
  · rw [exec_newNode, List.length_append, ← h.nextIndex]
    rfl
  · rw [map_node_newNode (fun _ x => x.index) h.exist, h.indices, List.length_append,
      List.length_singleton, List.range_succ, ← h.nextIndex]
    rfl
  · intro k hk
    have hsize : (exec (Network.newNode name) n).2.nodes.size = n.nodes.size + 1 :=
      Array.size_push _
    rw [hsize]
    rcases List.mem_append.1 hk with hk | hk
    · exact Nat.lt_succ_of_lt (h.exist k hk)
    · exact (List.mem_singleton.1 hk) ▸ Nat.lt_succ_self _

end Enrolled

/-! ### Sessions -/

structure SameNames (n n' : Network) : Prop where
  counter : n'.counter = n.counter
  nextIndex : n'.nextIndex = n.nextIndex
  registry : n'.registry = n.registry
  nodes : n'.nodes.map Node.identity = n.nodes.map Node.identity

namespace SameNames

theorem identity (h : SameNames n n') (k : NodeId) :
    (n'.node k).id = (n.node k).id ∧ (n'.node k).index = (n.node k).index ∧
      (n'.node k).name = (n.node k).name := by
  have hk : (n'.node k).identity = (n.node k).identity := getD_of_map_eq h.nodes k default
  simpa [Node.identity] using hk

theorem enrolled (h : SameNames n n') (hn : n.Enrolled made) : n'.Enrolled made := by
  have hsize : n'.nodes.size = n.nodes.size := by simpa using congrArg Array.size h.nodes
  refine ⟨?_, h.nextIndex.trans hn.nextIndex, ?_, fun k hk => hsize ▸ hn.exist k hk⟩
  · simp only [h.registry, hn.registry, h.identity]
  · simp only [h.identity, hn.indices]

end SameNames

/-- A call for an identifier, a clearing of the registry, or what has no part in either. -/
inductive NamingCall where
  | newNode (name : String)
  | newIdentifier (label : String)
  | clearRegistry
  | other (x : NetworkM Unit) (same : ∀ n, SameNames n (exec x n).2)

namespace NamingCall

/-- The label of the identifier that a call asks for, if it asks for one. -/
def labels : NamingCall → List String
  | newNode _ => ["node"]
  | newIdentifier label => [label]
  | clearRegistry => []
  | other .. => []

/-- The names of the nodes made since the registry was last cleared, after one more call. -/
def nodeNames (names : List String) : NamingCall → List String
  | newNode name => names ++ [name]
  | clearRegistry => []
  | newIdentifier _ => names
  | other .. => names

end NamingCall

structure Naming where
  network : Network
  given : List String
  made : List NodeId

def Naming.call (s : Naming) : NamingCall → Naming
  | .newNode name =>
    let (result, n) := exec (newNode name) s.network
    let new := result.toOption.toList
    ⟨n, s.given ++ new.map fun k => (n.node k).id, s.made ++ new⟩
  | .newIdentifier label =>
    let (result, n) := exec (newIdentifier label) s.network
    ⟨n, s.given ++ result.toOption.toList, s.made⟩
  | .clearRegistry => ⟨(exec clearRegistry s.network).2, s.given, []⟩
  | .other x _ => ⟨(exec x s.network).2, s.given, s.made⟩

/-- The calls to a network whose registry is cleared first. -/
def afterNaming (n : Network) (calls : List NamingCall) : Naming :=
  calls.foldl Naming.call ⟨(exec clearRegistry n).2, [], []⟩

variable {calls : List NamingCall} {s : Naming} {c : NamingCall} {start : Nat}

theorem afterNaming_append_singleton :
    afterNaming n (calls ++ [c]) = (afterNaming n calls).call c := List.foldl_concat _ _ _ _

theorem Naming.call_newNode (s : Naming) (name : String) :
    s.call (.newNode name) =
      ⟨(exec (newNode name) s.network).2, s.given ++ [(s.network.nextNode name).id],
        s.made ++ [s.network.nodes.size]⟩ := by
  have hid := congrArg Node.id ((node_newNode s.network name _).trans (if_pos rfl))
  rw [← hid]
  rfl

theorem Naming.call_newIdentifier (s : Naming) (label : String) :
    s.call (.newIdentifier label) =
      ⟨{ s.network with counter := s.network.counter + 1 },
        s.given ++ [Identifier.make label (s.network.counter + 1)], s.made⟩ := rfl

/-- What holds after calls that asked for identifiers with these labels and made nodes with these
names, if the counter was at `start` before them. -/
structure Naming.Kept (start : Nat) (labels names : List String) (s : Naming) : Prop where
  counter : s.network.counter = start + labels.length
  given : s.given = Identifier.series start labels
  enrolled : s.network.Enrolled s.made
  ids : (s.made.map fun k => (s.network.node k).id).Sublist s.given
  names : (s.made.map fun k => (s.network.node k).name) = names

namespace Naming.Kept

variable {labels names : List String}

theorem given_next (h : s.Kept start labels names) (label : String) :
    s.given ++ [Identifier.make label (s.network.counter + 1)] =
      Identifier.series start (labels ++ [label]) := by
  rw [h.given, h.counter, Identifier.series_append_singleton]

theorem not_mem_given (h : s.Kept start labels names) (label : String) :
    Identifier.make label (s.network.counter + 1) ∉ s.given := by
  rw [h.given, h.counter]
  exact Identifier.make_not_mem_series start labels label

theorem newNode (h : s.Kept start labels names) (name : String) :
    (s.call (.newNode name)).Kept start (labels ++ ["node"]) (names ++ [name]) := by
  have hid := fun hmem => h.not_mem_given "node" (h.ids.subset hmem)
  rw [call_newNode]
  constructor
  · simp [exec_newNode, h.counter, Nat.add_assoc]
  · exact h.given_next "node"
  · exact h.enrolled.newNode name hid
  · rw [map_node_newNode (fun _ x => x.id) h.enrolled.exist]
    exact h.ids.append (List.Sublist.refl _)
  · rw [map_node_newNode (fun _ x => x.name) h.enrolled.exist, h.names]
    rfl

theorem newIdentifier (h : s.Kept start labels names) (label : String) :
    (s.call (.newIdentifier label)).Kept start (labels ++ [label]) names := by
  rw [call_newIdentifier]
  constructor
  · simp [h.counter, Nat.add_assoc]
  · exact h.given_next label
  · exact ⟨h.enrolled.registry, h.enrolled.nextIndex, h.enrolled.indices, h.enrolled.exist⟩
  · exact h.ids.trans (List.sublist_append_left ..)
  · exact h.names

theorem clearRegistry (h : s.Kept start labels names) :
    (s.call .clearRegistry).Kept start labels [] :=
  ⟨h.counter, h.given, .of_cleared s.network, List.nil_sublist _, rfl⟩

theorem other (h : s.Kept start labels names) (x : NetworkM Unit)
    (same : ∀ n, SameNames n (exec x n).2) : (s.call (.other x same)).Kept start labels names := by
  have hsame := same s.network
  constructor
  · exact hsame.counter.trans h.counter
  · exact h.given
  · exact hsame.enrolled h.enrolled
  · simpa only [call, hsame.identity] using h.ids
  · simpa only [call, hsame.identity] using h.names

end Naming.Kept

theorem kept_afterNaming (n : Network) (calls : List NamingCall) :
    (afterNaming n calls).Kept n.counter (calls.flatMap NamingCall.labels)
      (calls.foldl NamingCall.nodeNames []) := by
  induction calls using List.reverseRecOn with
  | nil => exact ⟨rfl, rfl, .of_cleared n, List.nil_sublist _, rfl⟩
  | append_singleton calls c ih =>
    rw [afterNaming_append_singleton, List.flatMap_append, List.flatMap_singleton,
      List.foldl_concat]
    cases c with
    | newNode name => exact ih.newNode name
    | newIdentifier label => exact ih.newIdentifier label
    | clearRegistry =>
      rw [NamingCall.labels, List.append_nil]
      exact ih.clearRegistry
    | other x same =>
      rw [NamingCall.labels, List.append_nil]
      exact ih.other x same

/-- What identifiers and the registry are relied on for, after calls that found the counter at
`start`. -/
structure Naming.Registered (start : Nat) (calls : List NamingCall) (s : Naming) : Prop where
  /-- Each call for an identifier is given its label with the next number. -/
  given : s.given = Identifier.series start (calls.flatMap NamingCall.labels)
  distinct : s.given.Nodup
  /-- The nodes that were made since the registry was last cleared, in the order in which they were.
  -/
  nodes : s.network.registeredNodes = s.made
  names : (s.made.map fun k => (s.network.node k).name) = calls.foldl NamingCall.nodeNames []
  once : s.made.Nodup
  /-- They are found by their identifiers, and nothing else is found. -/
  found : ∀ id k, s.network.registered? id = some k ↔ k ∈ s.made ∧ (s.network.node k).id = id

/-- As long as the counter is not reset no identifier is given twice, whatever the labels, and the
registry has each node that was made since it was last cleared, once and in its turn. -/
theorem afterNaming_registered (n : Network) (calls : List NamingCall) :
    (afterNaming n calls).Registered n.counter calls := by
  have hkept := kept_afterNaming n calls
  have hdistinct : (afterNaming n calls).given.Nodup := by
    rw [hkept.given]
    exact Identifier.nodup_series ..
  have hids := hdistinct.sublist hkept.ids
  exact ⟨hkept.given, hdistinct, hkept.enrolled.registeredNodes_eq, hkept.names,
    hkept.enrolled.nodup, fun id k => hkept.enrolled.registered?_iff hids⟩

end Network

end LinkState
