import LinkState.Proofs.Sources

/-! What a table holds for a destination. Of the routes that match it, lookup takes the one with
the longest prefix, of several the one from the preferred source, then the one with the lowest
metric, then the earliest: the least in one linear order. -/

namespace LinkState

namespace Number

variable {a b : Number}

/-- The numbers in their order, between the infinities. What is no number is put last. -/
def extended : Number → WithBot (WithTop ℚ)
  | finite q => ((q : WithTop ℚ) : WithBot (WithTop ℚ))
  | infinite true => ⊥
  | infinite false | nan => ⊤

theorem lt_iff_extended (ha : a ≠ nan) (hb : b ≠ nan) :
    a.lt b = true ↔ a.extended < b.extended := by
  cases a with
  | nan => exact absurd rfl ha
  | infinite s =>
    cases b with
    | nan => exact absurd rfl hb
    | infinite t => cases s <;> cases t <;> simp [lt, extended]
    | finite q => cases s <;> simp [lt, extended]
  | finite p =>
    cases b with
    | nan => exact absurd rfl hb
    | infinite t => cases t <;> simp [lt, extended, ← WithBot.coe_top]
    | finite q => simp [lt, extended]

end Number

namespace TableEntry

def Matches (e : TableEntry) (x : Address) : Prop :=
  x.toNat &&& e.mask.toNat = e.network.toNat &&& e.mask.toNat

/-- The lower comes first. -/
def merit (e : TableEntry) : ℕᵒᵈ ×ₗ ℕ ×ₗ WithBot (WithTop ℚ) :=
  toLex (.toDual e.mask.length, toLex (e.source.preference, e.metric.extended))

/-- Routes of one merit come as they stand in the table. -/
def standing (e : TableEntry) (i : ℕ) : (ℕᵒᵈ ×ₗ ℕ ×ₗ WithBot (WithTop ℚ)) ×ₗ ℕ :=
  toLex (e.merit, i)

variable {e f : TableEntry} {x : Address} {i j : ℕ}

theorem covers_iff : e.covers x = true ↔ e.Matches x := decide_eq_true_iff

theorem preferred_iff (he : e.metric ≠ .nan) (hf : f.metric ≠ .nan) :
    e.preferred f = true ↔ e.merit < f.merit := by
  simp only [preferred, merit, Bool.or_eq_true, Bool.and_eq_true, decide_eq_true_eq,
    Prod.Lex.toLex_lt_toLex, OrderDual.toDual_lt_toDual, OrderDual.toDual_inj,
    Number.lt_iff_extended he hf]

theorem standing_le_of_lt (h : e.merit < f.merit) : e.standing i ≤ f.standing j :=
  Prod.Lex.toLex_le_toLex.2 (.inl h)

theorem standing_le_of_le (h : e.merit ≤ f.merit) (hij : i ≤ j) : e.standing i ≤ f.standing j :=
  Prod.Lex.toLex_le_toLex.2 (h.lt_or_eq.imp_right fun heq => ⟨heq, hij⟩)

theorem merit_le_of_standing (h : e.standing i ≤ f.standing j) : e.merit ≤ f.merit :=
  (Prod.Lex.toLex_le_toLex.1 h).elim le_of_lt fun heq => le_of_eq heq.1

end TableEntry

namespace Routes

variable {rs : Routes} {e f b : TableEntry} {x : Address} {j : ℕ}

/-- The route `b` is in the table and matches, and no route that matches comes before it. -/
def Best (rs : Routes) (x : Address) (b : TableEntry) : Prop :=
  ∃ i, rs[i]? = some b ∧ b.Matches x ∧
    ∀ (j : ℕ) (f : TableEntry), rs[j]? = some f → f.Matches x → b.standing i ≤ f.standing j

theorem lookup_append_of_matches (h : e.Matches x) :
    (rs ++ [e]).lookup x = better (rs.lookup x) e := by
  rw [lookup, List.filter_append, List.filter_singleton, TableEntry.covers_iff.2 h, cond_true,
    List.foldl_concat]
  rfl

theorem lookup_append_of_not_matches (h : ¬ e.Matches x) :
    (rs ++ [e]).lookup x = rs.lookup x := by
  have hx : e.covers x = false := Bool.eq_false_iff.2 (mt TableEntry.covers_iff.1 h)
  rw [lookup, List.filter_append, List.filter_singleton, hx, cond_false, List.append_nil]
  rfl

theorem getElem?_append_cases (h : (rs ++ [e])[j]? = some f) :
    rs[j]? = some f ∨ j = rs.length ∧ e = f := by
  rw [List.getElem?_append] at h
  split at h
  · exact .inl h
  · rw [List.getElem?_singleton] at h
    split at h
    · exact .inr ⟨by omega, Option.some.inj h⟩
    · cases h

/-- The best route stays the best if the next one is not better. -/
theorem Best.keep (hb : rs.Best x b) (he : e.Matches x → b.merit ≤ e.merit) :
    (rs ++ [e]).Best x b := by
  obtain ⟨i, hi, hmatches, hleast⟩ := hb
  obtain ⟨hlt, -⟩ := List.getElem?_eq_some_iff.1 hi
  refine ⟨i, (List.getElem?_append_left hlt).trans hi, hmatches, fun j f hj hf => ?_⟩
  rcases getElem?_append_cases hj with hj | ⟨rfl, rfl⟩
  · exact hleast j f hj hf
  · exact TableEntry.standing_le_of_le (he hf) hlt.le

/-- The next route is the best if it is better than all before. -/
theorem best_last (hmatches : e.Matches x) (he : ∀ f ∈ rs, f.Matches x → e.merit < f.merit) :
    (rs ++ [e]).Best x e := by
  refine ⟨rs.length, List.getElem?_concat_length, hmatches, fun j f hj hf => ?_⟩
  rcases getElem?_append_cases hj with hj | ⟨rfl, rfl⟩
  · exact TableEntry.standing_le_of_lt (he f (List.mem_of_getElem? hj) hf)
  · exact le_refl _

theorem Best.merit_le (hb : rs.Best x b) (hf : f ∈ rs) (h : f.Matches x) : b.merit ≤ f.merit := by
  obtain ⟨i, -, -, hleast⟩ := hb
  obtain ⟨j, hj⟩ := List.mem_iff_getElem?.1 hf
  exact TableEntry.merit_le_of_standing (hleast j f hj h)

theorem Best.mem (hb : rs.Best x b) : b ∈ rs :=
  let ⟨_, hi, _⟩ := hb
  List.mem_of_getElem? hi

/-- What the walk through the table has found when it has come to the end. -/
theorem lookup_cases (hrs : ∀ e ∈ rs, e.metric ≠ .nan) :
    rs.lookup x = none ∧ (∀ e ∈ rs, ¬ e.Matches x) ∨ ∃ b, rs.lookup x = some b ∧ rs.Best x b := by
  induction rs using List.reverseRecOn with
  | nil => exact .inl ⟨rfl, List.forall_mem_nil _⟩
  | append_singleton rs e ih =>
    rw [List.forall_mem_append, List.forall_mem_singleton] at hrs
    by_cases he : e.Matches x
    · rw [lookup_append_of_matches he]
      refine .inr ?_
      rcases ih hrs.1 with ⟨hnone, hall⟩ | ⟨b, hsome, hbest⟩
      · rw [hnone]
        exact ⟨e, rfl, best_last he fun f hf h => absurd h (hall f hf)⟩
      · rw [hsome, better]
        have hiff := TableEntry.preferred_iff hrs.2 (hrs.1 b hbest.mem)
        split
        · next hlt =>
          refine ⟨e, rfl, best_last he fun f hf h => ?_⟩
          exact (hiff.1 hlt).trans_le (hbest.merit_le hf h)
        · next hge => exact ⟨b, rfl, hbest.keep fun _ => not_lt.1 (mt hiff.2 hge)⟩
    · rw [lookup_append_of_not_matches he]
      rcases ih hrs.1 with ⟨hnone, hall⟩ | ⟨b, hsome, hbest⟩
      · refine .inl ⟨hnone, ?_⟩
        rw [List.forall_mem_append, List.forall_mem_singleton]
        exact ⟨hall, he⟩
      · exact .inr ⟨b, hsome, hbest.keep fun h => absurd h he⟩

end Routes

namespace Network

/-- A lookup in a table finds the best of the routes that match, if there are any, and changes
nothing. -/
theorem lookupRoute_best (n : Network) (t : TableId) (x : Address)
    (h : ∀ e ∈ (n.table t).routes, e.metric ≠ .nan) :
    ∃ r, exec (lookupRoute t x) n = (.ok r, n) ∧
      (r = none ↔ ¬ ∃ e ∈ (n.table t).routes, e.Matches x) ∧
      ∀ b, r = some b → (n.table t).routes.Best x b := by
  refine ⟨(n.table t).routes.lookup x, rfl, ?_, fun b hb => ?_⟩
  · rcases Routes.lookup_cases h (x := x) with ⟨hnone, hall⟩ | ⟨b, hsome, hbest⟩
    · exact iff_of_true hnone fun ⟨e, he, hx⟩ => hall e he hx
    · refine iff_of_false (by simp [hsome]) fun hno => hno ⟨b, hbest.mem, ?_⟩
      obtain ⟨i, -, hmatches, -⟩ := hbest
      exact hmatches
  · rcases Routes.lookup_cases h (x := x) with ⟨hnone, -⟩ | ⟨b', hsome, hbest⟩
    · cases hnone.symm.trans hb
    · rwa [Option.some.inj (hb.symm.trans hsome)]

def topOctet : Mask := .ofLength ⟨8, by decide⟩

/-- A computed route whose network is not masked, and static ones with the same prefix. -/
def crowdedTable : Network := (exec (do
  newTable "node-1"
  callTable 0 (.replace .global
    [⟨⟨10, 1, 9, 8⟩, .host, some ⟨10, 9, 0, 1⟩, "eth0", .ofNat 1⟩,
     ⟨⟨10, 1, 2, 3⟩, topOctet, some ⟨10, 9, 0, 1⟩, "eth0", .ofNat 5⟩])
  callTable 0 (.addStatic ⟨10, 0, 0, 0⟩ topOctet ⟨10, 9, 0, 2⟩ "eth0" (.ofNat 9))
  callTable 0 (.addStatic ⟨10, 0, 0, 0⟩ topOctet ⟨10, 9, 0, 3⟩ "eth1" (.ofNat 7))
  callTable 0 (.addStatic ⟨10, 0, 0, 0⟩ topOctet ⟨10, 9, 0, 4⟩ "eth2" (.ofNat 7))) .empty).2

theorem lookupRoute_best_crowdedTable :
    (∀ e ∈ (crowdedTable.table 0).routes, e.metric ≠ .nan) ∧
      ∃ b, exec (lookupRoute 0 ⟨10, 1, 9, 9⟩) crowdedTable = (.ok (some b), crowdedTable) ∧
        b.interface = "eth1" ∧ (crowdedTable.table 0).routes.Best ⟨10, 1, 9, 9⟩ b := by
  have hnan : ∀ e ∈ (crowdedTable.table 0).routes, e.metric ≠ .nan := by decide +kernel
  obtain ⟨r, hr, -, hbest⟩ := lookupRoute_best crowdedTable 0 ⟨10, 1, 9, 9⟩ hnan
  have heth : ((crowdedTable.table 0).routes.lookup ⟨10, 1, 9, 9⟩).map (·.interface) =
      some "eth1" := by decide +kernel
  obtain ⟨b, hb, hi⟩ := Option.map_eq_some_iff.1 heth
  have hrb : r = some b := (Except.ok.inj (congrArg Prod.fst hr)).symm.trans hb
  exact ⟨hnan, b, hrb ▸ hr, hi, hbest b hrb⟩

end Network

end LinkState
