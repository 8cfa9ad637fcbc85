import LinkState.Proofs.Addressing

/-! A mask of up to four octets is known by its length. Such an octet list is accepted where its
value is some ones followed by zeros, the length then counts these ones, and the network of an
address under the mask is what its first bits say. -/

namespace LinkState

namespace Mask

variable {octets : List Rat} {m m' : Mask} {k : Fin 33} {ns : List Number} {s : String}

/-! ### What is accepted -/

theorem octetOfNumber?_eq_some_iff {n : Number} {q : Rat} :
    octetOfNumber? n = some q ↔ n = .finite q ∧ 0 ≤ q ∧ q ≤ 255 := by
  cases n with
  | nan => simp [octetOfNumber?]
  | infinite s => simp [octetOfNumber?]
  | finite p =>
    rw [octetOfNumber?]
    split
    · next h =>
      rw [Option.some.injEq, Number.finite.injEq]
      exact ⟨fun hpq => ⟨hpq, hpq ▸ h⟩, And.left⟩
    · next h =>
      refine iff_of_false (by simp) ?_
      rintro ⟨hpq, hq⟩
      rw [Number.finite.inj hpq] at h
      exact h hq

theorem mapM_octetOfNumber?_eq_some_iff :
    ns.mapM octetOfNumber? = some octets ↔ ns = octets.map .finite ∧ InRange octets := by
  induction ns generalizing octets with
  | nil => cases octets <;> simp [InRange]
  | cons n ns ih =>
    simp only [List.mapM_cons, Option.bind_eq_bind, Option.bind_eq_some_iff, ih,
      octetOfNumber?_eq_some_iff, Option.pure_def, Option.some.injEq]
    constructor
    · rintro ⟨q, ⟨rfl, hq⟩, qs, ⟨rfl, hqs⟩, rfl⟩
      exact ⟨rfl, List.forall_mem_cons.2 ⟨hq, hqs⟩⟩
    · rintro ⟨hmap, hrange⟩
      cases octets with
      | nil => cases hmap
      | cons q qs =>
        rw [List.map_cons, List.cons.injEq] at hmap
        rw [InRange, List.forall_mem_cons] at hrange
        exact ⟨q, ⟨hmap.1, hrange.1⟩, qs, ⟨hmap.2, hrange.2⟩, rfl⟩

theorem ofOctets?_eq_some_iff : ofOctets? octets = some m ↔ m.octets = octets := by
  rw [ofOctets?]
  split
  · rw [Option.some.injEq, mk.injEq, eq_comm]
  · next h =>
    refine iff_of_false (by simp) ?_
    rintro rfl
    exact h ⟨m.inRange, m.contiguous⟩

theorem finite_injective : Function.Injective Number.finite := fun _ _ => Number.finite.inj

/-- A mask is made from its own octets, and from no others. -/
theorem ofNumbers_eq_ok_iff : ofNumbers ns = .ok m ↔ ns = m.octets.map .finite := by
  have hread : ofNumbers ns = .ok m ↔
      ∃ octets, ns.mapM octetOfNumber? = some octets ∧ ofOctets? octets = some m := by
    rw [ofNumbers]
    cases hns : ns.mapM octetOfNumber? with
    | none => simp
    | some octets => cases ho : ofOctets? octets <;> simp [ho]
  rw [hread]
  constructor
  · rintro ⟨octets, hns, ho⟩
    rw [(mapM_octetOfNumber?_eq_some_iff.1 hns).1, ofOctets?_eq_some_iff.1 ho]
  · intro hns
    exact ⟨m.octets, mapM_octetOfNumber?_eq_some_iff.2 ⟨hns, m.inRange⟩,
      ofOctets?_eq_some_iff.2 rfl⟩

theorem octets_of_ofNumbers (h : ofNumbers (octets.map .finite) = .ok m) : octets = m.octets :=
  finite_injective.list_map (ofNumbers_eq_ok_iff.1 h)

/-- The masks made from at most four octets, or from a text. -/
inductive Made : Mask → Prop
  | octets {ns : List Number} {m : Mask} (hns : ns.length ≤ 4) (hm : ofNumbers ns = .ok m) : Made m
  | text {s : String} {m : Mask} (hm : parse s = .ok m) : Made m

theorem Made.length_le (h : m.Made) : m.octets.length ≤ 4 := by
  cases h with
  | octets hns hm =>
    rwa [ofNumbers_eq_ok_iff.1 hm, List.length_map] at hns
  | text hm =>
    rw [parse] at hm
    split at hm
    · next hfields =>
      have hoctets := congrArg List.length (ofNumbers_eq_ok_iff.1 hm)
      rw [List.length_map, List.length_map] at hoctets
      omega
    · cases hm

/-! ### Values and lengths -/

/-- The whole parts of the first four octets, 0 for those that are missing. -/
def wholeParts (octets : List Rat) : Address :=
  ⟨.ofNat (wholeOctet octets 0), .ofNat (wholeOctet octets 1), .ofNat (wholeOctet octets 2),
    .ofNat (wholeOctet octets 3)⟩

theorem wholeOctet_lt (h : InRange octets) (i : Nat) : wholeOctet octets i < 256 := by
  have hi : octets.getD i 0 ≤ 255 := by
    rw [List.getD_eq_getElem?_getD]
    cases hq : octets[i]? with
    | none => simp
    | some q => exact (h q (List.mem_of_getElem? hq)).2
  have hfloor : (octets.getD i 0).floor ≤ 255 := by
    exact_mod_cast (Rat.floor_le (octets.getD i 0)).trans hi
  rw [wholeOctet]
  omega

theorem toNat_wholeParts (h : InRange octets) : (wholeParts octets).toNat = valueOf octets := by
  have mod (i : Nat) : wholeOctet octets i % 256 = wholeOctet octets i :=
    Nat.mod_eq_of_lt (wholeOctet_lt h i)
  simp [wholeParts, Address.toNat, valueOf, UInt8.toNat_ofNat', mod]

/-- The ones at the top of every octet, those of a missing octet included. -/
theorem length_eq_sum (hm : m.octets.length ≤ 4) :
    m.length = ((wholeParts m.octets).octets.map fun o => leadingOnes o.toNat).sum := by
  have octet (i : Nat) : (UInt8.ofNat (wholeOctet m.octets i)).toNat = wholeOctet m.octets i := by
    rw [UInt8.toNat_ofNat', Nat.mod_eq_of_lt (wholeOctet_lt m.inRange i)]
  have hzero : leadingOnes (Rat.floor 0).toNat = 0 := by decide
  simp only [wholeParts, Address.octets, List.map_cons, List.map_nil, octet, length]
  generalize m.octets = octets at hm
  rcases octets with _ | ⟨a, _ | ⟨b, _ | ⟨c, _ | ⟨d, _ | ⟨e, rest⟩⟩⟩⟩⟩
  · simp [wholeOctet, hzero]
  · simp [wholeOctet, hzero]
  · simp [wholeOctet, hzero]
  · simp [wholeOctet, hzero, Nat.add_assoc]
  · simp [wholeOctet, Nat.add_assoc]
  · simp only [List.length_cons] at hm
    omega

theorem length_eq_of_toNat_eq (hm : m.octets.length ≤ 4) (hm' : m'.octets.length ≤ 4)
    (h : m.toNat = m'.toNat) : m.length = m'.length := by
  have hparts : wholeParts m.octets = wholeParts m'.octets := by
    rw [← Address.toNat_inj, toNat_wholeParts m.inRange, toNat_wholeParts m'.inRange]
    exact h
  rw [length_eq_sum hm, length_eq_sum hm', hparts]

theorem valueOf_lt (h : InRange octets) : valueOf octets < 2 ^ 32 :=
  toNat_wholeParts h ▸ (wholeParts octets).toNat_lt

/-- As many ones as a prefix length says, then zeros. -/
theorem contiguous_iff {v : Nat} (hv : v < 2 ^ 32) :
    Contiguous v ↔ ∃ k : Fin 33, v = 2 ^ 32 - 2 ^ (32 - (k : Nat)) := by
  refine ⟨exists_of_contiguous hv, ?_⟩
  rintro ⟨k, rfl⟩
  rw [← toNat_ofLength]
  exact (ofLength k).contiguous

theorem exists_toNat (m : Mask) : ∃ k : Fin 33, m.toNat = 2 ^ 32 - 2 ^ (32 - (k : Nat)) :=
  exists_of_contiguous (valueOf_lt m.inRange) m.contiguous

theorem exists_ofNumbers_iff (h : InRange octets) :
    (∃ m, ofNumbers (octets.map .finite) = .ok m) ↔
      ∃ k : Fin 33, valueOf octets = 2 ^ 32 - 2 ^ (32 - (k : Nat)) := by
  rw [← contiguous_iff (valueOf_lt h)]
  simp only [ofNumbers_eq_ok_iff, finite_injective.list_map.eq_iff]
  constructor
  · rintro ⟨m, rfl⟩
    exact m.contiguous
  · exact fun hc => ⟨⟨octets, h, hc⟩, rfl⟩

theorem length_of_toNat (hm : m.octets.length ≤ 4)
    (h : m.toNat = 2 ^ 32 - 2 ^ (32 - (k : Nat))) : m.length = k := by
  rw [← toNat_ofLength] at h
  rw [length_eq_of_toNat_eq hm (le_refl 4) h, length_ofLength]

theorem ofLengthNumber_ofNat (k : Fin 33) : ofLengthNumber (.ofNat k) = .ok (ofLength k) := by
  revert k; decide

/-! ### Networks -/

def SamePrefix (k : Nat) (x y : Address) : Prop :=
  ∀ i < k, x.toNat.testBit (31 - i) = y.toNat.testBit (31 - i)

theorem testBit_ones (k : Fin 33) (i : Nat) :
    (2 ^ 32 - 2 ^ (32 - (k : Nat))).testBit i =
      (decide (32 - (k : Nat) ≤ i) && decide (i < 32)) := by
  have hshift : 2 ^ 32 - 2 ^ (32 - (k : Nat)) = (2 ^ (k : Nat) - 1) <<< (32 - (k : Nat)) := by
    rw [Nat.shiftLeft_eq, Nat.sub_mul, ← pow_add, one_mul]
    congr 2
    omega
  rw [hshift, Nat.testBit_shiftLeft, Nat.testBit_two_pow_sub_one]
  have := k.isLt
  rw [Bool.eq_iff_iff]
  simp
  omega

theorem sameSubnet_iff_samePrefix {x y : Address} (h : m.toNat = 2 ^ 32 - 2 ^ (32 - (k : Nat))) :
    x.sameSubnet y m = true ↔ SamePrefix k x y := by
  rw [Address.sameSubnet, decide_eq_true_iff, h]
  constructor
  · intro heq i hi
    have hbit := congrArg (Nat.testBit · (31 - i)) heq
    simp only [Nat.testBit_land, testBit_ones] at hbit
    have hmask : (decide (32 - (k : Nat) ≤ 31 - i) && decide (31 - i < 32)) = true := by
      simp
      omega
    rwa [hmask, Bool.and_true, Bool.and_true] at hbit
  · intro hpre
    -- below the ones of the mask both sides have zeros, whatever the addresses say
    refine Nat.eq_of_testBit_eq fun i => ?_
    rw [Nat.testBit_land, Nat.testBit_land, testBit_ones]
    by_cases hi : 32 - (k : Nat) ≤ i ∧ i < 32
    · have := hpre (31 - i) (by omega)
      rw [show 31 - (31 - i) = i by omega] at this
      rw [this]
    · have hmask : (decide (32 - (k : Nat) ≤ i) && decide (i < 32)) = false := by
        simpa using hi
      rw [hmask, Bool.and_false, Bool.and_false]

end Mask

namespace Address

variable {x y : Address} {m : Mask}

theorem toNat_network (x : Address) (m : Mask) : (x.network m).toNat = x.toNat &&& m.toNat :=
  toNat_ofNat (Nat.lt_of_le_of_lt Nat.and_le_left x.toNat_lt)

theorem sameSubnet_iff_network : x.sameSubnet y m = true ↔ x.network m = y.network m := by
  rw [sameSubnet, decide_eq_true_iff, ← toNat_inj, toNat_network, toNat_network]

theorem network_network (x : Address) (m : Mask) : (x.network m).network m = x.network m := by
  rw [← toNat_inj, toNat_network, toNat_network, Nat.and_assoc, Nat.and_self]

end Address

namespace Mask

variable {m m' : Mask} {k : Fin 33}

/-- The mask of `k` ones, which tells addresses apart by their first `k` bits. -/
structure IsPrefix (m : Mask) (k : Fin 33) : Prop where
  value : m.toNat = 2 ^ 32 - 2 ^ (32 - (k : Nat))
  length : m.length = k
  ofLength : ∃ m', ofLengthNumber (.ofNat k) = .ok m' ∧ m'.toNat = m.toNat
  same : ∀ m' : Mask, m'.Made → (m.same m' = true ↔ m.length = m'.length)
  bits : ∀ x y : Address, x.sameSubnet y m = true ↔ SamePrefix k x y
  network : ∀ x y : Address, x.sameSubnet y m = true ↔ x.network m = y.network m
  idempotent : ∀ x : Address, (x.network m).network m = x.network m

theorem same_iff_length (hm : m.Made) (hm' : m'.Made) :
    m.same m' = true ↔ m.length = m'.length := by
  rw [same, decide_eq_true_iff]
  refine ⟨length_eq_of_toNat_eq hm.length_le hm'.length_le, fun h => ?_⟩
  obtain ⟨k, hk⟩ := exists_toNat m
  obtain ⟨k', hk'⟩ := exists_toNat m'
  have hlen := length_of_toNat hm.length_le hk
  have hlen' := length_of_toNat hm'.length_le hk'
  obtain rfl : k = k' := Fin.ext (by rw [← hlen, h, hlen'])
  exact hk.trans hk'.symm

theorem Made.isPrefix (hm : m.Made) (h : m.toNat = 2 ^ 32 - 2 ^ (32 - (k : Nat))) :
    m.IsPrefix k where
  value := h
  length := length_of_toNat hm.length_le h
  ofLength := ⟨_, ofLengthNumber_ofNat k, (toNat_ofLength k).trans h.symm⟩
  same _ hm' := same_iff_length hm hm'
  bits _ _ := sameSubnet_iff_samePrefix h
  network _ _ := Address.sameSubnet_iff_network
  idempotent x := Address.network_network x m

/-- Up to four octets are a mask if their value is some ones followed by zeros, and the mask is then
the one of as many ones. A mask that is read from a text is one of these too. -/
theorem made_isPrefix :
    (∀ octets : List Rat, octets.length ≤ 4 → InRange octets →
      ((∃ m, ofNumbers (octets.map .finite) = .ok m) ↔
        ∃ k : Fin 33, valueOf octets = 2 ^ 32 - 2 ^ (32 - (k : Nat))) ∧
      ∀ (m : Mask) (k : Fin 33), ofNumbers (octets.map .finite) = .ok m →
        valueOf octets = 2 ^ 32 - 2 ^ (32 - (k : Nat)) → m.IsPrefix k) ∧
    ∀ (s : String) (m : Mask), parse s = .ok m → ∃ k, m.IsPrefix k := by
  refine ⟨fun octets hlen h => ⟨exists_ofNumbers_iff h, fun m k hm hk => ?_⟩, fun s m hm => ?_⟩
  · have hmade : m.Made := .octets ((List.length_map _).trans_le hlen) hm
    rw [octets_of_ofNumbers hm] at hk
    exact hmade.isPrefix hk
  · obtain ⟨k, hk⟩ := exists_toNat m
    exact ⟨k, (Made.text hm).isPrefix hk⟩

/-- Two octets, of which one has a fraction, are the mask that a text of four octets is. -/
theorem made_isPrefix_short :
    parse "255.254.0.0" = .ok (ofLength 15) ∧ (∃ k, (ofLength 15).IsPrefix k) ∧
      ∃ m, ofNumbers [.finite 255, .finite (509 / 2)] = .ok m ∧ m.IsPrefix 15 ∧
        m.same (ofLength 15) = true := by
  have htext : parse "255.254.0.0" = .ok (ofLength 15) := by decide +kernel
  have hrange : InRange [255, 509 / 2] := by decide +kernel
  have hvalue : valueOf [255, 509 / 2] = 2 ^ 32 - 2 ^ (32 - ((15 : Fin 33) : Nat)) := by
    decide +kernel
  obtain ⟨haccept, hprefix⟩ := made_isPrefix.1 [255, 509 / 2] (by decide) hrange
  obtain ⟨m, hm⟩ := haccept.2 ⟨15, hvalue⟩
  have hm15 := hprefix m 15 hm hvalue
  refine ⟨htext, made_isPrefix.2 _ _ htext, m, hm, hm15, (hm15.same _ (.text htext)).2 ?_⟩
  rw [hm15.length, length_ofLength]

end Mask

end LinkState
