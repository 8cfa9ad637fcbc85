import LinkState.Mask
import Mathlib

/-! An address is known by its text, and a mask of four whole octets by its length: there are 33 of
them, and what an advertisement carries as a mask is one of these or none. -/

namespace LinkState

theorem bind_eq_ok_iff {α β : Type} {x : Except Fault α} {f : α → Except Fault β} {b : β} :
    x >>= f = .ok b ↔ ∃ a, x = .ok a ∧ f a = .ok b := by
  cases x with
  | error e => exact ⟨nofun, nofun⟩
  | ok a =>
    refine ⟨fun h => ⟨a, rfl, h⟩, ?_⟩
    rintro ⟨a', ha, h⟩
    exact Except.ok.inj ha ▸ h

theorem bind_eq_error_iff {α β : Type} {x : Except Fault α} {f : α → Except Fault β} {e : Fault} :
    x >>= f = .error e ↔ x = .error e ∨ ∃ a, x = .ok a ∧ f a = .error e := by
  cases x with
  | error e' =>
    refine ⟨fun h => .inl (congrArg _ (Except.error.inj h)), ?_⟩
    rintro (h | ⟨a, ha, -⟩)
    · exact congrArg _ (Except.error.inj h)
    · cases ha
  | ok a =>
    refine ⟨fun h => .inr ⟨a, rfl, h⟩, ?_⟩
    rintro (h | ⟨a', ha, h⟩)
    · cases h
    · exact Except.ok.inj ha ▸ h

theorem pairwise_mergeSort_key {α : Type} (f : α → Nat) (xs : List α) :
    (xs.mergeSort fun x y => f x ≤ f y).Pairwise fun x y => f x ≤ f y := by
  refine (List.pairwise_mergeSort (fun x y z hxy hyz => ?_) (fun x y => ?_) xs).imp
    of_decide_eq_true
  · exact decide_eq_true ((of_decide_eq_true hxy).trans (of_decide_eq_true hyz))
  · simpa using Nat.le_total _ _

theorem Address.pairwise_sort (xs : List Address) :
    (Address.sort xs).Pairwise fun x y => x.toNat ≤ y.toNat :=
  pairwise_mergeSort_key Address.toNat xs

namespace Dotted

/-- Fields without points are found again. -/
theorem split_join {fields : List String} (hne : fields ≠ [])
    (h : ∀ f ∈ fields, '.' ∉ f.toList) : split (join fields) = fields := by
  rw [split, join, String.toList_intercalate]
  induction fields with
  | nil => exact absurd rfl hne
  | cons f fields ih =>
    rw [List.forall_mem_cons] at h
    cases fields with
    | nil => simp [splitChars_of_not_mem h.1]
    | cons g fields =>
      have tail := ih (List.cons_ne_nil _ _) h.2
      simpa [splitChars_append_point h.1] using tail

end Dotted

theorem digits_injective {m n : Nat} (h : toString m = toString n) : m = n := by
  have hl := congrArg String.toList h
  simp only [Nat.toString_eq_ofList_toDigits, String.toList_ofList] at hl
  rw [← Nat.ofDigitChars_ten_toDigits (n := m), hl, Nat.ofDigitChars_ten_toDigits]

theorem point_not_mem_digits (n : Nat) : '.' ∉ (toString n).toList := by
  intro h
  rw [Nat.toString_eq_ofList_toDigits, String.toList_ofList] at h
  have := Nat.isDigit_of_mem_toDigits (by decide) (by decide) h
  revert this
  decide

namespace Address

theorem split_text (x : Address) :
    Dotted.split x.text = x.octets.map fun o => toString o.toNat := by
  refine Dotted.split_join (by simp [octets]) fun f hf => ?_
  obtain ⟨o, _, rfl⟩ := List.mem_map.1 hf
  exact point_not_mem_digits _

theorem text_injective {x y : Address} (h : x.text = y.text) : x = y := by
  have hs := congrArg Dotted.split h
  rw [split_text, split_text] at hs
  simp only [octets, List.map_cons, List.map_nil, List.cons.injEq, and_true] at hs
  obtain ⟨ha, hb, hc, hd⟩ := hs
  cases x
  cases y
  simp only [mk.injEq, ← UInt8.toNat_inj]
  exact ⟨digits_injective ha, digits_injective hb, digits_injective hc, digits_injective hd⟩

end Address

namespace Mask

def octetsOf (x : Address) : List Rat := x.octets.map fun o => (o.toNat : Rat)

theorem octetsOf_injective {x y : Address} (h : octetsOf x = octetsOf y) : x = y := by
  cases x
  cases y
  simpa [octetsOf, Address.octets, UInt8.toNat_inj] using h

theorem inRange_octetsOf (x : Address) : InRange (octetsOf x) := by
  intro o ho
  obtain ⟨b, _, rfl⟩ := List.mem_map.1 ho
  have hb := b.toNat_lt
  constructor
  · exact_mod_cast Nat.zero_le _
  · exact_mod_cast (by omega : b.toNat ≤ 255)

theorem valueOf_octetsOf (x : Address) : valueOf (octetsOf x) = x.toNat := by
  have whole (o : UInt8) : (o.toNat : Rat).floor.toNat = o.toNat := by
    rw [← Int.cast_natCast, Rat.floor_intCast, Int.toNat_natCast]
  simp [valueOf, wholeOctet, octetsOf, Address.octets, Address.toNat, whole]

theorem octet?_toNat (o : UInt8) : Address.octet? o.toNat = some o := by
  have ho := o.toNat_lt
  simp [Address.octet?]
  omega

theorem exists_octet {q : Rat} (hden : q.den = 1) (h : 0 ≤ q ∧ q ≤ 255) :
    ∃ o : UInt8, q = (o.toNat : Rat) := by
  obtain ⟨k, rfl⟩ : ∃ k : Int, q = k := ⟨q.num, (Rat.den_eq_one_iff q).1 hden |>.symm⟩
  have h0 : 0 ≤ k := by exact_mod_cast h.1
  have h1 : k ≤ 255 := by exact_mod_cast h.2
  refine ⟨UInt8.ofNat k.toNat, ?_⟩
  rw [UInt8.toNat_ofNat', Nat.mod_eq_of_lt (by omega)]
  exact_mod_cast (Int.toNat_of_nonneg h0).symm

/-- Four whole octets. -/
def Whole (m : Mask) : Prop := m.octets.length = 4 ∧ ∀ o ∈ m.octets, o.den = 1

instance (m : Mask) : Decidable m.Whole := inferInstanceAs (Decidable (_ ∧ _))

theorem Whole.exists_octetsOf {m : Mask} (h : m.Whole) : ∃ x, m.octets = octetsOf x := by
  obtain ⟨hlen, hden⟩ := h
  have octet {q : Rat} (hq : q ∈ m.octets) : ∃ o : UInt8, q = (o.toNat : Rat) :=
    exists_octet (hden q hq) (m.inRange q hq)
  match hm : m.octets, hlen with
  | [a, b, c, d], _ =>
    rw [hm] at octet
    obtain ⟨a, rfl⟩ := octet (q := a) (by simp)
    obtain ⟨b, rfl⟩ := octet (q := b) (by simp)
    obtain ⟨c, rfl⟩ := octet (q := c) (by simp)
    obtain ⟨d, rfl⟩ := octet (q := d) (by simp)
    exact ⟨⟨a, b, c, d⟩, rfl⟩

theorem whole_ofLength (k : Fin 33) : (ofLength k).Whole := by
  revert k; decide

theorem length_ofLength (k : Fin 33) : (ofLength k).length = k := by
  revert k; decide

theorem toNat_ofLength (k : Fin 33) : (ofLength k).toNat = 2 ^ 32 - 2 ^ (32 - (k : Nat)) := by
  revert k; decide

/-- The zeros at the end of a contiguous value. -/
theorem exists_of_contiguous {v : Nat} (hv : v < 2 ^ 32) (h : Contiguous v) :
    ∃ k : Fin 33, v = 2 ^ 32 - 2 ^ (32 - (k : Nat)) := by
  have hpow : (2 ^ 32 - v).isPowerOfTwo := by
    rw [← Nat.and_sub_one_eq_zero_iff_isPowerOfTwo (by omega), Nat.and_comm]
    rw [Contiguous] at h
    rwa [show 2 ^ 32 - v - 1 = 2 ^ 32 - 1 - v by omega]
  obtain ⟨j, hj⟩ := hpow
  have hle : j ≤ 32 := by
    rw [← Nat.pow_le_pow_iff_right (by decide : 1 < 2), ← hj]
    omega
  refine ⟨⟨32 - j, by omega⟩, ?_⟩
  show v = 2 ^ 32 - 2 ^ (32 - (32 - j))
  rw [Nat.sub_sub_self hle, ← hj]
  omega

theorem Whole.exists_ofLength {m : Mask} (h : m.Whole) : ∃ k, m = ofLength k := by
  obtain ⟨x, hx⟩ := h.exists_octetsOf
  have hval : valueOf m.octets = x.toNat := by rw [hx, valueOf_octetsOf]
  obtain ⟨k, hk⟩ := exists_of_contiguous (hval ▸ x.toNat_lt) m.contiguous
  obtain ⟨y, hy⟩ := (whole_ofLength k).exists_octetsOf
  have hxy : x = y := by
    rw [← Address.toNat_inj, ← hval, hk, ← toNat_ofLength, toNat, hy, valueOf_octetsOf]
  refine ⟨k, ?_⟩
  rw [mk.injEq, hx, hxy, hy]

theorem Whole.eq_of_length_eq {m m' : Mask} (h : m.Whole) (h' : m'.Whole)
    (hlen : m.length = m'.length) : m = m' := by
  obtain ⟨k, rfl⟩ := h.exists_ofLength
  obtain ⟨k', rfl⟩ := h'.exists_ofLength
  rw [length_ofLength, length_ofLength] at hlen
  rw [Fin.ext hlen]

/-! ### Masks as addresses -/

theorem ofNat_octet (o : UInt8) : Number.ofNat o.toNat = .finite o.toNat := by
  have ho := o.toNat_lt
  exact Number.ofNat_eq (by omega)

theorem ofAddress_eq_ok_iff {x : Address} {m : Mask} :
    ofAddress x = .ok m ↔ m.octets = octetsOf x := by
  have octet (o : UInt8) : octetOfNumber? (Number.ofNat o.toNat) = some (o.toNat : Rat) := by
    rw [ofNat_octet, octetOfNumber?, if_pos (inRange_octetsOf ⟨o, o, o, o⟩ _ (by simp [octetsOf,
      Address.octets]))]
  have octets : (x.octets.map fun o => Number.ofNat o.toNat).mapM octetOfNumber? =
      some (octetsOf x) := by
    simp [Address.octets, octetsOf, octet]
  rw [ofAddress, ofNumbers, octets]
  dsimp only
  rw [ofOctets?]
  by_cases hc : InRange (octetsOf x) ∧ Contiguous (valueOf (octetsOf x))
  · rw [dif_pos hc, Except.ok.injEq, mk.injEq, eq_comm]
  · rw [dif_neg hc]
    refine iff_of_false nofun fun h => hc ?_
    rw [← h]
    exact ⟨m.inRange, m.contiguous⟩

theorem whole_of_octetsOf {x : Address} {m : Mask} (h : m.octets = octetsOf x) : m.Whole := by
  rw [Whole, h]
  refine ⟨rfl, fun o ho => ?_⟩
  obtain ⟨b, _, rfl⟩ := List.mem_map.1 ho
  exact Rat.den_natCast _

theorem Whole.exists_toAddress {m : Mask} (h : m.Whole) : ∃ x, m.toAddress = .ok x := by
  obtain ⟨x, hx⟩ := h.exists_octetsOf
  have octet (o : UInt8) : Address.octetOfNumber (.finite o.toNat) = .ok o := by
    simp [Address.octetOfNumber, Number.toNat?, octet?_toNat]
  refine ⟨x, ?_⟩
  rw [toAddress, hx]
  simp [octetsOf, Address.octets, Address.ofNumbers, octet]
  rfl

theorem bind_ne_error {α β : Type} {x : Except Fault α} {f : α → Except Fault β} {e : Fault}
    (hx : x ≠ .error e) (hf : ∀ a, f a ≠ .error e) : x >>= f ≠ .error e := by
  intro h
  rcases bind_eq_error_iff.1 h with h | ⟨a, -, h⟩
  · exact hx h
  · exact hf a h

/-- A fault of a mask is not one of a channel. -/
theorem toAddress_ne_malformed (m : Mask) (c : MalformedChannel) :
    m.toAddress ≠ .error (.malformedChannel c) := by
  have octet (x : Number) : Address.octetOfNumber x ≠ .error (.malformedChannel c) := by
    rw [Address.octetOfNumber]
    split <;> nofun
  rw [toAddress]
  match m.octets.map Number.finite with
  | [x, y, z, w] =>
    exact bind_ne_error (octet x) fun _ => bind_ne_error (octet y) fun _ =>
      bind_ne_error (octet z) fun _ => bind_ne_error (octet w) fun _ => nofun
  | [] | [_] | [_, _] | [_, _, _] | _ :: _ :: _ :: _ :: _ :: _ => nofun

theorem text_of_octetsOf {x : Address} {m : Mask} (h : m.octets = octetsOf x) :
    m.text = x.text := by
  have octet (o : UInt8) : (Number.finite o.toNat).text = toString o.toNat := by
    have ho := o.toNat_lt
    rw [Number.text, if_pos (Number.isSmallInteger_natCast (by omega)), Rat.num_natCast]
    rfl
  rw [text, h, octetsOf, List.map_map, Address.text]
  exact congrArg _ (List.map_congr_left fun o _ => octet o)

/-- Masks that addresses stand for are known by their texts. -/
theorem text_eq_iff {x y : Address} {m : Mask} (hx : ofAddress x = .ok m) :
    m.text = y.text ↔ ∃ m', ofAddress y = .ok m' ∧ m'.length = m.length := by
  have hm := ofAddress_eq_ok_iff.1 hx
  rw [text_of_octetsOf hm]
  constructor
  · intro h
    obtain rfl := Address.text_injective h
    exact ⟨m, hx, rfl⟩
  · rintro ⟨m', hy, hlen⟩
    have hm' := ofAddress_eq_ok_iff.1 hy
    obtain rfl := (whole_of_octetsOf hm').eq_of_length_eq (whole_of_octetsOf hm) hlen
    rw [octetsOf_injective (hm.symm.trans hm')]

end Mask

end LinkState
