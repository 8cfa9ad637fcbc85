import LinkState.Proofs.Addressing

/-! An address goes by its octets, by its 32-bit value and by its text. From the value and from the
text it is found again, every 32-bit value is that of an address, and the values are ordered as the
octets are, the first difference deciding. So the three forms tell the same addresses apart. -/

namespace LinkState

namespace Dotted

/-- The digits of a number are read as the number. -/
theorem leadingNatural?_toDigits (n : Nat) : leadingNatural? (Nat.toDigits 10 n) = some n := by
  have hall : (Nat.toDigits 10 n).takeWhile Char.isDigit = Nat.toDigits 10 n :=
    List.takeWhile_eq_self_iff.2 fun c hc =>
      Nat.isDigit_of_mem_toDigits (by decide) (by decide) hc
  have hvalue : digitsValue (Nat.toDigits 10 n) = n := Nat.ofDigitChars_ten_toDigits
  rw [leadingNatural?, hall, hvalue, if_neg]
  simp

theorem not_isBlank_of_isDigit {c : Char} (h : c.isDigit = true) : ¬ isBlank c = true := by
  intro hb
  simp only [isBlank, Bool.or_eq_true, Bool.and_eq_true, decide_eq_true_eq] at hb
  rcases hb with hb | ⟨hb, -⟩
  · fin_cases hb <;> exact absurd h (by decide)
  · simp only [Char.isDigit, Bool.and_eq_true, decide_eq_true_eq, UInt32.le_iff_toNat_le,
      Char.le_def] at h hb
    have h9 : c.val.toNat ≤ 57 := h.2
    have h2000 : 0x2000 ≤ c.val.toNat := hb
    omega

/-- A number that has no sign stands at the start of its digits. -/
theorem leadingInteger?_digits (n : Nat) : leadingInteger? (toString n) = some (n : Int) := by
  have hdigit : ∀ c ∈ Nat.toDigits 10 n, c.isDigit = true := fun c hc =>
    Nat.isDigit_of_mem_toDigits (by decide) (by decide) hc
  have hblank : (Nat.toDigits 10 n).dropWhile isBlank = Nat.toDigits 10 n :=
    List.dropWhile_eq_self_iff.2 fun hl => not_isBlank_of_isDigit (hdigit _ (List.getElem_mem hl))
  rw [leadingInteger?, Nat.toString_eq_ofList_toDigits, String.toList_ofList, hblank]
  split
  · next heq => exact absurd (hdigit '-' (heq ▸ List.mem_cons_self ..)) (by decide)
  · next heq => exact absurd (hdigit '+' (heq ▸ List.mem_cons_self ..)) (by decide)
  · rw [leadingNatural?_toDigits]
    rfl

end Dotted

namespace Address

variable {x y : Address} {n : Nat}

theorem octetOfField_digits (o : UInt8) : octetOfField (toString o.toNat) = .ok o := by
  rw [octetOfField, Dotted.leadingInteger?_digits, Option.bind_some, Mask.octet?_toNat]

theorem parse_text (x : Address) : parse x.text = .ok x := by
  rw [parse, split_text]
  simp only [octets, List.map_cons, List.map_nil, octetOfField_digits]
  rfl

theorem toWord_ofNat (h : n < 2 ^ 32) : (Number.ofNat n).toWord = n := by
  rw [Number.ofNat_eq (by omega), Number.toWord, Rat.num_natCast, Rat.den_natCast]
  simp
  omega

theorem toNat_ofNumber (h : n < 2 ^ 32) : (ofNumber (.ofNat n)).toNat = n := by
  rw [ofNumber, toWord_ofNat h, toNat_ofNat h]

theorem ofNumber_toNat (x : Address) : ofNumber (.ofNat x.toNat) = x := by
  rw [ofNumber, toWord_ofNat x.toNat_lt, ofNat_toNat]

/-- The first octet that differs decides which value is the lower. -/
theorem toNat_lt_iff : x.toNat < y.toNat ↔ x.octets < y.octets := by
  obtain ⟨a, b, c, d⟩ := x
  obtain ⟨a', b', c', d'⟩ := y
  have hb := b.toNat_lt
  have hc := c.toNat_lt
  have hd := d.toNat_lt
  have hb' := b'.toNat_lt
  have hc' := c'.toNat_lt
  have hd' := d'.toNat_lt
  simp only [octets, toNat, List.cons_lt_cons_iff, UInt8.lt_iff_toNat_lt, ← UInt8.toNat_inj]
  simp
  omega

theorem octets_inj : x.octets = y.octets ↔ x = y := by
  cases x
  cases y
  simp [octets]

structure Aligned (x y : Address) : Prop where
  before : x.difference y < 0 ↔ x.octets < y.octets
  same : x.difference y = 0 ↔ x.octets = y.octets
  after : 0 < x.difference y ↔ y.octets < x.octets
  eq : x.difference y = 0 ↔ x = y
  text : x.text = y.text ↔ x = y
  order : x.compare y = Ord.compare (x.difference y) 0

theorem aligned (x y : Address) : x.Aligned y := by
  have hzero : x.difference y = 0 ↔ x = y := by
    rw [← toNat_inj, difference]
    omega
  refine ⟨?_, hzero.trans octets_inj.symm, ?_, hzero, ⟨text_injective, congrArg text⟩, ?_⟩
  · rw [← toNat_lt_iff, difference]
    omega
  · rw [← toNat_lt_iff, difference]
    omega
  · rw [compare, difference]
    rcases Nat.lt_trichotomy x.toNat y.toNat with h | h | h
    · rw [Nat.compare_eq_lt.2 h, eq_comm, compare_lt_iff_lt]
      omega
    · rw [Nat.compare_eq_eq.2 h, eq_comm, compare_eq_iff_eq]
      omega
    · rw [Nat.compare_eq_gt.2 h, eq_comm, compare_gt_iff_gt]
      omega

/-- The value and the text of an address are read as the address, the value of every 32-bit number
is the number, and two addresses are ordered by their values as they are by their octets. -/
theorem forms_agree (x : Address) :
    ofNumber (.ofNat x.toNat) = x ∧ parse x.text = .ok x ∧
      (∀ n < 2 ^ 32, (ofNumber (.ofNat n)).toNat = n) ∧ ∀ y, x.Aligned y :=
  ⟨ofNumber_toNat x, parse_text x, fun _ hn => toNat_ofNumber hn, aligned x⟩

/-- The upper half of the values, where the first octet is 128 or more, comes after the lower. -/
theorem forms_agree_upperHalf :
    parse "200.0.0.1" = .ok ⟨200, 0, 0, 1⟩ ∧
      (ofNumber (.ofNat 0xFFFFFFFF)).toNat = 0xFFFFFFFF ∧
      0 < difference ⟨200, 0, 0, 1⟩ ⟨9, 255, 255, 255⟩ := by
  obtain ⟨-, htext, hvalue, halign⟩ := forms_agree ⟨200, 0, 0, 1⟩
  exact ⟨htext, hvalue 0xFFFFFFFF (by decide), (halign ⟨9, 255, 255, 255⟩).after.2 (by decide)⟩

end Address

end LinkState
