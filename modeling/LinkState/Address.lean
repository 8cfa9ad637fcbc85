import LinkState.Dotted
import LinkState.Fault

/-!
IPv4 addresses: four octets, read as an unsigned 32-bit value. `ofNat` and `toNat` are inverse on
values below `2 ^ 32`, and addresses are ordered by value.
-/

namespace LinkState

structure Address where
  a : UInt8
  b : UInt8
  c : UInt8
  d : UInt8
deriving DecidableEq, Hashable, Inhabited

namespace Address

/-- `0.0.0.0` -/
def any : Address := ⟨0, 0, 0, 0⟩

def octets (x : Address) : List UInt8 := [x.a, x.b, x.c, x.d]

def toNat (x : Address) : Nat :=
  x.a.toNat * 0x1000000 + x.b.toNat * 0x10000 + x.c.toNat * 0x100 + x.d.toNat

/-- The low 32 bits of `n`. -/
def ofNat (n : Nat) : Address :=
  ⟨UInt8.ofNat (n / 0x1000000), UInt8.ofNat (n / 0x10000), UInt8.ofNat (n / 0x100), UInt8.ofNat n⟩

def ofNumber (n : Number) : Address := ofNat n.toWord

theorem toNat_lt (x : Address) : x.toNat < 0x100000000 := by
  have ha := x.a.toNat_lt
  have hb := x.b.toNat_lt
  have hc := x.c.toNat_lt
  have hd := x.d.toNat_lt
  unfold toNat
  omega

theorem ofNat_toNat (x : Address) : ofNat x.toNat = x := by
  have ha := x.a.toNat_lt
  have hb := x.b.toNat_lt
  have hc := x.c.toNat_lt
  have hd := x.d.toNat_lt
  obtain ⟨a, b, c, d⟩ := x
  simp only [ofNat, toNat, mk.injEq, ← UInt8.toNat_inj, UInt8.toNat_ofNat'] at *
  omega

theorem toNat_ofNat {n : Nat} (h : n < 0x100000000) : (ofNat n).toNat = n := by
  simp only [ofNat, toNat, UInt8.toNat_ofNat']
  omega

theorem toNat_inj {x y : Address} : x.toNat = y.toNat ↔ x = y :=
  ⟨fun h => by rw [← ofNat_toNat x, h, ofNat_toNat], fun h => by rw [h]⟩

/-- Order by value. -/
def compare (x y : Address) : Ordering := Ord.compare x.toNat y.toNat

/-- `x - y` as integers. -/
def difference (x y : Address) : Int := x.toNat - y.toNat

/-- Four decimal octets with points between them. -/
def text (x : Address) : String := Dotted.join (x.octets.map fun o => toString o.toNat)

/-- An octet is an integer from 0 to 255. -/
def octet? (n : Int) : Option UInt8 :=
  if 0 ≤ n ∧ n ≤ 255 then some (UInt8.ofNat n.toNat) else none

def octetOfField (field : String) : Except Fault UInt8 :=
  match (Dotted.leadingInteger? field).bind octet? with
  | some o => .ok o
  | none => .error (.addressOctet field)

def octetOfNumber (n : Number) : Except Fault UInt8 :=
  match n.toNat?.bind fun k => octet? k with
  | some o => .ok o
  | none => .error (.addressOctet n.text)

/-- Reads four fields, each by the integer at its start. -/
def parse (s : String) : Except Fault Address :=
  match Dotted.split s with
  | [a, b, c, d] => do
    return ⟨← octetOfField a, ← octetOfField b, ← octetOfField c, ← octetOfField d⟩
  | _ => .error (.addressText s)

def ofNumbers : List Number → Except Fault Address
  | [a, b, c, d] => do
    return ⟨← octetOfNumber a, ← octetOfNumber b, ← octetOfNumber c, ← octetOfNumber d⟩
  | ns => .error (.addressSize ns.length)

def sort (xs : List Address) : List Address := xs.mergeSort fun x y => x.toNat ≤ y.toNat

end Address

end LinkState
