import LinkState.Address

/-!
Subnet masks. A mask is a list of octets from 0 to 255 whose 32-bit value is ones followed by
zeros. Octets may have a fraction, which the value drops; a missing octet counts as 0, and octets
past the fourth count in the length alone. The masks of four whole octets are `ofLength k`.
-/

namespace LinkState

namespace Mask

/-- The whole part of octet `i`, 0 if there is none. -/
def wholeOctet (octets : List Rat) (i : Nat) : Nat := (octets.getD i 0).floor.toNat

def valueOf (octets : List Rat) : Nat :=
  wholeOctet octets 0 * 0x1000000 + wholeOctet octets 1 * 0x10000 +
    wholeOctet octets 2 * 0x100 + wholeOctet octets 3

/-- The zeros of a 32-bit value, read as a number, are one less than a power of two. -/
def Contiguous (value : Nat) : Prop := (0xFFFFFFFF - value) &&& (0x100000000 - value) = 0

instance (value : Nat) : Decidable (Contiguous value) := inferInstanceAs (Decidable (_ = _))

def InRange (octets : List Rat) : Prop := ∀ o ∈ octets, 0 ≤ o ∧ o ≤ 255

instance (octets : List Rat) : Decidable (InRange octets) :=
  inferInstanceAs (Decidable (∀ o ∈ octets, _))

/-- The ones at the top of an octet. -/
def leadingOnes (octet : Nat) : Nat :=
  ((List.range 8).takeWhile fun i => octet.testBit (7 - i)).length

/-- Octet `i` of the mask with `k` ones. -/
def lengthOctet (k i : Nat) : Nat := 256 - 1 <<< (8 - min 8 (k - 8 * i))

def lengthOctets (k : Nat) : List Rat := (List.range 4).map fun i => (lengthOctet k i : Rat)

theorem inRange_lengthOctets (k : Fin 33) : InRange (lengthOctets k) := by
  revert k; decide

theorem contiguous_lengthOctets (k : Fin 33) : Contiguous (valueOf (lengthOctets k)) := by
  revert k; decide

end Mask

structure Mask where
  octets : List Rat
  inRange : Mask.InRange octets
  contiguous : Mask.Contiguous (Mask.valueOf octets)
deriving DecidableEq

namespace Mask

def toNat (m : Mask) : Nat := valueOf m.octets

/-- The prefix length: the leading ones of every octet, added up. -/
def length (m : Mask) : Nat := m.octets.foldl (fun n o => n + leadingOnes o.floor.toNat) 0

def text (m : Mask) : String := Dotted.join (m.octets.map fun o => (Number.finite o).text)

/-- Masks are compared by value. -/
def same (m n : Mask) : Bool := m.toNat = n.toNat

def ofLength (k : Fin 33) : Mask :=
  ⟨lengthOctets k, inRange_lengthOctets k, contiguous_lengthOctets k⟩

/-- `255.255.255.255` -/
def host : Mask := ofLength 32

instance : Inhabited Mask := ⟨host⟩

def octetOfNumber? : Number → Option Rat
  | .finite q => if 0 ≤ q ∧ q ≤ 255 then some q else none
  | _ => none

def ofOctets? (octets : List Rat) : Option Mask :=
  if h : InRange octets ∧ Contiguous (valueOf octets) then some ⟨octets, h.1, h.2⟩ else none

/-- Any number of octets. The range of each is checked before their value. -/
def ofNumbers (ns : List Number) : Except Fault Mask :=
  let text := Dotted.join (ns.map Number.text)
  match ns.mapM octetOfNumber? with
  | none => .error (.maskText text)
  | some octets =>
    match ofOctets? octets with
    | some m => .ok m
    | none => .error (.maskNotContiguous text)

def numberOfField (field : String) : Number :=
  match Dotted.leadingInteger? field with
  | some n => .ofInt n
  | none => .nan

/-- Reads four fields, each by the integer at its start. -/
def parse (s : String) : Except Fault Mask :=
  let fields := Dotted.split s
  if fields.length = 4 then ofNumbers (fields.map numberOfField) else .error (.maskText s)

/-- The mask of a prefix length, an integer from 0 to 32. -/
def ofLengthNumber (n : Number) : Except Fault Mask :=
  match n.toNat? with
  | some k => if h : k < 33 then .ok (ofLength ⟨k, h⟩) else .error (.lengthOutOfRange n)
  | none => .error (.lengthOutOfRange n)

/-- The mask with an address's octets. -/
def ofAddress (x : Address) : Except Fault Mask :=
  ofNumbers (x.octets.map fun o => .ofNat o.toNat)

/-- The address with a mask's octets, which have to be four whole ones. -/
def toAddress (m : Mask) : Except Fault Address := Address.ofNumbers (m.octets.map .finite)

end Mask

namespace Address

/-- The network of an address: its bits under the ones of the mask. -/
def network (x : Address) (m : Mask) : Address := ofNat (x.toNat &&& m.toNat)

def sameSubnet (x y : Address) (m : Mask) : Bool := x.toNat &&& m.toNat = y.toNat &&& m.toNat

end Address

end LinkState
