/-!
Numbers with double precision, kept as exact values: a rational, one of the two infinities, or no
number at all. `ofRat` is the nearest double, a half going to the even neighbour; integers of at
most 53 bits are their own nearest double (`ofRat_ofNat`).
-/

namespace LinkState

/-- The value of a double. Zero has one form. -/
inductive Number where
  | nan
  | infinite (negative : Bool)
  | finite (value : Rat)
deriving DecidableEq, Hashable, Inhabited

namespace Number

/-- `2 ^ e`, for either sign of `e`. -/
def twoPow (e : Int) : Rat := if 0 ≤ e then 2 ^ e.toNat else 1 / 2 ^ (-e).toNat

/-- The nearest integer, a half going to the even neighbour. -/
def nearestInt (q : Rat) : Int :=
  let k := q.floor
  if q - k < 1 / 2 then k else if 1 / 2 < q - k then k + 1 else k + k % 2

/-- The `e` with `2 ^ e ≤ q < 2 ^ (e + 1)`, for a positive `q`. -/
def binaryExponent (q : Rat) : Int :=
  let e : Int := (q.num.natAbs.log2 : Int) - (q.den.log2 : Int)
  if q < twoPow e then e - 1 else e

/-- The spacing of doubles around a positive `q`, as an exponent of two: 53 bits of precision, and
nothing finer than `2 ^ (-1074)`. -/
def spacing (q : Rat) : Int := max (binaryExponent q - 52) (-1074)

def roundPositive (q : Rat) : Rat := nearestInt (q / twoPow (spacing q)) * twoPow (spacing q)

/-- Integers that need no rounding. -/
def isSmallInteger (q : Rat) : Bool := q.den = 1 && q.num.natAbs ≤ 0x20000000000000

/-- The nearest double. Beyond the largest one lie the infinities. -/
def ofRat (q : Rat) : Number :=
  if isSmallInteger q then finite q
  else
    let r := roundPositive (if q < 0 then -q else q)
    if 2 ^ (1024 : Nat) ≤ r then infinite (decide (q < 0))
    else finite (if q < 0 then -r else r)

/-- `mantissa / 10 ^ scale`. -/
def ofDecimal (mantissa : Int) (scale : Nat) : Number := ofRat (mkRat mantissa (Nat.pow 10 scale))

def ofInt (n : Int) : Number := ofRat n

def ofNat (n : Nat) : Number := ofInt n

instance : OfNat Number n := ⟨ofNat n⟩

theorem isSmallInteger_natCast {n : Nat} (h : n ≤ 0x20000000000000) : isSmallInteger n = true := by
  rw [isSmallInteger, Rat.den_natCast, Rat.num_natCast, Int.natAbs_natCast, decide_eq_true h]
  rfl

theorem ofRat_ofNat {n : Nat} (h : n ≤ 0x20000000000000) : ofRat n = finite n := by
  rw [ofRat, if_pos (isSmallInteger_natCast h)]

theorem ofNat_eq {n : Nat} (h : n ≤ 0x20000000000000) : ofNat n = finite n := ofRat_ofNat h

def add : Number → Number → Number
  | finite a, finite b => ofRat (a + b)
  | nan, _ | _, nan => nan
  | infinite s, infinite t => if s = t then infinite s else nan
  | infinite s, finite _ | finite _, infinite s => infinite s

/-- No number is below or above `nan`. -/
def lt : Number → Number → Bool
  | finite a, finite b => decide (a < b)
  | nan, _ | _, nan => false
  | infinite s, infinite t => s && !t
  | infinite s, finite _ => s
  | finite _, infinite s => !s

/-- The sign of `a - b`. A difference with `nan`, or of two equal infinities, has none. -/
def compare? : Number → Number → Option Ordering
  | finite a, finite b => some (if a < b then .lt else if b < a then .gt else .eq)
  | nan, _ | _, nan => none
  | infinite s, infinite t => if s = t then none else some (if s then .lt else .gt)
  | infinite s, finite _ => some (if s then .lt else .gt)
  | finite _, infinite s => some (if s then .gt else .lt)

/-- The natural number that `n` is, if it is one. -/
def toNat? : Number → Option Nat
  | finite q => if q.den = 1 ∧ 0 ≤ q.num then some q.num.toNat else none
  | _ => none

/-- The fraction is dropped and the rest taken modulo `2 ^ 32`; what is not finite counts as 0. -/
def toWord : Number → Nat
  | finite q => (Int.tdiv q.num q.den % 0x100000000).toNat
  | _ => 0

/-- Neither zero nor `nan`. -/
def isTruthy : Number → Bool
  | nan => false
  | infinite _ => true
  | finite q => q ≠ 0

end Number

end LinkState
