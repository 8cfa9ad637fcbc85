import LinkState.Number

/-!
The shortest decimal text of a number: the fewest significant digits that read back as the same
double, of those the nearest. Positional from `10 ^ (-6)` up to below `10 ^ 21`, with an exponent
otherwise.
-/

namespace LinkState

namespace Number

def tenPow (e : Int) : Rat := if 0 ≤ e then 10 ^ e.toNat else 1 / 10 ^ (-e).toNat

/-- The `p` with `10 ^ (p - 1) ≤ q < 10 ^ p`, for a positive double `q`. -/
def pointPosition (q : Rat) : Int :=
  if 1 ≤ q then (Nat.toDigits 10 q.floor.toNat).length
  else -(((List.range 324).find? fun k => 1 ≤ q * 10 ^ (k + 1)).getD 324 : Nat)

def readsBack (q : Rat) (n : Int) (scale : Int) : Bool := ofRat (n * tenPow scale) = finite q

/-- The multiple of `10 ^ scale` next to `q` that reads back as `q`, the nearer one if both do. -/
def onGrid? (q : Rat) (scale : Int) : Option Int :=
  let n := (q / tenPow scale).floor
  match readsBack q n scale, readsBack q (n + 1) scale with
  | true, true => some (nearestInt (q / tenPow scale))
  | true, false => some n
  | false, true => some (n + 1)
  | false, false => none

/-- The significant digits of a positive `q`, as an integer and the power of ten it counts. -/
def shortest (q : Rat) : Int × Int :=
  let p := pointPosition q
  ((List.range 17).findSome? fun k : Nat => (onGrid? q (p - 1 - k)).map (·, p - 1 - k)).getD
    (nearestInt (q / tenPow (p - 17)), p - 17)

/-- Significant digits without zeros at their end, and the position of the point among them. -/
def significand (q : Rat) : List Char × Int :=
  let (n, scale) := shortest q
  let digits := Nat.toDigits 10 n.toNat
  ((digits.reverse.dropWhile (· = '0')).reverse, digits.length + scale)

def zeros (n : Int) : List Char := List.replicate n.toNat '0'

/-- Lays out significant digits with the point after the first `point` of them. -/
def layOut (digits : List Char) (point : Int) : List Char :=
  if digits.length ≤ point ∧ point ≤ 21 then digits ++ zeros (point - digits.length)
  else if 0 < point ∧ point ≤ 21 then
    digits.take point.toNat ++ '.' :: digits.drop point.toNat
  else if -6 < point ∧ point ≤ 0 then '0' :: '.' :: zeros (-point) ++ digits
  else
    let mantissa := match digits with
      | d :: e :: rest => d :: '.' :: e :: rest
      | short => short
    let exponent := point - 1
    mantissa ++ 'e' :: (if exponent < 0 then '-' else '+') :: Nat.toDigits 10 exponent.natAbs

def textPositive (q : Rat) : String :=
  let (digits, point) := significand q
  String.ofList (layOut digits point)

def text : Number → String
  | nan => "NaN"
  | infinite false => "Infinity"
  | infinite true => "-Infinity"
  | finite q =>
    if isSmallInteger q then toString q.num
    else if q < 0 then "-" ++ textPositive (-q) else textPositive q

end Number

end LinkState
