/-!
Identifiers: a prefix, a dash and a counter in base 36. Different counters give different
identifiers under any two prefixes.
-/

namespace LinkState

namespace Identifier

/-- The digits from `0` to `9`, then the letters from `a`. -/
def digit (n : Nat) : Char := if n < 10 then Char.ofNat (48 + n) else Char.ofNat (87 + n)

def base36 (n : Nat) : List Char :=
  if n < 36 then [digit n] else base36 (n / 36) ++ [digit (n % 36)]
termination_by n

def make (label : String) (counter : Nat) : String :=
  label ++ "-" ++ String.ofList (base36 counter)

end Identifier

end LinkState
