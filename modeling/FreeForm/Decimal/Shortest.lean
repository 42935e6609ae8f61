import FreeForm.Decimal.Double
import FreeForm.Text.Basic

namespace FreeForm

namespace Double

/-- A positive number `value / scale` and the ends of the interval that rounds to it, which belong to
the interval or not. -/
structure Neighbourhood where
  low : Nat
  value : Nat
  high : Nat
  scale : Nat
  closed : Bool
  deriving Repr

/-- Halfway to either neighbour. Below a power of two the neighbour is only half as far. -/
def neighbourhood (m : Nat) (e : Int) : Neighbourhood :=
  let below := if m = Nat.pow 2 (precision - 1) && minExponent < e then 1 else 2
  let unit := Nat.pow 2 (e - 2).toNat
  ⟨(4 * m - below) * unit, 4 * m * unit, (4 * m + 2) * unit, Nat.pow 2 (2 - e).toNat, m % 2 = 0⟩

namespace Neighbourhood

/-- The multiple of `10 ^ p` in the interval that is nearest to the number, the greater one of two, as
a multiple. -/
def onGrid? (n : Neighbourhood) (p : Int) : Option Nat :=
  let unit := n.scale * Nat.pow 10 p.toNat
  let fine := Nat.pow 10 (-p).toNat
  let value := n.value * fine
  let inside (c : Nat) : Bool :=
    if n.closed then n.low * fine ≤ c * unit && c * unit ≤ n.high * fine
    else n.low * fine < c * unit && c * unit < n.high * fine
  let c := value / unit
  let nearest := if 2 * (value % unit) < unit then [c, c + 1] else [c + 1, c]
  nearest.find? inside

def ceilingExponent (n : Neighbourhood) : Int :=
  if n.scale ≤ n.value then (Nat.toDigits 10 (n.value / n.scale)).length
  else 1 - (((List.range 400).find? fun s ↦ n.scale ≤ n.value * Nat.pow 10 s).getD 0 : Nat)

/-- The coarsest grid of powers of ten that meets the interval: its exponent, and the multiple nearest
to the number. -/
def shortest (n : Neighbourhood) : Nat × Int :=
  let top := n.ceilingExponent
  ((List.range 24).findSome? fun (i : Nat) ↦
    let p : Int := top - i
    (n.onGrid? p).map fun c ↦ (c, p)).getD (0, 0)

end Neighbourhood

def positional (digits : Nat) (exponent : Int) : Text :=
  let text := Text.ofNat digits
  if 0 ≤ exponent then text ++ List.replicate exponent.toNat '0' ++ ['.', '0']
  else
    let places := (-exponent).toNat
    let text := List.replicate (places + 1 - text.length) '0' ++ text
    text.take (text.length - places) ++ '.' :: text.drop (text.length - places)

def sign (negative : Bool) : Text :=
  if negative then ['-'] else []

def toText : Double → Text
  | nan => "NaN".toList
  | infinite negative => sign negative ++ "inf".toList
  | finite negative m e =>
    sign negative ++
      if m = 0 then positional 0 0
      else
        let (digits, exponent) := (neighbourhood m e).shortest
        positional digits exponent

end Double

end FreeForm
