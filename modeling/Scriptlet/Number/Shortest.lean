/-!
# The shortest decimal that reads back

A positive number is `mantissa * 2 ^ exponent`. The reals that round to it form an
interval around it, with its ends when the mantissa is even. On the grids of 1, 2, 3, …
significant digits the two neighbours of the number are tried in turn, and the first
grid with a neighbour in the interval wins; of two such neighbours the nearer one is
taken, and the upper one when both are equally near.
-/

namespace Scriptlet.Number

/-- A positive decimal, `significand * 10 ^ exponent`. -/
structure Decimal where
  significand : Nat
  exponent : Int
  deriving DecidableEq, Repr

/-- The sign of `a * 10 ^ g - b * 2 ^ q`. -/
def compareDecimal (a : Nat) (g : Int) (b : Nat) (q : Int) : Ordering :=
  compare (a * Nat.pow 10 g.toNat * Nat.pow 2 (-q).toNat)
    (b * Nat.pow 2 q.toNat * Nat.pow 10 (-g).toNat)

/-- The interval of reals that round to `mantissa * 2 ^ exponent`, in units of
`2 ^ (exponent - 2)`. -/
structure Interval where
  lower : Nat
  value : Nat
  upper : Nat
  scale : Int
  closed : Bool

/-- The interval of a number; below a power of two the spacing is halved. -/
def Interval.around (mantissa : Nat) (exponent : Int) : Interval where
  lower := 4 * mantissa - (if mantissa = Nat.pow 2 52 ∧ -1074 < exponent then 1 else 2)
  value := 4 * mantissa
  upper := 4 * mantissa + 2
  scale := exponent - 2
  closed := mantissa % 2 = 0

/-- Whether a decimal lies in an interval. -/
def Interval.contains (i : Interval) (d : Decimal) : Bool :=
  match compareDecimal d.significand d.exponent i.lower i.scale,
      compareDecimal d.significand d.exponent i.upper i.scale with
  | .gt, .lt => true
  | .eq, _ => i.closed
  | _, .eq => i.closed
  | _, _ => false

/-- The largest multiple of `10 ^ grid` that is at most the number, as a multiple. -/
def Interval.floor (i : Interval) (grid : Int) : Nat :=
  (i.value * Nat.pow 2 i.scale.toNat * Nat.pow 10 (-grid).toNat) /
    (Nat.pow 2 (-i.scale).toNat * Nat.pow 10 grid.toNat)

/-- The exponent of the leading digit: the climb starts at most three places below it. -/
def Interval.magnitude (i : Interval) : Int :=
  climb 4 (((i.value.log2 : Int) + i.scale) * 1233 / 4096 - 1)
where
  climb : Nat → Int → Int
    | 0, p => p
    | fuel + 1, p =>
      if compareDecimal 1 (p + 1) i.value i.scale = .gt then p else climb fuel (p + 1)

/-- The neighbour on a grid that lies in the interval, the nearer one if both do. -/
def Interval.onGrid (i : Interval) (grid : Int) : Option Decimal :=
  let low : Decimal := ⟨i.floor grid, grid⟩
  let high : Decimal := ⟨i.floor grid + 1, grid⟩
  match 0 < low.significand && i.contains low, i.contains high with
  | true, true =>
    -- twice the number against the sum of the neighbours
    if compareDecimal (low.significand + high.significand) grid (2 * i.value) i.scale = .gt
    then some low else some high
  | true, false => some low
  | false, true => some high
  | false, false => none

/-- The first grid with a hit, from `digits` significant digits on. -/
def Interval.search (i : Interval) (magnitude : Int) : Nat → Nat → Option Decimal
  | 0, _ => none
  | fuel + 1, digits =>
    match i.onGrid (magnitude + 1 - digits) with
    | some d => some d
    | none => i.search magnitude fuel (digits + 1)

/-- A decimal without zeros at the end of its significand. -/
def Decimal.strip : Nat → Decimal → Decimal
  | 0, d => d
  | fuel + 1, d =>
    if d.significand % 10 = 0 then Decimal.strip fuel ⟨d.significand / 10, d.exponent + 1⟩ else d

/-- The shortest decimal that rounds to `mantissa * 2 ^ exponent`; 17 digits always suffice. -/
def shortest (mantissa : Nat) (exponent : Int) : Decimal :=
  let i := Interval.around mantissa exponent
  ((i.search i.magnitude 17 1).getD ⟨mantissa, 0⟩).strip 17

end Scriptlet.Number
