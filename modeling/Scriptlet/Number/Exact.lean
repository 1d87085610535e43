/-!
# Binary64 operations with one rounding

A finite number is a sign, a mantissa and a power of two. The operations here
compute on those in exact integer arithmetic and round once, to nearest with
ties to even.
-/

namespace Scriptlet.Number

open Float.Model Float.Model.UnpackedFloat

/-- The number nearest to `mantissa * 2 ^ exponent`; a zero is positive. -/
def ofScaled (mantissa : Int) (exponent : Int) : Float :=
  .ofModel (.pack (normalize .binary64 mantissa exponent .positive))

/-- The number that is not a number. -/
def notNumber : Float := .ofModel (.pack .notANumber)

/-- The zero of a sign. -/
def signedZero (sign : Sign) : Float := .ofModel (.pack (.zero sign))

/-- The value `x * y + z`, rounded once. -/
def mulAdd (x y z : Float) : Float :=
  match x.toModel.unpack, y.toModel.unpack, z.toModel.unpack with
  | .finite s m e _, .finite t n f _, .finite u k g _ =>
    let low := min (e + f) g
    let product := (s * t).apply ((m * n * Nat.pow 2 (e + f - low).toNat : Nat) : Int)
    let addend := u.apply ((k * Nat.pow 2 (g - low).toNat : Nat) : Int)
    ofScaled (product + addend) low
  | .finite s m e _, .finite t n f _, .zero _ =>
    ofScaled ((s * t).apply ((m * n : Nat) : Int)) (e + f)
  | .finite _ _ _ _, .finite _ _ _ _, .infinity _ => z
  | _, _, _ => x * y + z

/-- The remainder of a division truncated toward zero: exact, with the sign of the dividend. -/
def remainder (x y : Float) : Float :=
  match x.toModel.unpack, y.toModel.unpack with
  | .finite s m e _, .finite _ n f _ =>
    let low := min e f
    let rest := (m * Nat.pow 2 (e - low).toNat) % (n * Nat.pow 2 (f - low).toNat)
    if rest = 0 then signedZero s else ofScaled (s.apply (rest : Int)) low
  | .finite _ _ _ _, .infinity _ => x
  | .zero _, .finite _ _ _ _ => x
  | .zero _, .infinity _ => x
  | _, _ => notNumber

/-- The integer part, clamped to 64 bits; what is not a number counts as zero. -/
def truncate (x : Float) : Int64 := x.toModel.toInt64

/-- The number nearest to an integer. -/
def ofInt (i : Int64) : Float := Float.ofInt i.toInt

/-- Whether the sign bit is set. -/
def isNegative (x : Float) : Bool :=
  match x.toModel.unpack with
  | .finite .negative _ _ _ => true
  | .infinity .negative => true
  | .zero .negative => true
  | _ => false

/-- A place in the total order in which both zeros are equal and what is not a number comes last. -/
def orderIndex (x : Float) : Int :=
  if x.isNaN then 0x10000000000000000
  else
    let magnitude : Int := ((x.toBits.toNat % 0x8000000000000000 : Nat) : Int)
    if isNegative x then -magnitude else magnitude

end Scriptlet.Number
