/-!
Binary floating-point numbers written with a fixed number of decimal places. The digits
are those of the exact value, rounded once; an exact half goes to the even neighbour.
-/
namespace CallAtlas.Decimal

/-- `numerator / denominator` to the nearest natural number, an exact half to the even one. -/
def roundHalfEven (numerator denominator : Nat) : Nat :=
  let quotient := numerator / denominator
  let twice := 2 * (numerator % denominator)
  if twice < denominator then quotient
  else if denominator < twice then quotient + 1
  else if quotient % 2 = 0 then quotient else quotient + 1

/-- What the bits of a double stand for. -/
inductive Value where
  | finite (negative : Bool) (mantissa : Nat) (exponent : Int)
  | infinite (negative : Bool)
  | nan
  deriving DecidableEq, Repr

/-- Takes a double apart: a finite one is its mantissa times two to its exponent. The
mantissa has 52 bits besides the leading one, and eleven bits hold the exponent. -/
def Value.ofBits (bits : UInt64) : Value :=
  let leading := Nat.pow 2 52
  let exponents := Nat.pow 2 11
  let fraction := bits.toNat % leading
  let power := bits.toNat / leading % exponents
  let negative := bits.toNat / leading / exponents == 1
  if power + 1 = exponents then if fraction = 0 then .infinite negative else .nan
  else if power = 0 then .finite negative fraction (-1074)
  else .finite negative (leading + fraction) ((power : Int) - 1075)

/-- The decisions of one written form. -/
structure Format where
  /-- Digits after the point. -/
  places : Nat
  /-- Whether a negative number that rounds to zero keeps its sign. -/
  signedZero : Bool
  deriving DecidableEq, Repr

/-- `mantissa * 2 ^ exponent * 10 ^ places`, rounded. -/
def scaled (mantissa : Nat) (exponent : Int) (places : Nat) : Nat :=
  match exponent with
  | .ofNat e => mantissa * Nat.pow 2 e * Nat.pow 10 places
  | .negSucc e => roundHalfEven (mantissa * Nat.pow 10 places) (Nat.pow 2 (e + 1))

/-- The digits of `n` with a point before the last `places` of them. -/
def placed (n places : Nat) : String :=
  let fraction := toString (n % Nat.pow 10 places)
  if places = 0 then toString n
  else toString (n / Nat.pow 10 places) ++ "." ++
    String.ofList (List.replicate (places - fraction.length) '0') ++ fraction

def Format.write (format : Format) : Value → String
  | .nan => "NaN"
  | .infinite negative => if negative then "-inf" else "inf"
  | .finite negative mantissa exponent =>
    let digits := scaled mantissa exponent format.places
    let signed := negative && (format.signedZero || digits != 0)
    (if signed then "-" else "") ++ placed digits format.places

def Format.render (format : Format) (x : Float) : String :=
  format.write (.ofBits x.toBits)

end CallAtlas.Decimal
