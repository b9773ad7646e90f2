/-! The shortest decimal that reads back as a given binary64 number. -/
namespace Notebook.Decimal

/-- A finite positive binary64 number `mantissa * 2 ^ exponent`. The numbers next below it are
half as far apart as those above it if `lowEdge` is set. -/
structure Binary where
  mantissa : Nat
  exponent : Int
  lowEdge : Bool
deriving Repr, DecidableEq

def Binary.ofBits (bits : UInt64) : Binary :=
  let fraction : Nat := bits.toNat % Nat.pow 2 52
  let biased : Nat := (bits.toNat / Nat.pow 2 52) % Nat.pow 2 11
  if biased = 0 then ⟨fraction, -1074, false⟩
  else ⟨fraction + Nat.pow 2 52, (biased : Int) - 1075, fraction = 0 && biased > 1⟩

structure Scaled where
  digits : Nat
  exponent : Int
deriving Repr, DecidableEq

def power (base : Nat) (e : Int) : Nat := Nat.pow base e.toNat

def width (n : Nat) : Nat := (Nat.toDigits 10 n).length

def leadingExponent (n d : Nat) : Int :=
  if d ≤ n then (width (n / d) : Int) - 1
  else
    let gap := width d - width n
    if d ≤ n * Nat.pow 10 gap then -(gap : Int) else -((gap : Int) + 1)

def Scaled.normal (s : Scaled) : Nat → Scaled
  | 0 => s
  | fuel + 1 =>
    if s.digits ≠ 0 && s.digits % 10 = 0 then
      Scaled.normal ⟨s.digits / 10, s.exponent + 1⟩ fuel
    else s

/-- The decimal of `count` digits that is nearest to the number, if it reads back as the number.
Of two that are equally near, the even one is taken. -/
def Binary.round? (b : Binary) (count : Nat) : Option Scaled :=
  -- in units of a quarter of the last binary place
  let e := b.exponent - 2
  let value := 4 * b.mantissa
  let low := value - (if b.lowEdge then 1 else 2)
  let high := value + 2
  let step : Int := leadingExponent (value * power 2 e) (power 2 (-e)) - (count : Int) + 1
  -- `c * 10 ^ step` is compared with `x * 2 ^ e` as `c * left` with `x * right`
  let left := power 10 step * power 2 (-e)
  let right := power 2 e * power 10 (-step)
  let within (c : Nat) : Bool :=
    if b.mantissa % 2 = 0 then low * right ≤ c * left && c * left ≤ high * right
    else low * right < c * left && c * left < high * right
  let below := value * right / left
  let above := below + 1
  let nearer := compare (value * right - below * left) (above * left - value * right)
  match within below, within above, nearer with
  | true, true, .lt => some ⟨below, step⟩
  | true, true, .gt => some ⟨above, step⟩
  | true, true, .eq => some ⟨if below % 2 = 0 then below else above, step⟩
  | true, false, _ => some ⟨below, step⟩
  | false, true, _ => some ⟨above, step⟩
  | false, false, _ => none

/-- The shortest decimal that reads back as the number; seventeen digits always do. -/
def Binary.shortest (b : Binary) : Scaled :=
  if b.mantissa = 0 then ⟨0, 0⟩
  else
    let found := (List.range 17).findSome? fun i => b.round? (i + 1)
    (found.getD ⟨0, 0⟩).normal 20

/-- How a decimal is laid out: leading-digit exponents from `leastPlain` to `greatestPlain` are
written with a point only, all others with an exponent. -/
structure Layout where
  leastPlain : Int
  greatestPlain : Int
deriving Repr, DecidableEq

/-- The text of a decimal. A number without places keeps one, as in `1.0`; an exponent has a
sign. -/
def Layout.write (layout : Layout) (s : Scaled) : String :=
  let ds := Nat.toDigits 10 s.digits
  let lead : Int := s.exponent + (ds.length : Int) - 1
  if s.digits = 0 then "0.0"
  else if layout.leastPlain ≤ lead && lead ≤ layout.greatestPlain then
    if lead < 0 then
      "0." ++ String.ofList (List.replicate (-lead - 1).toNat '0' ++ ds)
    else
      let whole := ds.take (lead.toNat + 1)
      let places := ds.drop (lead.toNat + 1)
      String.ofList (whole ++ List.replicate (lead.toNat + 1 - whole.length) '0') ++ "." ++
        (if places.isEmpty then "0" else String.ofList places)
  else
    let places := ds.drop 1
    String.ofList (ds.take 1) ++ (if places.isEmpty then "" else "." ++ String.ofList places) ++
      (if lead < 0 then "e-" else "e+") ++ toString lead.natAbs

def Layout.writeFloat (layout : Layout) (x : Float) : String :=
  (if x.toBits.toNat ≥ Nat.pow 2 63 then "-" else "") ++ layout.write (Binary.ofBits x.toBits).shortest

end Notebook.Decimal
