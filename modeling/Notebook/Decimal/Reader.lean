/-! Reading decimal notation as a binary64 number. -/
namespace Notebook.Decimal

def digitRun (cs : List Char) : List Char × List Char :=
  (cs.takeWhile Char.isDigit, cs.dropWhile Char.isDigit)

def natOfDigits (ds : List Char) : Nat :=
  ds.foldl (fun n c => 10 * n + (c.toNat - 48)) 0

def exponent? : List Char → Option Int
  | [] => some 0
  | c :: cs =>
    if c == 'e' || c == 'E' then
      let (negative, ds) := match cs with
        | '-' :: ds => (true, ds)
        | '+' :: ds => (false, ds)
        | ds => (false, ds)
      if ds.isEmpty || !ds.all Char.isDigit then none
      else some (if negative then -(natOfDigits ds : Int) else natOfDigits ds)
    else none

/-- The number nearest to `digits * 10 ^ exponent`. Exponents far outside the range are decided
by the position of the leading digit, so that no huge power is formed. -/
def nearest (digits : Nat) (exponent : Int) : Float :=
  let lead := exponent + (Nat.toDigits 10 digits).length
  if digits = 0 || lead < -400 then 0.0
  else if lead > 400 then 1.0 / 0.0
  else if exponent < 0 then Float.ofScientific digits true exponent.natAbs
  else Float.ofScientific digits false exponent.natAbs

/-- A decimal number: digits with at most one point among, before or after them, and an exponent
if there is one. -/
def unsigned? (cs : List Char) : Option Float :=
  let (whole, rest) := digitRun cs
  let (places, tail) := match rest with
    | '.' :: more => digitRun more
    | _ => ([], rest)
  if whole.isEmpty && places.isEmpty then none
  else (exponent? tail).map fun e =>
    nearest (natOfDigits (whole ++ places)) (e - (places.length : Int))

def float? : List Char → Option Float
  | '-' :: cs => (unsigned? cs).map fun x => -x
  | '+' :: cs => unsigned? cs
  | cs => unsigned? cs

end Notebook.Decimal
