/-!
# Numbers with a fixed number of places

A quotient is rounded to the nearest number with the given places; a tie goes to the even neighbour.

- `roundDiv` rounds a quotient to a natural number.
- `fixed` writes a quotient with a fixed number of places.
- `fixedFloat` does so for a double, by its exact value.
-/

namespace ScriptSymbols
namespace Decimal

/-- The natural number nearest to `n / d`; a tie goes to the even one. -/
def roundDiv (n d : Nat) : Nat :=
  let q := n / d
  let twice := 2 * (n % d)
  if d < twice ∨ (twice = d ∧ q % 2 = 1) then q + 1 else q

/-- The decimal digits of a number, with zeros before them up to a width. -/
def padded (width n : Nat) : List Char :=
  let digits := Nat.toDigits 10 n
  List.replicate (width - digits.length) '0' ++ digits

/-- A number of units of the last of `places` places, which must not be zero, with its point. -/
def withPoint (places units : Nat) : String :=
  String.ofList (Nat.toDigits 10 (units / Nat.pow 10 places)
    ++ '.' :: padded places (units % Nat.pow 10 places))

/-- The quotient `n / d` with a fixed number of places. -/
def fixed (places n d : Nat) : String :=
  withPoint places (roundDiv (n * Nat.pow 10 places) d)

/-- The value of a double that is finite and not negative, as a quotient. -/
def quotient (x : Float) : Nat × Nat :=
  let bits := x.toBits.toNat
  let exponent := bits / Nat.pow 2 52 % Nat.pow 2 11
  let fraction := bits % Nat.pow 2 52
  if exponent = 0 then (fraction, Nat.pow 2 1074)
  else if exponent < 1075 then (fraction + Nat.pow 2 52, Nat.pow 2 (1075 - exponent))
  else ((fraction + Nat.pow 2 52) * Nat.pow 2 (exponent - 1075), 1)

/-- A double with a fixed number of places. -/
def fixedFloat (places : Nat) (x : Float) : String :=
  let (n, d) := quotient x
  fixed places n d

end Decimal
end ScriptSymbols
