/-!
# Numerals

Decimal text of the numbers that instructions carry: no sign on non-negative numbers, no leading zeros.
-/
namespace ShaderMicrocode

def decimal (n : UInt32) : String := n.toNat.repr

def signedDecimal (n : Int32) : String :=
  if n.toInt < 0 then "-" ++ n.toInt.natAbs.repr else n.toInt.natAbs.repr

/-- The numeral of `n`, filled up with blanks on the left to `width` characters. -/
def paddedDecimal (width n : Nat) : String :=
  let digits := n.repr
  String.ofList (List.replicate (width - digits.length) ' ') ++ digits

end ShaderMicrocode
