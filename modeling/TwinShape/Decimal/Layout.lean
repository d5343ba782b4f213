import TwinShape.Decimal.Shortest

namespace TwinShape

-- How a finite double is spelled once its digits are chosen.
structure FloatText where
  tieUp : Bool
  -- Scientific exponents written without an exponent part; `none` covers all of them.
  positional : Option (Int × Int)
  -- A whole value ends in ".0".
  pointZero : Bool

namespace FloatText

def isPositional (style : FloatText) (leading : Int) : Bool :=
  match style.positional with
  | none => true
  | some (least, greatest) => least ≤ leading && leading ≤ greatest

def zeros (n : Nat) : List Char := List.replicate n '0'

def positionalText (style : FloatText) (d : Decimal) : List Char :=
  let whole := if style.pointZero then ['.', '0'] else []
  if 0 ≤ d.exponent then d.digits ++ zeros d.exponent.toNat ++ whole
  else if 0 ≤ d.leading then
    let places := (d.leading + 1).toNat
    d.digits.take places ++ '.' :: d.digits.drop places
  else '0' :: '.' :: zeros (-d.leading - 1).toNat ++ d.digits

def scientificText (d : Decimal) : List Char :=
  let mantissa := match d.digits with
    | [] | [_] => d.digits
    | first :: rest => first :: '.' :: rest
  let sign := if d.leading < 0 then '-' else '+'
  mantissa ++ 'e' :: sign :: Nat.toDigits 10 d.leading.natAbs

def write (style : FloatText) (x : Binary64) : String :=
  let sign := if x.negative then ['-'] else []
  let body :=
    if x.magnitude == 0 then '0' :: (if style.pointZero then ['.', '0'] else [])
    else
      let d := Binary64.shortest style.tieUp x.rank
      if style.isPositional d.leading then style.positionalText d else scientificText d
  String.ofList (sign ++ body)

def plain : FloatText := ⟨true, none, false⟩

end FloatText
end TwinShape
