import TwinShape.Decimal.Binary64

namespace TwinShape

structure Scaled where
  significand : Nat
  exponent : Int
  fits : significand < 18446744073709551616

namespace Scaled

def start : Scaled := ⟨0, 0, by decide⟩

-- A digit joins the significand while 64 bits hold it.
def push? (s : Scaled) (digit : Nat) : Option Scaled :=
  if h : s.significand * 10 + digit < 18446744073709551616 then
    some ⟨s.significand * 10 + digit, s.exponent, h⟩
  else none

-- From the first whole digit that does not fit, all of them only raise the exponent.
def pushWhole : Scaled → List Nat → Scaled
  | s, [] => s
  | s, d :: rest =>
    match s.push? d with
    | some s => pushWhole s rest
    | none => { s with exponent := s.exponent + (rest.length + 1) }

def pushFraction : Scaled → List Nat → Scaled
  | s, [] => s
  | s, d :: rest =>
    match s.push? d with
    | some s => pushFraction { s with exponent := s.exponent - 1 } rest
    | none => s

-- Powers of ten are themselves rounded to doubles; the greatest is 10^308.
def power? (k : Nat) : Option Binary64 := Binary64.ofRatio? false (Nat.pow 10 k) 1

def scaleUp? (x : Binary64) (k : Nat) : Option Binary64 :=
  if x.magnitude == 0 then some x
  else if k ≤ 308 then (power? k).bind x.mul?
  else none

def scaleDown? (x : Binary64) (k : Nat) : Option Binary64 :=
  if x.magnitude == 0 then some x
  else if k ≤ 308 then (power? k).bind x.div?
  else ((power? 308).bind x.div?).bind fun y => scaleDown? y (k - 308)
termination_by k

def toBinary64? (negative : Bool) (s : Scaled) : Option Binary64 :=
  let x := Binary64.ofNat negative s.significand s.fits
  if 0 ≤ s.exponent then scaleUp? x s.exponent.toNat else scaleDown? x (-s.exponent).toNat

end Scaled
end TwinShape
