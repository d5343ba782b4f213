namespace TwinShape

-- Sets of characters as closed ranges of code points, in ascending order and apart.
abbrev Ranges := List (Nat × Nat)

namespace Ranges

def has (r : Ranges) (c : Char) : Bool :=
  r.any fun (low, high) => low ≤ c.toNat && c.toNat ≤ high

-- Ranges in ascending order of where they begin; those that meet become one.
def meetFrom (low high : Nat) : Ranges → Ranges
  | [] => [(low, high)]
  | (next, last) :: rest =>
    if next ≤ high + 1 then meetFrom low (max high last) rest
    else (low, high) :: meetFrom next last rest

def meet : Ranges → Ranges
  | [] => []
  | (low, high) :: rest => meetFrom low high rest

def ofList (r : List (Nat × Nat)) : Ranges := meet (r.mergeSort fun a b => a.1 ≤ b.1)

def join (a b : Ranges) : Ranges := ofList (a ++ b)

def gaps (from_ : Nat) : Ranges → Ranges
  | [] => if from_ ≤ 1114111 then [(from_, 1114111)] else []
  | (low, high) :: rest =>
    if from_ < low then (from_, low - 1) :: gaps (high + 1) rest else gaps (high + 1) rest

def complement (r : Ranges) : Ranges := gaps 0 r

end Ranges
end TwinShape
