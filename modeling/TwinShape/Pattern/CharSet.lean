import TwinShape.Pattern.Folding
import TwinShape.Pattern.Words

namespace TwinShape

-- Classes that have a name, of all scripts and of the narrow kind.
inductive ClassName where
  | digit | word | space
  | plainDigit | plainWord | plainSpace
deriving DecidableEq

namespace ClassName

def ranges : ClassName → Ranges
  | .digit => Ranges.digits
  | .word => Ranges.words
  | .space => Ranges.blanks
  | .plainDigit => [(48, 57)]
  | .plainWord => [(48, 57), (65, 90), (95, 95), (97, 122)]
  | .plainSpace => [(9, 13), (32, 32), (160, 160), (8195, 8195), (8233, 8233), (65279, 65279)]

def plain : ClassName → ClassName
  | .digit | .plainDigit => .plainDigit
  | .word | .plainWord => .plainWord
  | .space | .plainSpace => .plainSpace

end ClassName

inductive CharSet where
  | nothing
  | range (low high : Char)
  | named (name : ClassName)
  | either (a b : CharSet)
  | both (a b : CharSet)
  | complement (a : CharSet)
  -- With a character also all those that differ from it in case only.
  | folded (a : CharSet)
deriving DecidableEq

namespace CharSet

def single (c : Char) : CharSet := .range c c

def except (a b : CharSet) : CharSet := .both a (.complement b)

def differing (a b : CharSet) : CharSet := .either (a.except b) (b.except a)

def add (a : CharSet) : CharSet → CharSet
  | .nothing => a
  | b => .either b a

def foldedIf (fold : Bool) (a : CharSet) : CharSet := bif fold then .folded a else a

def complementIf (negated : Bool) (a : CharSet) : CharSet := bif negated then .complement a else a

def has (c : Char) : CharSet → Bool
  | .nothing => false
  | .range low high => low ≤ c && c ≤ high
  | .named name => name.ranges.has c
  | .either a b => a.has c || b.has c
  | .both a b => a.has c && b.has c
  | .complement a => !a.has c
  | .folded a => (caseVariants c).any fun c => a.has c

end CharSet
end TwinShape
