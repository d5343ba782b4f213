import TwinShape.Pattern.Expression

namespace TwinShape

-- A set of places in a text: the bit of every place that belongs to it. Place `i` comes
-- before the character number `i`, so a text has one place more than characters.
abbrev Places := Nat

namespace Places

def single (i : Nat) : Places := 1 <<< i

def all (n : Nat) : Places := (1 <<< (n + 1)) - 1

def without (a b : Places) : Places := (a ||| b) ^^^ b

def collect (n : Nat) (lead : Nat → Option Nat) (a : Places) : Places :=
  (List.range (n + 1)).foldl (fun found i =>
    bif a.testBit i then found ||| (lead i).elim 0 single else found) 0

def around (n : Nat) (behind negated : Bool) (f : Places → Places) : Places :=
  let found :=
    bif behind then f (all n)
    else collect n (fun i => bif f (single i) == 0 then none else some i) (all n)
  bif negated then without (all n) found else found

def before (p : Char → Bool) : List Char → Places
  | [] => 0
  | c :: rest => 2 * before p rest + (p c).toNat

def between (holds : Option Char → Option Char → Bool) (previous : Option Char) :
    List Char → Places
  | [] => (holds previous none).toNat
  | c :: rest => 2 * between holds (some c) rest + (holds previous (some c)).toNat

-- Exactly `k` steps. Once a step changes nothing, no further one does.
def steps (f : Places → Places) : Nat → Places → Places
  | 0, here => here
  | k + 1, here =>
    let next := f here
    if next = here then here else steps f k next

-- Up to `k` steps; only what is new has to take another one.
def upTo (f : Places → Places) : (k : Nat) → (new reached : Places) → Places
  | 0, _, reached => reached
  | k + 1, new, reached =>
    let more := without (f new) reached
    if more = 0 then reached else upTo f k more (reached ||| more)

end Places

namespace Regex

def demand (f : Nat → (Nat → Option Nat) → Option Nat) (follow : Nat → Option Nat) :
    Nat → Nat → Option Nat
  | 0, i => follow i
  | k + 1, i => f i (demand f follow k)

def offer (f : Nat → (Nat → Option Nat) → Option Nat) (greedy : Bool)
    (follow : Nat → Option Nat) : Nat → Nat → Option Nat
  | 0, i => follow i
  | k + 1, i =>
    let more (_ : Unit) := f i fun j => if j = i then none else offer f greedy follow k j
    bif greedy then (more ()).orElse fun _ => follow i else (follow i).orElse more

mutual
def reach (n : Nat) : Regex Places Places → Places → Places
  | .nothing, _ => 0
  | .empty, here => here
  | .anchor places, here => here &&& places
  | .set places, here => (here &&& places) <<< 1
  | .seq a b, here => b.reach n (a.reach n here)
  | .either a b, here => a.reach n here ||| b.reach n here
  | .repeated a least most _, here =>
    let begun := Places.steps (a.reach n) least here
    Places.upTo (a.reach n) (most.elim (n + 1) (· - least)) begun begun
  | .group a, here => a.reach n here
  | .atomic a, here => Places.collect n (fun i => a.first n i some) here
  | .look behind negated a, here => here &&& Places.around n behind negated (a.reach n)

-- The first match that begins at a place and is followed by what has to follow, where earlier
-- alternatives come first and repetitions take as much, or as little, as they like.
def first (n : Nat) : Regex Places Places → Nat → (Nat → Option Nat) → Option Nat
  | .nothing, _, _ => none
  | .empty, i, follow => follow i
  | .anchor places, i, follow => bif places.testBit i then follow i else none
  | .set places, i, follow => bif places.testBit i then follow (i + 1) else none
  | .seq a b, i, follow => a.first n i fun j => b.first n j follow
  | .either a b, i, follow => (a.first n i follow).orElse fun _ => b.first n i follow
  | .repeated a least most greedy, i, follow =>
    demand (a.first n) (offer (a.first n) greedy follow (most.elim (n + 1) (· - least))) least i
  | .group a, i, follow => a.first n i follow
  | .atomic a, i, follow => (a.first n i some).bind follow
  | .look behind negated a, i, follow =>
    bif (Places.around n behind negated (a.reach n)).testBit i then follow i else none
end

end Regex

namespace Pattern

-- Whether the pattern matches somewhere in the text.
def search (p : Pattern) (text : String) : Bool :=
  let cs := text.toList
  let placed := Regex.map (fun s => Places.before (fun c => s.has c) cs)
    (fun a => Places.between (fun previous next => a.holds previous next) none cs) p
  placed.reach cs.length (Places.all cs.length) != 0

end Pattern
end TwinShape
