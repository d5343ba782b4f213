import TwinShape.Pattern.Size
import TwinShape.Pattern.Spelling

namespace TwinShape
namespace Pattern

open Spelling

structure Piece where
  regex : Pattern
  height : Nat

namespace Piece

-- Pieces nest one level deeper when there are several of them.
def heightOf (pieces : List Piece) (count : Nat) : Nat :=
  pieces.foldl (fun height p => max height p.height) 0 + (decide (2 ≤ count)).toNat

end Piece

-- A group that is being read: finished branches and the items of the open one, both
-- in reverse. A change of flags is an item that nothing can repeat.
structure Level where
  flags : Flags
  captures : Bool
  branches : List Piece
  items : List (Option Piece)

namespace Level

def start (flags : Flags) (captures : Bool) : Level := ⟨flags, captures, [], []⟩

def push (l : Level) (p : Piece) : Level := { l with items := some p :: l.items }

def branch (l : Level) : Piece :=
  let pieces := l.items.reverse.filterMap id
  ⟨.seqAll (pieces.map (·.regex)), Piece.heightOf pieces l.items.length⟩

def piece (l : Level) : Piece :=
  let branches := (l.branch :: l.branches).reverse
  ⟨.eitherAll (branches.map (·.regex)), Piece.heightOf branches branches.length⟩

def closed (l : Level) : Piece :=
  let p := l.piece
  ⟨bif l.captures then .group p.regex else p.regex, p.height + 1⟩

end Level

inductive Token where
  | piece (p : Piece)
  | bar
  | openGroup (g : GroupForm)
  | closeGroup
  | repeated (least : Nat) (most : Option Nat)

def numeral (digits : List Char) : Nat := digits.foldl (fun n c => n * 10 + (c.toNat - 48)) 0

def count (cs : List Char) : Option Nat × List Char :=
  let cs := cs.dropWhile Ranges.blanks.has
  let digits := cs.takeWhile Char.isDigit
  let n := numeral digits
  (bif digits.isEmpty || 4294967296 ≤ n then none else some n,
    (cs.drop digits.length).dropWhile Ranges.blanks.has)

def bounds (cs : List Char) : Found Token :=
  match count cs with
  | (some least, '}' :: rest) => .ok (.repeated least (some least), rest)
  | (some least, ',' :: '}' :: rest) => .ok (.repeated least none, rest)
  | (some least, ',' :: rest) =>
    match count rest with
    | (some most, '}' :: rest) =>
      if least ≤ most then .ok (.repeated least (some most), rest) else .error .malformed
    | _ => .error .malformed
  | _ => .error .malformed

-- Preferring fewer repetitions changes which match is found, not whether there is one.
def dropReluctant : List Char → List Char
  | '?' :: rest => rest
  | cs => cs

def ofEscape (inSchema : Bool) (f : Flags) : Escape → Option Pattern
  | .char c => some (.set (f.char c))
  | .bell => bif inSchema then none else some (.set (f.char '\x07'))
  | .named name negated => some (.set (namedSet inSchema f.fold name negated))
  | .anchor a => some (.anchor a)

def token (inSchema : Bool) (f : Flags) : List Char → Found Token
  | [] => .error .malformed
  | '^' :: rest => .ok (.piece ⟨.anchor f.start?, 0⟩, rest)
  | '$' :: rest => .ok (.piece ⟨.anchor f.finish?, 0⟩, rest)
  | '.' :: rest => .ok (.piece ⟨.set f.dot, 0⟩, rest)
  | '|' :: rest => .ok (.bar, rest)
  | '(' :: rest => (groupForm f rest).map fun (g, rest) => (.openGroup g, rest)
  | ')' :: rest => .ok (.closeGroup, rest)
  | '*' :: rest => .ok (.repeated 0 none, dropReluctant rest)
  | '+' :: rest => .ok (.repeated 1 none, dropReluctant rest)
  | '?' :: rest => .ok (.repeated 0 (some 1), dropReluctant rest)
  | '{' :: rest => (bounds rest).map fun (t, rest) => (t, dropReluctant rest)
  | '[' :: rest =>
    (bracketClass inSchema f.fold rest).map fun ((s, height), rest) =>
      (.piece ⟨.set s, height⟩, rest)
  | '\\' :: rest =>
    match escape rest with
    | .ok (e, rest) =>
      match ofEscape inSchema f e with
      | some r => .ok (.piece ⟨r, 0⟩, rest)
      | none => .error .malformed
    | .error e => .error e
  | c :: rest => .ok (.piece ⟨.set (f.char c), 0⟩, rest)

def heightLimit : Nat := 250

def readFrom (inSchema : Bool) (level : Level) (outer : List Level) (names : List String)
    (cs : List Char) : Except Misspelling Pattern :=
  if cs.isEmpty then
    let p := level.piece
    if outer.isEmpty ∧ p.height ≤ heightLimit then .ok p.regex else .error .malformed
  else
    match token inSchema level.flags cs with
    | .error e => .error e
    | .ok (t, rest) =>
      if rest.length < cs.length then
        match t with
        | .piece p => readFrom inSchema (level.push p) outer names rest
        | .bar =>
          readFrom inSchema { level with branches := level.branch :: level.branches, items := [] }
            outer names rest
        | .openGroup (.capturing name) =>
          bif name.any names.contains then .error .malformed
          else
            readFrom inSchema (.start level.flags true) (level :: outer) (name.toList ++ names) rest
        | .openGroup (.scoped f) =>
          readFrom inSchema (.start f false) (level :: outer) names rest
        | .openGroup (.flags f) =>
          readFrom inSchema { level with flags := f, items := none :: level.items } outer names rest
        | .openGroup (.look ..) => .error .looksAround
        | .openGroup .atomic => .error .malformed
        | .closeGroup =>
          match outer with
          | [] => .error .malformed
          | parent :: outer => readFrom inSchema (parent.push level.closed) outer names rest
        | .repeated least most =>
          match level.items with
          | some p :: items =>
            let p : Piece := ⟨.repeated p.regex least most true, p.height + 1⟩
            readFrom inSchema { level with items := some p :: items } outer names rest
          | _ => .error .malformed
      else .error .malformed
termination_by cs.length

def read (inSchema : Bool) (text : String) : Except Misspelling Pattern :=
  readFrom inSchema (.start .start false) [] [] text.toList

-- The pattern that a definition gives, or `none` if it is none. Definitions do not look around
-- or back, and their patterns must not be too large.
def parse? (text : String) : Option Pattern :=
  match read false text with
  | .ok p => bif p.fits then some p else none
  | .error _ => none

end Pattern
end TwinShape
