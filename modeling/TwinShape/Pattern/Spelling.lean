import TwinShape.Pattern.Expression

namespace TwinShape

inductive Misspelling where
  | looksAround
  | malformed
deriving DecidableEq

abbrev Found (α : Type) := Except Misspelling (α × List Char)

namespace Spelling

inductive Escape where
  | char (c : Char)
  | bell
  | named (name : ClassName) (negated : Bool)
  | anchor (a : Anchor)

def hexDigit? (c : Char) : Option Nat :=
  if c.isDigit then some (c.toNat - 48)
  else if 'a' ≤ c ∧ c ≤ 'f' then some (c.toNat - 87)
  else if 'A' ≤ c ∧ c ≤ 'F' then some (c.toNat - 55)
  else none

def charOf? (digits : List Char) : Option Char := do
  let digits ← digits.mapM hexDigit?
  let code := digits.foldl (fun code d => code * 16 + d) 0
  if digits ≠ [] ∧ code.isValidChar then some (Char.ofNat code) else none

def hex (n : Nat) : List Char → Found Escape
  | '{' :: rest =>
    match charOf? (rest.takeWhile (· != '}')), rest.dropWhile (· != '}') with
    | some c, _ :: rest => .ok (.char c, rest)
    | _, _ => .error .malformed
  | cs =>
    match charOf? (cs.take n) with
    | some c => if n ≤ cs.length then .ok (.char c, cs.drop n) else .error .malformed
    | none => .error .malformed

def controls : List (Char × Char) :=
  [('f', '\x0c'), ('n', '\n'), ('r', '\r'), ('t', '\t'), ('v', '\x0b')]

def classes : List (Char × ClassName × Bool) :=
  [('d', .digit, false), ('D', .digit, true), ('w', .word, false), ('W', .word, true),
    ('s', .space, false), ('S', .space, true)]

def anchors : List (Char × Anchor) :=
  [('A', .start), ('z', .finish), ('b', .wordEdge), ('B', .noWordEdge), ('<', .wordStart),
    ('>', .wordFinish)]

def edges : List (String × Anchor) :=
  [("start", .wordStart), ("end", .wordFinish), ("start-half", .noWordBefore),
    ("end-half", .noWordAfter)]

def edge : List Char → Found Escape
  | '{' :: c :: rest =>
    if c.isAlpha ∨ c = '-' then
      let name := (c :: rest).takeWhile fun c => c.isAlpha || c == '-'
      match edges.lookup (String.ofList name), (c :: rest).drop name.length with
      | some a, '}' :: rest => .ok (.anchor a, rest)
      | _, _ => .error .malformed
    else .ok (.anchor .wordEdge, '{' :: c :: rest)
  | ['{'] => .error .malformed
  | cs => .ok (.anchor .wordEdge, cs)

def escape : List Char → Found Escape
  | [] => .error .malformed
  | 'a' :: rest => .ok (.bell, rest)
  | 'b' :: rest => edge rest
  | 'x' :: rest => hex 2 rest
  | 'u' :: rest => hex 4 rest
  | 'U' :: rest => hex 8 rest
  | c :: rest =>
    match controls.lookup c, classes.lookup c, anchors.lookup c with
    | some c, _, _ => .ok (.char c, rest)
    | _, some (name, negated), _ => .ok (.named name negated, rest)
    | _, _, some a => .ok (.anchor a, rest)
    | none, none, none =>
      bif c.isAlphanum || 128 ≤ c.toNat then .error .malformed else .ok (.char c, rest)

def namedSet (inSchema fold : Bool) (name : ClassName) (negated : Bool) : CharSet :=
  .complementIf negated (bif inSchema then .foldedIf fold (.named name.plain) else .named name)

inductive Joint where
  | both | except | differing

def Joint.join : Joint → CharSet → CharSet → CharSet
  | .both => .both
  | .except => .except
  | .differing => .differing

structure Brackets where
  negated : Bool
  left : Option (CharSet × Joint)
  items : CharSet
  count : Nat
  depth : Nat

namespace Brackets

def add (b : Brackets) (s : CharSet) : Brackets :=
  { b with items := s.add b.items, count := b.count + 1 }

def value (fold : Bool) (b : Brackets) : CharSet :=
  match b.left with
  | none => b.items
  | some (left, joint) => joint.join (.foldedIf fold left) (.foldedIf fold b.items)

def joined (fold : Bool) (b : Brackets) (joint : Joint) : Brackets :=
  { b with left := some (b.value fold, joint), items := .nothing }

-- A class is folded before it is negated: neither case of a letter is in the negation.
def set (fold : Bool) (b : Brackets) : CharSet :=
  .complementIf b.negated (.foldedIf fold (b.value fold))

def height (b : Brackets) : Nat := b.depth + 1 + (decide (2 ≤ b.count)).toNat

def close (fold : Bool) (parent b : Brackets) : Brackets :=
  { parent.add (b.set fold) with depth := max parent.depth b.height }

end Brackets

-- What follows an opening bracket. Hyphens at the front are members, and so is a
-- bracket that would close at once.
def openBracket (cs : List Char) : Brackets × List Char :=
  let (negated, cs) := match cs with
    | '^' :: rest => (true, rest)
    | cs => (false, cs)
  let hyphens := (cs.takeWhile (· == '-')).map CharSet.single
  let b := hyphens.foldl Brackets.add ⟨negated, none, .nothing, 0, 0⟩
  match hyphens, cs with
  | [], ']' :: rest => (b.add (.single ']'), rest)
  | _, cs => (b, cs.drop hyphens.length)

def colonClasses : List (String × List (Char × Char)) :=
  [("alnum", [('0', '9'), ('A', 'Z'), ('a', 'z')]), ("alpha", [('A', 'Z'), ('a', 'z')]),
    ("ascii", [('\x00', '\x7f')]), ("blank", [('\t', '\t'), (' ', ' ')]),
    ("cntrl", [('\x00', '\x1f'), ('\x7f', '\x7f')]), ("digit", [('0', '9')]),
    ("graph", [('!', '~')]), ("lower", [('a', 'z')]), ("print", [(' ', '~')]),
    ("punct", [('!', '/'), (':', '@'), ('[', '\x60'), ('\x7b', '~')]),
    ("space", [('\t', '\r'), (' ', ' ')]), ("upper", [('A', 'Z')]),
    ("word", [('0', '9'), ('A', 'Z'), ('_', '_'), ('a', 'z')]),
    ("xdigit", [('0', '9'), ('A', 'F'), ('a', 'f')])]

def colonClass? (fold : Bool) (cs : List Char) : Option (CharSet × List Char) :=
  let (negated, cs) := match cs with
    | '^' :: rest => (true, rest)
    | cs => (false, cs)
  match colonClasses.lookup (String.ofList (cs.takeWhile (· != ':'))), cs.dropWhile (· != ':') with
  | some ranges, ':' :: ']' :: rest =>
    let set := ranges.foldl (fun s (low, high) => CharSet.add (.range low high) s) .nothing
    some (.complementIf negated (.foldedIf fold set), rest)
  | _, _ => none

inductive ClassPart where
  | openBracket (b : Brackets)
  | closeBracket
  | joint (j : Joint)
  | item (s : CharSet)

def classAtom : List Char → Found Escape
  | [] => .error .malformed
  | '\\' :: rest => escape rest
  | c :: rest => .ok (.char c, rest)

def endOf? : Escape → Option Char
  | .char c => some c
  | .bell => some '\x07'
  | .named .. | .anchor _ => none

-- A hyphen makes a range unless the class closes right after it or another one follows.
def classItem (inSchema fold : Bool) (cs : List Char) :
    Except Misspelling (ClassPart × List Char) := do
  let (low, rest) ← classAtom cs
  let alone : Found ClassPart :=
    match low, endOf? low with
    | .named name negated, _ => .ok (.item (namedSet inSchema fold name negated), rest)
    | _, some c => .ok (.item (.single c), rest)
    | _, none => .error .malformed
  match rest with
  | '-' :: ']' :: _ | '-' :: '-' :: _ => alone
  | '-' :: rest =>
    let (high, rest) ← classAtom rest
    match endOf? low, endOf? high with
    | some low, some high =>
      if low ≤ high then .ok (.item (.range low high), rest) else .error .malformed
    | _, _ => .error .malformed
  | _ => alone

def classPart (inSchema fold : Bool) : List Char → Found ClassPart
  | ']' :: rest => .ok (.closeBracket, rest)
  | '&' :: '&' :: rest => .ok (.joint .both, rest)
  | '-' :: '-' :: rest => .ok (.joint .except, rest)
  | '~' :: '~' :: rest => .ok (.joint .differing, rest)
  | '[' :: rest =>
    let plain : Found ClassPart :=
      let (b, rest) := openBracket rest
      .ok (.openBracket b, rest)
    match rest with
    | ':' :: named => (colonClass? fold named).elim plain fun (s, rest) => .ok (.item s, rest)
    | _ => plain
  | cs => classItem inSchema fold cs

def classRest (inSchema fold : Bool) (b : Brackets) (outer : List Brackets) (cs : List Char) :
    Found (CharSet × Nat) :=
  match classPart inSchema fold cs with
  | .error e => .error e
  | .ok (part, rest) =>
    if rest.length < cs.length then
      match part, outer with
      | .item s, outer => classRest inSchema fold (b.add s) outer rest
      | .joint j, outer => classRest inSchema fold (b.joined fold j) outer rest
      | .openBracket inner, outer => classRest inSchema fold inner (b :: outer) rest
      | .closeBracket, [] => .ok ((b.set fold, b.height), rest)
      | .closeBracket, parent :: outer => classRest inSchema fold (parent.close fold b) outer rest
    else .error .malformed
termination_by cs.length

def bracketClass (inSchema fold : Bool) (cs : List Char) : Found (CharSet × Nat) :=
  let (b, rest) := openBracket cs
  classRest inSchema fold b [] rest

structure Flags where
  fold : Bool
  -- The anchors look at lines, and the dot at them too unless it takes line ends.
  lines : Bool
  dots : Bool
  lazy : Bool

namespace Flags

def start : Flags := ⟨false, false, false, false⟩

def set (f : Flags) (on : Bool) : Char → Option Flags
  | 'i' => some { f with fold := on }
  | 'm' => some { f with lines := on }
  | 's' => some { f with dots := on }
  | 'U' => some { f with lazy := on }
  | 'u' => bif on then some f else none
  | _ => none

def change? (f : Flags) (on : Bool) (given : List Char) : List Char → Option Flags
  | [] => if given.head? = some '-' then none else some f
  | c :: rest =>
    if c ∈ given then none
    else if c = '-' then f.change? false (c :: given) rest
    else (f.set on c).bind fun f => f.change? on (c :: given) rest

def dot (f : Flags) : CharSet :=
  bif f.dots then .complement .nothing else .complement (.single '\n')

def char (f : Flags) (c : Char) : CharSet := .foldedIf f.fold (.single c)

def start? (f : Flags) : Anchor := bif f.lines then .lineStart else .start

def finish? (f : Flags) : Anchor := bif f.lines then .lineFinish else .finish

end Flags

inductive GroupForm where
  | capturing (name : Option String)
  | scoped (f : Flags)
  | flags (f : Flags)
  | atomic
  | look (behind negated : Bool)

def isNameStart (c : Char) : Bool :=
  c == '_' || c.isAlpha || (128 ≤ c.toNat && Ranges.words.has c)

def isNamePart (c : Char) : Bool :=
  isNameStart c || c.isDigit || c == '.' || c == '[' || c == ']'

def groupName (cs : List Char) : Found GroupForm :=
  let name := cs.takeWhile (· != '>')
  match cs.drop name.length with
  | _ :: rest =>
    bif name.head?.any isNameStart && name.all isNamePart then
      .ok (.capturing (some (String.ofList name)), rest)
    else .error .malformed
  | [] => .error .malformed

def groupForm (f : Flags) : List Char → Found GroupForm
  | '?' :: '=' :: rest => .ok (.look false false, rest)
  | '?' :: '!' :: rest => .ok (.look false true, rest)
  | '?' :: '<' :: '=' :: rest => .ok (.look true false, rest)
  | '?' :: '<' :: '!' :: rest => .ok (.look true true, rest)
  | '?' :: 'P' :: '<' :: rest | '?' :: '<' :: rest => groupName rest
  | '?' :: '>' :: rest => .ok (.atomic, rest)
  | '?' :: rest =>
    let given := rest.takeWhile fun c => c != ':' && c != ')'
    match f.change? true [] given, rest.drop given.length with
    | some f, ':' :: rest => .ok (.scoped f, rest)
    | some f, ')' :: rest => if given = [] then .error .malformed else .ok (.flags f, rest)
    | _, _ => .error .malformed
  | rest => .ok (.capturing none, rest)

end Spelling
end TwinShape
