import TwinShape.Pattern.Reader

namespace TwinShape
namespace Pattern

open Spelling

inductive Grip where
  | whole
  -- A place cannot be repeated, and neither can what is not there.
  | place
  | blank
deriving DecidableEq

inductive Enclosure where
  | capturing
  | scoped
  | atomic
  | look (behind negated : Bool)

structure Draft where
  flags : Flags
  enclosure : Enclosure
  branches : List Pattern
  items : List (Pattern × Grip)
  -- Whether the last item can still be followed by a repetition.
  isFresh : Bool

namespace Draft

def start (flags : Flags) (enclosure : Enclosure) : Draft := ⟨flags, enclosure, [], [], false⟩

def push (d : Draft) (p : Pattern) (grip : Grip) : Draft :=
  { d with items := (p, grip) :: d.items, isFresh := true }

def pushSet (d : Draft) (s : CharSet) : Draft := d.push (.set s) .whole

def written (d : Draft) : List (Pattern × Grip) := d.items.reverse.filter (·.2 ≠ .blank)

def branch (d : Draft) : Pattern := .seqAll (d.written.map (·.1))

def allBranches (d : Draft) : List Pattern := (d.branch :: d.branches).reverse

def content (d : Draft) : Pattern × Grip :=
  (.eitherAll d.allBranches,
    match d.branches, d.written with
    | [], [] => .blank
    | [], [(_, grip)] => grip
    | _, _ => .whole)

-- What a closed group is in the group around it. Looking behind goes back a fixed way.
def close? (parent d : Draft) : Option Draft :=
  let (p, grip) := d.content
  let around := { parent with flags := d.flags }
  match d.enclosure with
  | .scoped => some (parent.push p grip)
  | .capturing => some (around.push (.group p) .whole)
  | .atomic => some (around.push (.atomic p) .whole)
  | .look behind negated =>
    bif behind && !d.allBranches.all fun p => p.width?.isSome then none
    else some (around.push (.look behind negated p) .place)

def bar (d : Draft) : Draft :=
  { d with branches := d.branch :: d.branches, items := [], isFresh := false }

-- Repeats the last item. A question mark takes little of it, a plus sign afterwards
-- keeps what has been taken.
def repeat? (d : Draft) (least : Nat) (most : Option Nat) (cs : List Char) :
    Option (Draft × List Char) :=
  match d.isFresh, d.items with
  | true, (p, .whole) :: items =>
    let (reluctant, cs) := match cs with
      | '?' :: rest => (true, rest)
      | cs => (false, cs)
    let p : Pattern := .repeated p least most (reluctant == d.flags.lazy)
    let (p, cs) := match cs with
      | '+' :: rest => (Regex.atomic p, rest)
      | cs => (p, cs)
    some ({ d with items := (p, .whole) :: items, isFresh := false }, cs)
  | _, _ => none

end Draft

def plainBounds? (cs : List Char) : Option (Nat × Option Nat × List Char) :=
  let least := cs.takeWhile Char.isDigit
  bif least.isEmpty && cs.head? != some ',' then none
  else
    match cs.drop least.length with
    | '}' :: rest => some (numeral least, some (numeral least), rest)
    | ',' :: rest =>
      let most := rest.takeWhile Char.isDigit
      match rest.drop most.length with
      | '}' :: rest => some (numeral least, bif most.isEmpty then none else some (numeral most), rest)
      | _ => none
    | _ => none

def classText (nesting : Nat) : List Char → Option (List Char × List Char)
  | [] => none
  | '\\' :: c :: rest => (classText nesting rest).map fun (text, rest) => ('\\' :: c :: text, rest)
  | '[' :: rest => (classText (nesting + 1) rest).map fun (text, rest) => ('[' :: text, rest)
  | ']' :: rest =>
    match nesting with
    | 0 => some ([']'], rest)
    | nesting + 1 => (classText nesting rest).map fun (text, rest) => (']' :: text, rest)
  | c :: rest => (classText nesting rest).map fun (text, rest) => (c :: text, rest)

def bracketText : List Char → Option (List Char × List Char)
  | '^' :: ']' :: rest => (classText 0 rest).map fun (text, rest) => ('^' :: ']' :: text, rest)
  | ']' :: rest => (classText 0 rest).map fun (text, rest) => (']' :: text, rest)
  | cs => classText 0 cs

def schemaClass? (narrow fold : Bool) (cs : List Char) : Option (CharSet × List Char) :=
  match bracketText cs with
  | some (text, rest) =>
    match bracketClass narrow fold text with
    | .ok ((s, _), []) => some (s, rest)
    | _ => none
  | none => none

-- Escaped controls and the kinds of word edges are no part of a schema's pattern.
def schemaEscape? (narrow : Bool) (d : Draft) (cs : List Char) : Option (Draft × List Char) :=
  match escape cs, cs with
  | .error _, _ | _, [] | _, 'b' :: '{' :: _ => none
  | .ok (e, rest), c :: _ =>
    if c < ' ' then none
    else
      match e with
      | .char c => some (d.pushSet (d.flags.char c), rest)
      | .bell => some (d.pushSet (.single '\x07'), rest)
      | .named name negated => some (d.pushSet (namedSet narrow d.flags.fold name negated), rest)
      | .anchor a => some (d.push (.anchor a) .place, rest)

def Enclosure.ofForm? : GroupForm → Option (Enclosure × Option Flags)
  | .capturing name =>
    bif name.any fun name => name.toList.any fun c => c == '.' || c == '[' || c == ']' then none
    else some (.capturing, none)
  | .scoped f => some (.scoped, some f)
  | .atomic => some (.atomic, none)
  | .look behind negated => some (.look behind negated, none)
  | .flags _ => none

def groupLimit : Nat := 63

def schemaStep (narrow : Bool) (d : Draft) (outer : List Draft) (cs : List Char) :
    Option ((Draft × List Draft) × List Char) :=
  let here (found : Option (Draft × List Char)) :=
    found.map fun (d, rest) => ((d, outer), rest)
  match cs with
  | [] => none
  | '^' :: rest => some ((d.push (.anchor d.flags.start?) .place, outer), rest)
  | '$' :: rest => some ((d.push (.anchor d.flags.finish?) .place, outer), rest)
  | '.' :: rest => some ((d.pushSet d.flags.dot, outer), rest)
  | '|' :: rest => some ((d.bar, outer), rest)
  | '(' :: rest =>
    bif groupLimit ≤ outer.length then none
    else
      match groupForm d.flags rest with
      | .ok (.flags f, rest) => some ((({ d with flags := f } : Draft).push .empty .blank, outer), rest)
      | .ok (form, rest) =>
        (Enclosure.ofForm? form).map fun (enclosure, f) =>
          ((.start (f.getD d.flags) enclosure, d :: outer), rest)
      | .error _ => none
  | ')' :: rest =>
    match outer with
    | [] => none
    | parent :: outer => (parent.close? d).map fun d => ((d, outer), rest)
  | '*' :: rest => here (d.repeat? 0 none rest)
  | '+' :: rest => here (d.repeat? 1 none rest)
  | '?' :: rest => here (d.repeat? 0 (some 1) rest)
  | '{' :: rest =>
    match d.isFresh, plainBounds? rest with
    | true, some (least, most, rest) => here (d.repeat? least most rest)
    | _, _ => some ((d.pushSet (.single '{'), outer), rest)
  | '[' :: rest => here ((schemaClass? narrow d.flags.fold rest).map fun (s, rest) => (d.pushSet s, rest))
  | '\\' :: rest => here (schemaEscape? narrow d rest)
  | c :: rest => some ((d.pushSet (d.flags.char c), outer), rest)

def schemaFrom (narrow : Bool) (d : Draft) (outer : List Draft) (cs : List Char) : Option Pattern :=
  if cs.isEmpty then bif outer.isEmpty then some d.content.1 else none
  else
    match schemaStep narrow d outer cs with
    | some ((d, outer), rest) =>
      if rest.length < cs.length then schemaFrom narrow d outer rest else none
    | none => none
termination_by cs.length

-- A schema may write a control character as an escaped `c` and a letter.
def controlled : List Char → List Char
  | '\\' :: c :: rest =>
    match c, rest with
    | 'c', l :: rest =>
      if l.isAlpha then Char.ofNat (l.toNat % 32) :: controlled rest
      else '\\' :: 'c' :: controlled (l :: rest)
    | c, rest => '\\' :: c :: controlled rest
  | c :: rest => c :: controlled rest
  | [] => []

-- Whether a text is spelled like the pattern of a definition, and how: its classes are narrow
-- then. Texts that look around are given the benefit of the doubt, as they stand.
def spelledForSchema? (text : String) : Option (Bool × List Char) :=
  let plain := controlled text.toList
  match read true (String.ofList plain) with
  | .ok _ => some (true, plain)
  | .error .looksAround => some (false, text.toList)
  | .error .malformed => none

def isSpelledForSchema (text : String) : Bool := (spelledForSchema? text).isSome

-- The pattern that a schema gives, or `none` if it is none. A repetition is not repeated but
-- kept, and braces without a plain count stand for themselves.
def ofSchema? (text : String) : Option Pattern :=
  match spelledForSchema? text with
  | some (narrow, cs) =>
    match schemaFrom narrow (.start .start .capturing) [] cs with
    | some p => bif p.fits then some p else none
    | none => none
  | none => none

end Pattern
end TwinShape
