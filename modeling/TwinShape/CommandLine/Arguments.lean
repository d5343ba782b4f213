import TwinShape.Declaration.Document
import TwinShape.Schema.Emission

namespace TwinShape

-- What an option expects behind its name.
inductive Expects where
  -- Nothing.
  | nothing
  -- One text, given at most once.
  | text
  -- One text that names a file, so it cannot be empty.
  | path
  -- One text each time it is given.
  | texts

structure OptionForm where
  name : String
  short : Option Char
  expects : Expects

structure CommandForm where
  options : List OptionForm
  positionals : List Bool

-- What has been read so far: options with their values, a flag with none.
structure Matches where
  options : List (String × String)
  positionals : List String

namespace Matches

def empty : Matches := ⟨[], []⟩

def has (m : Matches) (name : String) : Bool := m.options.any (·.1 == name)

def value? (m : Matches) (name : String) : Option String := m.options.lookup name

def values (m : Matches) (name : String) : List String :=
  (m.options.filter (·.1 == name)).map (·.2)

end Matches

-- Why reading ends without a command.
inductive Stop where
  | misuse | help | version

namespace CommandForm

def verbose : OptionForm := ⟨"verbose", some 'v', .nothing⟩

def find? (f : CommandForm) (name : String) : Option OptionForm :=
  (verbose :: f.options).find? (·.name == name)

def findShort? (f : CommandForm) (c : Char) : Option OptionForm :=
  (verbose :: f.options).find? (·.short == some c)

def addFlag (m : Matches) (o : OptionForm) : Except Stop Matches :=
  bif m.has o.name then .error .misuse else .ok { m with options := m.options ++ [(o.name, "")] }

def addValue (m : Matches) (o : OptionForm) (value : String) : Except Stop Matches :=
  let again := match o.expects with
    | .texts => false
    | _ => m.has o.name
  let blank := match o.expects with
    | .path => value == ""
    | _ => false
  bif again || blank then .error .misuse
  else .ok { m with options := m.options ++ [(o.name, value)] }

def addPositional (f : CommandForm) (m : Matches) (value : String) : Except Stop Matches :=
  match f.positionals[m.positionals.length]? with
  | none => .error .misuse
  | some isPath =>
    bif isPath && value == "" then .error .misuse
    else .ok { m with positionals := m.positionals ++ [value] }

def addShorts (f : CommandForm) (m : Matches) : List Char → Except Stop Matches
  | [] => .ok m
  | c :: rest =>
    match f.findShort? c with
    | some o => do addShorts f (← addFlag m o) rest
    | none => .error (if c = 'h' then .help else .misuse)

def splitAtEquals : List Char → String × Option String
  | [] => ("", none)
  | '=' :: rest => ("", some (String.ofList rest))
  | c :: rest =>
    let (name, value) := splitAtEquals rest
    (String.ofList (c :: name.toList), value)

-- A lone dash is a value like any other.
def isValue (token : String) : Bool :=
  match token.toList with
  | '-' :: _ :: _ => false
  | _ => true

-- Reads the arguments behind a command. After `--` all that follows stands on its own.
def read (f : CommandForm) (m : Matches) : (onlyPositionals : Bool) → List String →
    Except Stop Matches
  | _, [] => if m.positionals.length = f.positionals.length then .ok m else .error .misuse
  | true, token :: rest => do read f (← f.addPositional m token) true rest
  | false, token :: rest =>
    match token.toList with
    | ['-', '-'] => read f m true rest
    | '-' :: '-' :: name =>
      let (name, attached) := splitAtEquals name
      match f.find? name with
      | none => .error (if name == "help" && attached.isNone then .help else .misuse)
      | some o =>
        match o.expects, attached, rest with
        | .nothing, none, rest => do read f (← addFlag m o) false rest
        | .nothing, some _, _ => .error .misuse
        | _, some value, rest => do read f (← addValue m o value) false rest
        | _, none, value :: rest =>
          bif isValue value then do read f (← addValue m o value) false rest else .error .misuse
        | _, none, [] => .error .misuse
    | '-' :: c :: shorts => do read f (← f.addShorts m (c :: shorts)) false rest
    | _ => do read f (← f.addPositional m token) false rest

end CommandForm

inductive Command where
  | types (manifest output : Option String) (only : List String) (style : DeclarationStyle)
  | schema (manifest output : Option String) (pretty : Bool) (options : SchemaOptions)
  | diff (manifest : Option String) (json : Bool)
  | validate (manifest : Option String) (definition payload : String) (json : Bool)
  | lint (manifest : Option String) (json strict quiet : Bool)

namespace Command

def manifestForm : OptionForm := ⟨"manifest", none, .path⟩

def form? : String → Option CommandForm
  | "types" => some ⟨[manifestForm, ⟨"output", none, .path⟩, ⟨"internal-suffix", none, .text⟩,
      ⟨"only", none, .texts⟩, ⟨"no-header", none, .nothing⟩], []⟩
  | "schema" => some ⟨[manifestForm, ⟨"output", none, .path⟩, ⟨"pretty", none, .nothing⟩,
      ⟨"root", none, .text⟩, ⟨"id", none, .text⟩, ⟨"title", none, .text⟩,
      ⟨"description", none, .text⟩, ⟨"defs", none, .nothing⟩], []⟩
  | "diff" => some ⟨[manifestForm, ⟨"json", none, .nothing⟩], []⟩
  | "validate" => some ⟨[manifestForm, ⟨"json", none, .nothing⟩], [false, true]⟩
  | "lint" => some ⟨[manifestForm, ⟨"format", none, .text⟩, ⟨"strict", none, .nothing⟩,
      ⟨"quiet", some 'q', .nothing⟩], []⟩
  | _ => none

def ofMatches? (name : String) (m : Matches) : Option Command :=
  let manifest := m.value? "manifest"
  match name, m.positionals with
  | "types", [] =>
    let usual := DeclarationStyle.usual
    some (.types manifest (m.value? "output") (m.values "only")
      ⟨(m.value? "internal-suffix").getD usual.internalSuffix, [],
        bif m.has "no-header" then none else usual.header⟩)
  | "schema", [] =>
    some (.schema manifest (m.value? "output") (m.has "pretty")
      ⟨m.value? "root", m.value? "id", m.value? "title", m.value? "description",
        bif m.has "defs" then .defs else .definitions⟩)
  | "diff", [] => some (.diff manifest (m.has "json"))
  | "validate", [definition, payload] => some (.validate manifest definition payload (m.has "json"))
  | "lint", [] =>
    some (.lint manifest (m.value? "format" == some "json") (m.has "strict") (m.has "quiet"))
  | _, _ => none

def manifest : Command → Option String
  | .types manifest .. | .schema manifest .. | .diff manifest _ | .validate manifest .. |
    .lint manifest .. => manifest

def payload? : Command → Option String
  | .validate _ _ payload _ => some payload
  | _ => none

end Command

structure Invocation where
  verbose : Bool
  command : Command

namespace Invocation

def leadingShorts (verbose : Bool) : List Char → Except Stop Bool
  | [] => .ok verbose
  | 'v' :: rest => if verbose then .error .misuse else leadingShorts true rest
  | 'V' :: _ => .error .version
  | 'h' :: _ => .error .help
  | _ :: _ => .error .misuse

def helpOn : List String → Stop
  | [] => .help
  | [name] => if (Command.form? name).isSome ∨ name = "help" then .help else .misuse
  | _ => .misuse

def readFrom (verbose : Bool) : List String → Except Stop Invocation
  | [] => .error .misuse
  | token :: rest =>
    match token.toList with
    | '-' :: '-' :: name =>
      match String.ofList name with
      | "verbose" => if verbose then .error .misuse else readFrom true rest
      | "version" => .error .version
      | "help" => .error .help
      | _ => .error .misuse
    | '-' :: c :: shorts => do readFrom (← leadingShorts verbose (c :: shorts)) rest
    | _ =>
      match Command.form? token with
      | none => .error (if token = "help" then helpOn rest else .misuse)
      | some form => do
        let m ← form.read .empty false rest
        match Command.ofMatches? token m with
        | some command => .ok ⟨verbose || m.has CommandForm.verbose.name, command⟩
        | none => .error .misuse

def read (arguments : List String) : Except Stop Invocation := readFrom false arguments

end Invocation
end TwinShape
