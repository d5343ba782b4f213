import TwinShape.Engines
import TwinShape.Json.Printer
import TwinShape.Pattern.Matching
import TwinShape.Pattern.Reader
import TwinShape.Schema.Reading

namespace TwinShape

inductive Complaint where
  | wrongType (instance_ : Json) (names : List TypeName)
  | missing (property : String)
  | unexpected (properties : List String)
  | refused (instance_ : Json)
  | noAlternative (instance_ : Json)
  | notListed (instance_ : Json) (values : List Json)
  | notConstant (value : Json)
  | mismatch (instance_ : Json) (pattern : String)

def Complaint.message : Complaint → String
  | .wrongType j [name] => j.compact ++ " is not of type " ++ Json.quote name.name
  | .wrongType j names =>
    j.compact ++ " is not of types " ++
      ", ".intercalate ((TypeName.all.filter names.contains).map fun name => Json.quote name.name)
  | .missing property => Json.quote property ++ " is a required property"
  | .unexpected properties =>
    "Additional properties are not allowed (" ++
      ", ".intercalate (properties.map fun p => "'" ++ p ++ "'") ++
      (match properties with
        | [_] => " was unexpected)"
        | _ => " were unexpected)")
  | .refused j => "False schema does not allow " ++ j.compact
  | .noAlternative j =>
    j.compact ++ " is not valid under any of the schemas listed in the 'anyOf' keyword"
  | .notListed j values => j.compact ++ " is not one of " ++ (Json.array values).compact
  | .notConstant value => value.compact ++ " was expected"
  | .mismatch j pattern => j.compact ++ " does not match \"" ++ pattern ++ "\""

structure Violation where
  place : Pointer
  complaint : Complaint

namespace Violation

def here (c : Complaint) : Evaluation Violation := .here ⟨[], c⟩

def expect (holds : Bool) (c : Complaint) : Evaluation Violation := bif holds then .clean else here c

def under (segment : String) (e : Evaluation Violation) : Evaluation Violation :=
  e.map fun v => { v with place := segment :: v.place }

def toError (v : Violation) : SchemaError := ⟨v.place.text, v.complaint.message⟩

end Violation

-- The difference of two doubles is less than the last digit of one.
def nearlySame (a b : Number) : Bool :=
  (a.nearest.units - b.nearest.units).natAbs < (1 <<< 1022) - (1 <<< 968)

-- Numbers that are constants on their own are compared less strictly than others.
def meetsConstant : Json → Json → Bool
  | .number a, .number b => nearlySame a b
  | value, j => value.sameValue j

mutual
-- What is wrong with an instance under a rule, in the order in which it is found. A reference
-- that is met again on the same instance is followed without an end.
def violations (book : RuleBook) (passed : List String) (rule : Rule) (j : Json) :
    Evaluation Violation :=
  match rule with
  | .anything => .clean
  | .nothing => Violation.here (.refused j)
  | .keywords list => keywordsViolations book passed list j
termination_by (sizeOf j, Registry.unvisitedIn (book.targets.map (·.1)) passed, sizeOf rule)

def keywordsViolations (book : RuleBook) (passed : List String) (list : List Keyword) (j : Json) :
    Evaluation Violation :=
  match list with
  | [] => .clean
  | k :: rest => (keywordViolations book passed k j).andThen (keywordsViolations book passed rest j)
termination_by (sizeOf j, Registry.unvisitedIn (book.targets.map (·.1)) passed, sizeOf list)

def keywordViolations (book : RuleBook) (passed : List String) (k : Keyword) (j : Json) :
    Evaluation Violation :=
  match k with
  | .reference target =>
    if _met : target ∈ passed then .endless
    else
      match _found : book.targets.find? (·.1 == target) with
      | some (name, rule) => violations book (name :: passed) rule j
      | none => .clean
  | .type names => Violation.expect (names.any (·.admits j)) (.wrongType j names)
  | .properties declared =>
    match j with
    | .object fields => declaredViolations book declared fields
    | _ => .clean
  | .additional declared others =>
    match j with
    | .object fields => fieldsViolations book declared (some others) fields
    | _ => .clean
  | .closed declared =>
    match j with
    | .object fields =>
      let unexpected := (fields.map (·.1)).filter fun key => (Table.get? declared key).isNone
      (fieldsViolations book declared none fields).andThen
        (Violation.expect unexpected.isEmpty (.unexpected unexpected))
    | _ => .clean
  | .noProperties =>
    match j with
    | .object ((_, value) :: _) => Violation.here (.refused value)
    | _ => .clean
  | .required names =>
    match j with
    | .object fields =>
      .each ((names.filter (!Table.has fields ·)).map fun name => ⟨[], .missing name⟩)
    | _ => .clean
  | .items rule =>
    match j with
    | .array items => itemsViolations book rule 0 items
    | _ => .clean
  | .anyOf rules =>
    match meetsSome? book passed rules j with
    | some met => Violation.expect met (.noAlternative j)
    | none => .endless
  | .enumeration values => Violation.expect (values.any (·.sameValue j)) (.notListed j values)
  | .constant value => Violation.expect (meetsConstant value j) (.notConstant value)
  | .pattern text expression =>
    match j with
    | .string s => Violation.expect (expression.search s) (.mismatch j text)
    | _ => .clean
termination_by (sizeOf j, Registry.unvisitedIn (book.targets.map (·.1)) passed, sizeOf k)
decreasing_by
  all_goals try decreasing_tactic
  have same : name = target := by simpa using List.find?_some _found
  subst same
  exact .right _ (.left _ _ (Registry.unvisitedIn_cons_lt
    (List.mem_map_of_mem (f := (·.1)) (List.mem_of_find?_eq_some _found)) _met))

-- An alternative is left as soon as it is known to fail.
def meetsSome? (book : RuleBook) (passed : List String) (rules : List Rule) (j : Json) :
    Option Bool :=
  match rules with
  | [] => some false
  | rule :: rest =>
    match (violations book passed rule j).first? with
    | some none => some true
    | some (some _) => meetsSome? book passed rest j
    | none => none
termination_by (sizeOf j, Registry.unvisitedIn (book.targets.map (·.1)) passed, sizeOf rules)

def declaredViolations (book : RuleBook) (declared : List (String × Rule))
    (fields : List (String × Json)) : Evaluation Violation :=
  match declared with
  | [] => .clean
  | (name, rule) :: rest =>
    (match Json.member? name fields with
      | some ⟨value, _⟩ => Violation.under name (violations book [] rule value)
      | none => .clean).andThen (declaredViolations book rest fields)
termination_by (sizeOf fields, 0, sizeOf declared)

def fieldsViolations (book : RuleBook) (declared : List (String × Rule)) (others : Option Rule)
    (fields : List (String × Json)) : Evaluation Violation :=
  match fields with
  | [] => .clean
  | (name, value) :: rest =>
    (match (Table.get? declared name).or others with
      | some rule => Violation.under name (violations book [] rule value)
      | none => .clean).andThen (fieldsViolations book declared others rest)
termination_by (sizeOf fields, 0, 0)

def itemsViolations (book : RuleBook) (rule : Rule) (i : Nat) (items : List Json) :
    Evaluation Violation :=
  match items with
  | [] => .clean
  | j :: rest =>
    (Violation.under (toString i) (violations book [] rule j)).andThen
      (itemsViolations book rule (i + 1) rest)
termination_by (sizeOf items, 0, 0)
end

namespace RuleBook

def check (book : RuleBook) (j : Json) : Evaluation SchemaError :=
  (violations book [] book.root j).map Violation.toError

end RuleBook

namespace Engines

def builtIn : Engines where
  pattern text :=
    match Pattern.parse? text with
    | some p => .ok p.search
    | none => .error "it cannot be read"
  schema document :=
    match RuleBook.ofDocument? document with
    | some book => .ok book.check
    | none => .error "it cannot be used"

end Engines

end TwinShape
