import Mathlib
import TwinShape.CommandLine.Run
import TwinShape.Schema.Evaluator
import TwinShape.Proofs.CommandLine.Arguments

namespace TwinShape

def Outcome.leaves (disk : Disk) : Outcome → Disk
  | .output _ => disk
  | .write path text => Function.update disk path (.text text)

-- No file is touched, nothing is printed on the standard output, and the exit code is this.
def Outcome.Closed (disk : Disk) (code : Nat) (o : Outcome) : Prop :=
  o.leaves disk = disk ∧ ∀ failure, (o.settle failure).stdout = "" ∧ (o.settle failure).code = code

namespace Disk
variable (disk : Disk) (engines : Engines)

inductive Loads : Option String → Registry → Prop
  | catalog : Loads none (Catalog.registry engines)
  | manifest (content : disk path = .text s) (read : Manifest.read engines s = .ok r) : Loads (some path) r

def Unread (path : String) : Prop := ∀ s, disk path ≠ .text s

-- Why there are no definitions, by exit code.
inductive Refuses : Option String → Nat → Prop
  | unread (unread : disk.Unread path) : Refuses (some path) 3
  | misspelt (content : disk path = .text s) (fault : Manifest.read engines s = .error e) : Refuses (some path) 2

def Holds (path : String) (j : Json) : Prop :=
  ∃ s whole, disk path = .text s ∧ Json.parse? Json.depthLimit s = some whole ∧ whole.settle = j

def Garbled (path : String) : Prop := ∃ s, disk path = .text s ∧ Json.parse? Json.depthLimit s = none

variable {disk engines}

theorem load_cases (disk : Disk) (engines : Engines) (manifest : Option String) :
    (∃ r, loadDefinitions engines disk manifest = .ok r ∧ disk.Loads engines manifest r) ∨
      ∃ o, loadDefinitions engines disk manifest = .error o ∧ disk.Refuses engines manifest o.code ∧ o.stdout = "" := by
  cases manifest with
  | none => exact .inl ⟨_, rfl, .catalog⟩
  | some path =>
    rw [loadDefinitions]
    cases content : disk path with
    | missing =>
      refine .inr ⟨_, rfl, .unread fun s same => ?_, rfl⟩
      cases content.symm.trans same
    | unreadable why =>
      refine .inr ⟨_, rfl, .unread fun s same => ?_, rfl⟩
      cases content.symm.trans same
    | text s =>
      dsimp only
      cases read : Manifest.read engines s with
      | ok r => exact .inl ⟨r, rfl, .manifest content read⟩
      | error e => exact .inr ⟨_, rfl, .misspelt content read, rfl⟩

theorem loads_iff {manifest : Option String} :
    disk.Loads engines manifest r ↔ loadDefinitions engines disk manifest = .ok r := by
  constructor
  · intro loads
    cases loads with
    | catalog => rfl
    | manifest content read =>
      rw [loadDefinitions, content]
      dsimp only
      rw [read]
  · intro loaded
    rcases load_cases disk engines manifest with ⟨r', loaded', loads⟩ | ⟨o, refused, -⟩
    · cases loaded.symm.trans loaded'
      exact loads
    · cases loaded.symm.trans refused

theorem refuses_iff {manifest : Option String} : disk.Refuses engines manifest code ↔
    ∃ o, loadDefinitions engines disk manifest = .error o ∧ o.code = code ∧ o.stdout = "" := by
  constructor
  · intro refuses
    rcases load_cases disk engines manifest with ⟨r, -, loads⟩ | ⟨o, refused, refuses', silent⟩
    · cases refuses with
      | unread unread =>
        cases loads with
        | manifest content read => exact absurd content (unread _)
      | misspelt content fault =>
        cases loads with
        | manifest content' read =>
          cases content.symm.trans content'
          cases fault.symm.trans read
    · refine ⟨o, refused, ?_, silent⟩
      cases refuses with
      | unread unread =>
        generalize o.code = code at refuses'
        cases refuses' with
        | unread => rfl
        | misspelt content _ => exact absurd content (unread _)
      | misspelt content fault =>
        generalize o.code = code at refuses'
        cases refuses' with
        | unread unread => exact absurd content (unread _)
        | misspelt => rfl
  · rintro ⟨o, refused, rfl, -⟩
    rcases load_cases disk engines manifest with ⟨r, loaded, -⟩ | ⟨o', refused', refuses, -⟩
    · cases refused.symm.trans loaded
    · cases refused.symm.trans refused'
      exact refuses

theorem Loads.unique {manifest : Option String} (loads : disk.Loads engines manifest r)
    (loads' : disk.Loads engines manifest r') : r = r' := by
  cases (loads_iff.1 loads).symm.trans (loads_iff.1 loads')
  rfl

theorem Loads.not_refuses {manifest : Option String} (loads : disk.Loads engines manifest r) :
    ¬disk.Refuses engines manifest code := fun refuses => by
  obtain ⟨o, refused, -⟩ := refuses_iff.1 refuses
  cases (loads_iff.1 loads).symm.trans refused

theorem Holds.unique {path : String} (holds : disk.Holds path j) (holds' : disk.Holds path j') : j = j' := by
  obtain ⟨s, whole, content, parsed, rfl⟩ := holds
  obtain ⟨s', whole', content', parsed', rfl⟩ := holds'
  cases content.symm.trans content'
  cases parsed.symm.trans parsed'
  rfl

theorem refusal_code (json : Bool) (code : Nat) (message : String) : (refusal json code message).code = code := by
  cases json <;> rfl

theorem payload_held {path : String} (holds : disk.Holds path j) (json : Bool) :
    loadPayload disk path json = .ok j := by
  obtain ⟨s, whole, content, parsed, rfl⟩ := holds
  rw [loadPayload, content]
  dsimp only
  rw [parsed]

theorem payload_unread {path : String} (unread : disk.Unread path) (json : Bool) :
    ∃ o, loadPayload disk path json = .error o ∧ o.code = 3 := by
  rw [loadPayload]
  cases content : disk path with
  | missing => exact ⟨_, rfl, refusal_code _ _ _⟩
  | unreadable why => exact ⟨_, rfl, refusal_code _ _ _⟩
  | text s => exact absurd content (unread s)

theorem payload_garbled {path : String} (garbled : disk.Garbled path) (json : Bool) :
    ∃ o, loadPayload disk path json = .error o ∧ o.code = 2 := by
  obtain ⟨s, content, parsed⟩ := garbled
  rw [loadPayload, content]
  dsimp only
  rw [parsed]
  exact ⟨_, rfl, refusal_code _ _ _⟩

theorem payload_cases (disk : Disk) (path : String) :
    (∃ j, disk.Holds path j) ∨ disk.Unread path ∨ disk.Garbled path := by
  cases content : disk path with
  | missing | unreadable why =>
    refine .inr (.inl fun s same => ?_)
    cases content.symm.trans same
  | text s =>
    cases parsed : Json.parse? Json.depthLimit s with
    | some whole => exact .inl ⟨_, s, whole, content, parsed, rfl⟩
    | none => exact .inr (.inr ⟨s, content, parsed⟩)

theorem Refuses.either {manifest : Option String} (refuses : disk.Refuses engines manifest code) :
    code = 2 ∨ code = 3 := by
  cases refuses with
  | unread => exact .inr rfl
  | misspelt => exact .inl rfl

end Disk

namespace DefinitionReport
variable (report : DefinitionReport)

theorem status_error_iff : report.status = .error ↔ ∃ d ∈ report.diagnostics, d.concern.severity = .error := by
  unfold status
  cases found : report.diagnostics.any (·.concern.severity == .error) with
  | true => simpa using found
  | false =>
    have none_ : ¬∃ d ∈ report.diagnostics, d.concern.severity = .error := by simpa using found
    refine iff_of_false ?_ none_
    cases report.diagnostics.isEmpty <;> exact nofun

theorem status_ok_iff : report.status = .ok ↔ ∀ d, d ∉ report.diagnostics := by
  unfold status
  rw [← List.eq_nil_iff_forall_not_mem]
  cases report.diagnostics with
  | nil => exact iff_of_true rfl rfl
  | cons d rest =>
    refine iff_of_false ?_ nofun
    cases (d :: rest).any (·.concern.severity == .error) <;> exact nofun

end DefinitionReport

namespace LintReport
variable (r : LintReport)

def Bad (d : Diagnostic) : Prop := d.concern.severity = .error ∨ (r.strict = true ∧ d.concern.severity = .warning)

theorem fails_iff {report : DefinitionReport} : r.fails report = true ↔ ∃ d ∈ report.diagnostics, r.Bad d := by
  unfold fails Bad
  cases strict : r.strict with
  | false => simpa [strict] using report.status_error_iff
  | true =>
    have found : report.status ≠ .ok ↔ ∃ d, d ∈ report.diagnostics := by
      rw [ne_eq, report.status_ok_iff, not_forall_not]
    rw [if_pos rfl, bne_iff_ne, found]
    refine exists_congr fun d => ⟨fun member => ⟨member, ?_⟩, And.left⟩
    cases d.concern.severity
    · exact .inl rfl
    · exact .inr ⟨rfl, rfl⟩

theorem count_eq_zero_iff {s : Severity} :
    r.count s = 0 ↔ ∀ report ∈ r.results, ∀ d ∈ report.diagnostics, d.concern.severity ≠ s := by
  rw [count, List.countP_eq_zero, List.forall_mem_flatMap]
  simp

-- The verdict counts findings and the counters count definitions, and they agree.
theorem succeeds_iff : r.succeeds = true ↔ r.failed = 0 := by
  have verdict : r.succeeds = true ↔ r.count .error = 0 ∧ (r.strict = true → r.count .warning = 0) := by
    cases strict : r.strict <;> simp [succeeds, isOk, strict]
  have counters : r.failed = 0 ↔ ∀ report ∈ r.results, ∀ d ∈ report.diagnostics, ¬r.Bad d := by
    rw [failed, List.countP_eq_zero]
    refine forall₂_congr fun report _ => ?_
    rw [r.fails_iff, not_exists]
    exact forall_congr' fun d => not_and
  rw [verdict, counters, r.count_eq_zero_iff, r.count_eq_zero_iff]
  constructor
  · rintro ⟨errors, warnings⟩ report listed d member (error | ⟨strict, warning⟩)
    · exact errors report listed d member error
    · exact warnings strict report listed d member warning
  · intro sound
    exact ⟨fun report listed d member error => sound report listed d member (.inl error),
      fun strict report listed d member warning => sound report listed d member (.inr ⟨strict, warning⟩)⟩

end LintReport

theorem Registry.lintEach_checks {r : Registry} {names : List String} (told : (r.lintEach names m).1 = some reports) :
    reports.map (·.definition) = names := by
  induction names generalizing m reports with
  | nil =>
    cases told
    rfl
  | cons name rest ih =>
    rw [lintEach, lintDefinition] at told
    rcases looked : r.diagnostics name m with ⟨_ | found, m'⟩ <;> rw [looked] at told
    · cases told
    · obtain ⟨others, listed, rfl⟩ := Option.map_eq_some_iff.1 told
      exact congrArg (name :: ·) (ih listed)

-- A text is produced as a whole before any of it is put anywhere.
structure Produces (engines : Engines) (disk : Disk) (arguments : List String) (manifest output : Option String)
    (generate : Registry → Except Fault String) (outcome : Outcome) : Prop where
  refused : disk.Refuses engines manifest code → outcome.Closed disk code
  faulty : disk.Loads engines manifest r → generate r = .error fault → outcome.Closed disk 2
  printed : disk.Loads engines manifest r → generate r = .ok text → output = none →
    outcome = .output (.printed text)
  written : disk.Loads engines manifest r → generate r = .ok text → output = some path →
    outcome.leaves disk = Function.update disk path (.text text) ∧
    outcome.settle none = .printed "" ∧
    (∀ why, (outcome.settle (some why)).code = 3 ∧ (outcome.settle (some why)).stdout = "") ∧
    runProgram engines (withoutOutput arguments) disk = some (.output (.printed text))

-- The library does not come back from a validation.
def Disk.Stalls (disk : Disk) (engines : Engines) (manifest : Option String) (definition payload : String) : Prop :=
  ∃ r j, disk.Loads engines manifest r ∧ disk.Holds payload j ∧ (r.validate definition j .blank).1 = none

-- What the exit codes of a validation mean.
structure Validates (engines : Engines) (disk : Disk) (manifest : Option String) (definition payload : String)
    (o : Output) : Prop where
  valid : o.code = 0 ↔
    ∃ r j, disk.Loads engines manifest r ∧ disk.Holds payload j ∧ (r.validate definition j .blank).1 = some (.ok ())
  invalid : o.code = 1 ↔ ∃ r j first rest, disk.Loads engines manifest r ∧ disk.Holds payload j ∧
    (r.validate definition j .blank).1 = some (.error (.violated first rest))
  unusable : o.code = 2 ↔ disk.Refuses engines manifest 2 ∨ ∃ r, disk.Loads engines manifest r ∧ (disk.Garbled payload ∨
    ∃ j, disk.Holds payload j ∧ ((∃ why, (r.validate definition j .blank).1 = some (.error (.unusable why))) ∨
      ∃ fault, (r.validate definition j .blank).1 = some (.error (.fault fault))))
  unread : o.code = 3 ↔ disk.Refuses engines manifest 3 ∨ ∃ r, disk.Loads engines manifest r ∧ disk.Unread payload

structure Lints (engines : Engines) (disk : Disk) (manifest : Option String) (strict : Bool) (o : Output) : Prop where
  refused : disk.Refuses engines manifest code → o.code = code ∧ o.stdout = ""
  passed : disk.Loads engines manifest r → (r.lint strict .blank).1 = some report → (o.code = 0 ↔ report.failed = 0)
  failed : disk.Loads engines manifest r → (r.lint strict .blank).1 = some report → (o.code = 1 ↔ report.failed ≠ 0)

section
variable {engines : Engines} {disk : Disk} {arguments : List String} {i : Invocation}

theorem runProgram_of_read (read : Invocation.read arguments = .ok i) :
    runProgram engines arguments disk = i.command.run engines disk := by
  rw [runProgram, read]

theorem run_refused {c : Command} (refuses : disk.Refuses engines c.manifest code) :
    ∃ o, c.run engines disk = some (.output o) ∧ o.code = code ∧ o.stdout = "" := by
  obtain ⟨o, refused, known, silent⟩ := Disk.refuses_iff.1 refuses
  exact ⟨o, by rw [Command.run, refused], known, silent⟩

theorem run_loaded {c : Command} (loads : disk.Loads engines c.manifest r) : c.run engines disk = c.runOn disk r := by
  rw [Command.run, Disk.loads_iff.1 loads]

theorem produces_of_delivery {manifest output : Option String} {generate : Registry → Except Fault String}
    (read : Invocation.read arguments = .ok i) (produces : i.command.produces) (source : i.command.manifest = manifest)
    (delivers : ∀ r, i.command.runOn disk r = some (deliver output id (generate r)))
    (prints : ∀ r, i.command.withoutOutput.runOn disk r = some (deliver none id (generate r))) :
    ∃ outcome, runProgram engines arguments disk = some outcome ∧
      Produces engines disk arguments manifest output generate outcome := by
  subst source
  have run : runProgram engines arguments disk = i.command.run engines disk := runProgram_of_read read
  rcases Disk.load_cases disk engines i.command.manifest with ⟨r, -, loads⟩ | ⟨o, refused, refuses, silent⟩
  · refine ⟨_, by rw [run, run_loaded loads, delivers], fun refuses => absurd refuses loads.not_refuses, fun loads' fault => ?_,
      fun loads' made none_ => ?_, fun loads' made some_ => ?_⟩
    · cases loads.unique loads'
      rw [fault]
      exact ⟨rfl, fun _ => ⟨rfl, rfl⟩⟩
    · cases loads.unique loads'
      rw [made, none_]
      rfl
    · cases loads.unique loads'
      have bare : runProgram engines (withoutOutput arguments) disk = i.command.withoutOutput.run engines disk :=
        runProgram_of_read (Invocation.read_withoutOutput read produces)
      have same : i.command.withoutOutput.manifest = i.command.manifest := by
        cases i.command <;> rfl
      rw [bare, run_loaded (same ▸ loads), prints, made, some_]
      exact ⟨rfl, rfl, fun _ => ⟨rfl, rfl⟩, rfl⟩
  · refine ⟨.output o, by rw [run, Command.run, refused], fun refuses' => ?_, fun loads => absurd refuses loads.not_refuses,
      fun loads => absurd refuses loads.not_refuses, fun loads => absurd refuses loads.not_refuses⟩
    obtain ⟨o', refused', known, -⟩ := Disk.refuses_iff.1 refuses'
    cases refused.symm.trans refused'
    exact ⟨rfl, fun _ => ⟨silent, known⟩⟩

theorem deliver_map {output : Option String} {render : α → String} {x : Except Fault α} :
    deliver output render x = deliver output id (x.map render) := by
  cases x <;> rfl

end

def verdictCode : Except Invalid Unit → Nat
  | .ok () => 0
  | .error (.violated _ _) => 1
  | .error (.fault _) | .error (.unusable _) => 2

section
variable {verdict : Except Invalid Unit}

theorem verdictCode_zero : verdictCode verdict = 0 ↔ verdict = .ok () := by
  rcases verdict with (_ | _ | _) | _ <;> simp [verdictCode]

theorem verdictCode_one : verdictCode verdict = 1 ↔ ∃ first rest, verdict = .error (.violated first rest) := by
  rcases verdict with (_ | _ | _) | _ <;> simp [verdictCode]

theorem verdictCode_two : verdictCode verdict = 2 ↔
    (∃ why, verdict = .error (.unusable why)) ∨ ∃ fault, verdict = .error (.fault fault) := by
  rcases verdict with (_ | _ | _) | _ <;> simp [verdictCode]

theorem exists_verdictCode_two {told : Option (Except Invalid Unit)} :
    (∃ verdict, told = some verdict ∧ verdictCode verdict = 2) ↔
    (∃ why, told = some (.error (.unusable why))) ∨ ∃ fault, told = some (.error (.fault fault)) := by
  constructor
  · rintro ⟨verdict, rfl, code⟩
    simpa using verdictCode_two.1 code
  · rintro (⟨why, rfl⟩ | ⟨fault, rfl⟩) <;> exact ⟨_, rfl, rfl⟩

theorem verdictCode_lt : verdictCode verdict < 3 := by
  rcases verdict with (_ | _ | _) | _ <;> simp [verdictCode]

end

theorem validationOutput_code (json : Bool) (verdict : Except Invalid Unit) :
    (validationOutput json verdict).code = verdictCode verdict := by
  rcases verdict with (_ | _ | _) | _
  · exact Disk.refusal_code _ _ _
  · exact Disk.refusal_code _ _ _
  · cases json <;> rfl
  · rfl

-- The manifest comes first, then the payload, then what the two say together.
inductive Disk.Ends (disk : Disk) (engines : Engines) (manifest : Option String) (definition payload : String) : Nat → Prop
  | refused (refuses : disk.Refuses engines manifest code) : Ends disk engines manifest definition payload code
  | unread (loads : disk.Loads engines manifest r) (unread : disk.Unread payload) :
    Ends disk engines manifest definition payload 3
  | garbled (loads : disk.Loads engines manifest r) (garbled : disk.Garbled payload) :
    Ends disk engines manifest definition payload 2
  | judged (loads : disk.Loads engines manifest r) (holds : disk.Holds payload j)
    (told : (r.validate definition j .blank).1 = some verdict) :
    Ends disk engines manifest definition payload (verdictCode verdict)

section
variable {engines : Engines} {disk : Disk} {manifest : Option String} {definition payload : String} {json : Bool}

theorem Disk.ends_iff : disk.Ends engines manifest definition payload code ↔ disk.Refuses engines manifest code ∨
    ∃ r, disk.Loads engines manifest r ∧ (disk.Unread payload ∧ code = 3 ∨ disk.Garbled payload ∧ code = 2 ∨
      ∃ j, disk.Holds payload j ∧ ∃ verdict, (r.validate definition j .blank).1 = some verdict ∧ verdictCode verdict = code) := by
  constructor
  · intro ends
    cases ends with
    | refused refuses => exact .inl refuses
    | unread loads unread => exact .inr ⟨_, loads, .inl ⟨unread, rfl⟩⟩
    | garbled loads garbled => exact .inr ⟨_, loads, .inr (.inl ⟨garbled, rfl⟩)⟩
    | judged loads holds told => exact .inr ⟨_, loads, .inr (.inr ⟨_, holds, _, told, rfl⟩)⟩
  · rintro (refuses | ⟨r, loads, ⟨unread, rfl⟩ | ⟨garbled, rfl⟩ | ⟨j, holds, verdict, told, rfl⟩⟩)
    · exact .refused refuses
    · exact .unread loads unread
    · exact .garbled loads garbled
    · exact .judged loads holds told

theorem run_judged (loads : disk.Loads engines manifest r) (holds : disk.Holds payload j) :
    (Command.validate manifest definition payload json).run engines disk =
      (r.validate definition j .blank).1.map fun verdict => .output (validationOutput json verdict) := by
  rw [run_loaded loads, Command.runOn, Disk.payload_held holds]

theorem Disk.Ends.run (ends : disk.Ends engines manifest definition payload code) (json : Bool) :
    ∃ o, (Command.validate manifest definition payload json).run engines disk = some (.output o) ∧ o.code = code := by
  cases ends with
  | refused refuses =>
    obtain ⟨o, ends, known, -⟩ := run_refused (c := .validate manifest definition payload json) refuses
    exact ⟨o, ends, known⟩
  | unread loads unread =>
    obtain ⟨o, refused, known⟩ := Disk.payload_unread unread json
    exact ⟨o, by rw [run_loaded loads, Command.runOn, refused], known⟩
  | garbled loads garbled =>
    obtain ⟨o, refused, known⟩ := Disk.payload_garbled garbled json
    exact ⟨o, by rw [run_loaded loads, Command.runOn, refused], known⟩
  | judged loads holds told =>
    exact ⟨_, by rw [run_judged loads holds, told]; rfl, validationOutput_code _ _⟩

theorem Disk.exists_ends (disk : Disk) (engines : Engines) (manifest : Option String) (definition payload : String) :
    disk.Stalls engines manifest definition payload ∨ ∃ code, disk.Ends engines manifest definition payload code := by
  rcases Disk.load_cases disk engines manifest with ⟨r, -, loads⟩ | ⟨o, -, refuses, -⟩
  · rcases Disk.payload_cases disk payload with ⟨j, holds⟩ | unread | garbled
    · cases told : (r.validate definition j .blank).1 with
      | none => exact .inl ⟨r, j, loads, holds, told⟩
      | some verdict => exact .inr ⟨_, .judged loads holds told⟩
    · exact .inr ⟨_, .unread loads unread⟩
    · exact .inr ⟨_, .garbled loads garbled⟩
  · exact .inr ⟨_, .refused refuses⟩

theorem Disk.Loads.not_stalls (loads : disk.Loads engines manifest r) (holds : disk.Holds payload j)
    (told : (r.validate definition j .blank).1 = some verdict) : ¬disk.Stalls engines manifest definition payload := by
  rintro ⟨r', j', loads', holds', stalled⟩
  cases loads.unique loads'
  cases holds.unique holds'
  cases told.symm.trans stalled

theorem Disk.Stalls.run (stalls : disk.Stalls engines manifest definition payload) :
    (Command.validate manifest definition payload json).run engines disk = none := by
  obtain ⟨r, j, loads, holds, told⟩ := stalls
  rw [run_judged loads holds, told]
  rfl

theorem validate_stalls : (Command.validate manifest definition payload json).run engines disk = none ↔
    disk.Stalls engines manifest definition payload := by
  refine ⟨fun ran => ?_, Disk.Stalls.run⟩
  rcases Disk.exists_ends disk engines manifest definition payload with stalls | ⟨code, ends⟩
  · exact stalls
  · obtain ⟨o, ran', -⟩ := ends.run json
    cases ran.symm.trans ran'

theorem validate_validates (ran : (Command.validate manifest definition payload json).run engines disk = some outcome) :
    ∃ o, outcome = .output o ∧ Validates engines disk manifest definition payload o := by
  obtain ⟨code, ends⟩ := (Disk.exists_ends disk engines manifest definition payload).resolve_left fun stalls => by
    cases ran.symm.trans stalls.run
  obtain ⟨o, ran', rfl⟩ := ends.run json
  cases ran.symm.trans ran'
  have same : ∀ code, o.code = code ↔ disk.Ends engines manifest definition payload code := by
    refine fun code => ⟨fun same => same ▸ ends, fun other => ?_⟩
    obtain ⟨o', ran', rfl⟩ := other.run json
    cases ran.symm.trans ran'
    rfl
  have never : ∀ code, code < 2 → ¬disk.Refuses engines manifest code := by
    intro code small refuses
    rcases refuses.either with rfl | rfl <;> omega
  refine ⟨o, rfl, ?_, ?_, ?_, ?_⟩
  · rw [same, Disk.ends_iff, or_iff_right (never 0 (by decide))]
    simp [verdictCode_zero]
  · rw [same, Disk.ends_iff, or_iff_right (never 1 (by decide))]
    simp [verdictCode_one]
  · rw [same, Disk.ends_iff]
    simp [exists_verdictCode_two]
  · rw [same, Disk.ends_iff]
    simp [verdictCode_lt.ne]

section
variable {strict quiet : Bool}

theorem run_linted (loads : disk.Loads engines manifest r) :
    (Command.lint manifest json strict quiet).run engines disk = (r.lint strict .blank).1.map fun report =>
      .output ⟨if report.succeeds then 0 else 1,
        if json then report.toJson.pretty ++ "\n" else report.text quiet (manifest.getD "built-in catalog"), ""⟩ := by
  rw [run_loaded loads, Command.runOn]

theorem lint_stalls : (Command.lint manifest json strict quiet).run engines disk = none ↔
    ∃ r, disk.Loads engines manifest r ∧ (r.lint strict .blank).1 = none := by
  constructor
  · intro ran
    rcases Disk.load_cases disk engines manifest with ⟨r, -, loads⟩ | ⟨o, -, refuses, -⟩
    · exact ⟨r, loads, Option.map_eq_none_iff.1 ((run_linted loads).symm.trans ran)⟩
    · obtain ⟨o, ends, -⟩ := run_refused (c := .lint manifest json strict quiet) refuses
      cases ran.symm.trans ends
  · rintro ⟨r, loads, told⟩
    rw [run_linted loads, told]
    rfl

theorem lint_lints (ran : (Command.lint manifest json strict quiet).run engines disk = some outcome) :
    ∃ o, outcome = .output o ∧ Lints engines disk manifest strict o := by
  rcases Disk.load_cases disk engines manifest with ⟨r, -, loads⟩ | ⟨o, refused, refuses, silent⟩
  · obtain ⟨report, told, rfl⟩ := Option.map_eq_some_iff.1 ((run_linted loads).symm.trans ran)
    refine ⟨_, rfl, fun refuses => absurd refuses loads.not_refuses, fun loads' told' => ?_, fun loads' told' => ?_⟩
    · cases loads.unique loads'
      cases told.symm.trans told'
      rw [← LintReport.succeeds_iff]
      simp
    · cases loads.unique loads'
      cases told.symm.trans told'
      rw [ne_eq, ← LintReport.succeeds_iff]
      simp
  · obtain ⟨o', ends, known, silent⟩ := run_refused (c := .lint manifest json strict quiet) refuses
    cases ran.symm.trans ends
    refine ⟨o', rfl, fun refuses' => ?_, fun loads => absurd refuses loads.not_refuses,
      fun loads => absurd refuses loads.not_refuses⟩
    obtain ⟨o'', refused', known', -⟩ := Disk.refuses_iff.1 refuses'
    cases refused.symm.trans refused'
    exact ⟨known.trans known', silent⟩

end
end

-- Nothing is written or printed unless a whole text has been produced, and exit codes mean what they say.
theorem commandLine_fails_closed (engines : Engines) (disk : Disk) (read : Invocation.read arguments = .ok i) :
    (∀ manifest output only style, i.command = .types manifest output only style →
      ∃ outcome, runProgram engines arguments disk = some outcome ∧
        Produces engines disk arguments manifest output (fun r =>
          (r.declarationsFor (if only.isEmpty then r.names else only) style.internalSuffix .blank).1.map (·.text style)) outcome) ∧
    (∀ manifest output pretty options, i.command = .schema manifest output pretty options →
      ∃ outcome, runProgram engines arguments disk = some outcome ∧
        Produces engines disk arguments manifest output (fun r =>
          (r.schema options .blank).1.map fun j => (if pretty then j.pretty else j.compact) ++ "\n") outcome) ∧
    (∀ manifest definition payload json, i.command = .validate manifest definition payload json →
      (runProgram engines arguments disk = none ↔ disk.Stalls engines manifest definition payload) ∧
      ∀ outcome, runProgram engines arguments disk = some outcome →
        ∃ o, outcome = .output o ∧ Validates engines disk manifest definition payload o) ∧
    (∀ manifest json strict quiet, i.command = .lint manifest json strict quiet →
      (runProgram engines arguments disk = none ↔
        ∃ r, disk.Loads engines manifest r ∧ (r.lint strict .blank).1 = none) ∧
      ∀ outcome, runProgram engines arguments disk = some outcome →
        ∃ o, outcome = .output o ∧ Lints engines disk manifest strict o) ∧
    ∀ (r : Registry) strict m report, (r.lint strict m).1 = some report →
      report.passed + report.failed = report.checked ∧ report.checked = r.names.length := by
  refine ⟨fun manifest output only style same => ?_, fun manifest output pretty options same => ?_,
    fun manifest definition payload json same => ?_, fun manifest json strict quiet same => ?_, fun r strict m report told => ?_⟩
  · refine produces_of_delivery read (by rw [same]; rfl) (by rw [same]; rfl) (fun r => ?_) fun r => ?_
    · rw [same, Command.runOn, deliver_map]
    · rw [same, Command.withoutOutput, Command.runOn, deliver_map]
  · refine produces_of_delivery read (by rw [same]; rfl) (by rw [same]; rfl) (fun r => ?_) fun r => ?_
    · rw [same, Command.runOn, deliver_map]
    · rw [same, Command.withoutOutput, Command.runOn, deliver_map]
  · rw [runProgram_of_read read, same]
    exact ⟨validate_stalls, fun _ => validate_validates⟩
  · rw [runProgram_of_read read, same]
    exact ⟨lint_stalls, fun _ => lint_lints⟩
  · obtain ⟨reports, listed, rfl⟩ := Option.map_eq_some_iff.1 told
    refine ⟨LintReport.passed_add_failed _, ?_⟩
    have each := congrArg List.length (Registry.lintEach_checks listed)
    rwa [List.length_map] at each

def desk : Disk
  | "m.json" => .text "\x7b\"definitions\": \x7b\"A\": \x7b\"kind\": \"string\"\x7d\x7d\x7d"
  | "x.json" => .text "\"x\""
  | "null.json" => .text "null"
  | _ => .missing

def deskSchema : Json :=
  .object [("$schema", .string "http://json-schema.org/draft-07/schema#"), ("$ref", .string "#/definitions/A"),
    ("definitions", .object [("A", .object [("type", .string "string")])])]

theorem desk_loads (engines : Engines) : ∃ r, desk.Loads engines (some "m.json") r ∧
    (r.declarationsFor r.names "Internal" .blank).1.map (·.text ⟨"Internal", [], none⟩) = .ok "export type A = string;\n" ∧
    (∀ j, (r.validate "A" j .blank).1 = validateAgainst engines.schema deskSchema j) ∧
    ∃ report, (r.lint true .blank).1 = some report ∧ report.failed = 0 := by
  have named : (loadDefinitions engines desk (some "m.json")).isOk = true := by cbv
  obtain ⟨r, loaded⟩ : ∃ r, loadDefinitions engines desk (some "m.json") = .ok r := by
    cases loaded : loadDefinitions engines desk (some "m.json") with
    | ok r => exact ⟨r, rfl⟩
    | error o => rw [loaded] at named; cases named
  have made : ((loadDefinitions engines desk (some "m.json")).toOption.map fun r =>
      (r.declarationsFor r.names "Internal" .blank).1.map (·.text ⟨"Internal", [], none⟩)) =
        some (.ok "export type A = string;\n") := by cbv
  have judged : ∀ j, ((loadDefinitions engines desk (some "m.json")).toOption.map fun r =>
      (r.validate "A" j .blank).1) = some (validateAgainst engines.schema deskSchema j) := fun j => by cbv
  have clean : ((loadDefinitions engines desk (some "m.json")).toOption.bind fun r =>
      (r.lint true .blank).1.map (·.failed)) = some 0 := by cbv
  rw [loaded] at made judged clean
  refine ⟨r, Disk.loads_iff.2 loaded, Option.some.inj made, fun j => Option.some.inj (judged j), ?_⟩
  obtain ⟨report, told, none_⟩ := Option.map_eq_some_iff.1 clean
  exact ⟨report, told, none_⟩

theorem deskSchema_judges : validateAgainst Engines.builtIn.schema deskSchema (.string "x") = some (.ok ()) ∧
    ∃ first rest, validateAgainst Engines.builtIn.schema deskSchema .null = some (.error (.violated first rest)) := by
  let book : RuleBook := ⟨.keywords [.reference "#/definitions/A"], [("#/definitions/A", .keywords [.type [.string]])]⟩
  have read : RuleBook.ofDocument? deskSchema = some book := by cbv
  have refused : violations book [] book.root .null = Violation.here (.wrongType .null [.string]) := by cbv
  refine ⟨by cbv, Violation.toError ⟨[], .wrongType .null [.string]⟩, [], ?_⟩
  rw [validateAgainst, Engines.builtIn]
  dsimp only
  rw [read]
  dsimp only
  rw [RuleBook.check, refused]
  rfl

theorem Outcome.exits {ran : Option Outcome} {P : Output → Prop} (stalls : ran = none ↔ stalled) (never : ¬stalled)
    (ends : ∀ outcome, ran = some outcome → ∃ o, outcome = .output o ∧ P o) : ∃ o, ran = some (.output o) ∧ P o := by
  cases ran with
  | none => exact absurd (stalls.1 rfl) never
  | some outcome =>
    obtain ⟨o, rfl, known⟩ := ends outcome rfl
    exact ⟨o, rfl, known⟩

theorem commandLine_writes_once :
    (∃ outcome, runProgram .builtIn ["types", "--manifest", "m.json", "--output", "a.ts", "--no-header"] desk = some outcome ∧
      outcome.leaves desk = Function.update desk "a.ts" (.text "export type A = string;\n")) ∧
    runProgram .builtIn ["types", "--manifest", "m.json", "--no-header"] desk =
      some (.output (.printed "export type A = string;\n")) ∧
    (∃ outcome, runProgram .builtIn ["types", "--manifest", "n.json", "--output", "a.ts"] desk = some outcome ∧
      outcome.Closed desk 3) ∧
    (∃ o, runProgram .builtIn ["validate", "--manifest", "m.json", "A", "x.json"] desk = some (.output o) ∧ o.code = 0) ∧
    (∃ o, runProgram .builtIn ["validate", "--manifest", "m.json", "A", "null.json"] desk = some (.output o) ∧ o.code = 1) ∧
    ∃ o, runProgram .builtIn ["lint", "--manifest", "m.json", "--strict"] desk = some (.output o) ∧ o.code = 0 := by
  obtain ⟨r, loads, made, judges, report, told, clean⟩ := desk_loads .builtIn
  obtain ⟨accepted, first, rest, refused⟩ := deskSchema_judges
  have written : Invocation.read ["types", "--manifest", "m.json", "--output", "a.ts", "--no-header"] =
      .ok ⟨false, .types (some "m.json") (some "a.ts") [] ⟨"Internal", [], none⟩⟩ := by cbv
  have missing : Invocation.read ["types", "--manifest", "n.json", "--output", "a.ts"] =
      .ok ⟨false, .types (some "n.json") (some "a.ts") [] DeclarationStyle.usual⟩ := by cbv
  have right : Invocation.read ["validate", "--manifest", "m.json", "A", "x.json"] =
      .ok ⟨false, .validate (some "m.json") "A" "x.json" false⟩ := by cbv
  have wrong : Invocation.read ["validate", "--manifest", "m.json", "A", "null.json"] =
      .ok ⟨false, .validate (some "m.json") "A" "null.json" false⟩ := by cbv
  have strict : Invocation.read ["lint", "--manifest", "m.json", "--strict"] =
      .ok ⟨false, .lint (some "m.json") false true false⟩ := by cbv
  have x : desk.Holds "x.json" (.string "x") := ⟨"\"x\"", .string "x", rfl, by cbv, by cbv⟩
  have null : desk.Holds "null.json" .null := ⟨"null", .null, rfl, by cbv, by cbv⟩
  have absent : desk.Unread "n.json" := by
    intro s same
    have nothing : desk "n.json" = .missing := rfl
    cases nothing.symm.trans same
  obtain ⟨outcome, ran, produces⟩ := (commandLine_fails_closed .builtIn desk written).1 _ _ _ _ rfl
  obtain ⟨leaves, -, -, bare⟩ := produces.written loads made rfl
  obtain ⟨stopped, ran', produces'⟩ := (commandLine_fails_closed .builtIn desk missing).1 _ _ _ _ rfl
  refine ⟨⟨outcome, ran, leaves⟩, bare, ⟨stopped, ran', produces'.refused (.unread absent)⟩, ?_, ?_, ?_⟩
  · obtain ⟨stalls, ends⟩ := (commandLine_fails_closed .builtIn desk right).2.2.1 _ _ _ _ rfl
    obtain ⟨o, exits, validates⟩ := Outcome.exits stalls (loads.not_stalls x ((judges _).trans accepted)) ends
    exact ⟨o, exits, validates.valid.2 ⟨r, _, loads, x, (judges _).trans accepted⟩⟩
  · obtain ⟨stalls, ends⟩ := (commandLine_fails_closed .builtIn desk wrong).2.2.1 _ _ _ _ rfl
    obtain ⟨o, exits, validates⟩ := Outcome.exits stalls (loads.not_stalls null ((judges _).trans refused)) ends
    exact ⟨o, exits, validates.invalid.2 ⟨r, _, first, rest, loads, null, (judges _).trans refused⟩⟩
  · obtain ⟨stalls, ends⟩ := (commandLine_fails_closed .builtIn desk strict).2.2.2.1 _ _ _ _ rfl
    have never : ¬∃ r, desk.Loads .builtIn (some "m.json") r ∧ (r.lint true .blank).1 = none := by
      rintro ⟨r', loads', silent⟩
      cases loads.unique loads'
      cases told.symm.trans silent
    obtain ⟨o, exits, lints⟩ := Outcome.exits stalls never ends
    exact ⟨o, exits, (lints.passed loads told).2 clean⟩

end TwinShape
