import TwinShape.CommandLine.Arguments

namespace TwinShape

def outputToken? (token : String) : Option (Option String) :=
  match token.toList with
  | '-' :: '-' :: name =>
    let (name, attached) := CommandForm.splitAtEquals name
    if name = "output" then some attached else none
  | _ => none

-- The same arguments, but for the option for the output and its value.
def withoutOutput : List String → List String
  | [] => []
  | [token] => if (outputToken? token).isSome then [] else [token]
  | token :: value :: rest =>
    match outputToken? token with
    | none => token :: withoutOutput (value :: rest)
    | some (some _) => withoutOutput (value :: rest)
    | some none => withoutOutput rest

def Command.withoutOutput : Command → Command
  | .types manifest _ only style => .types manifest none only style
  | .schema manifest _ pretty options => .schema manifest none pretty options
  | c => c

theorem withoutOutput_other (other : outputToken? token = none) (rest : List String) :
    withoutOutput (token :: rest) = token :: withoutOutput rest := by
  cases rest with
  | nil => simp [withoutOutput, other]
  | cons value rest => rw [withoutOutput, other]

theorem withoutOutput_attached (given : outputToken? token = some (some value)) (rest : List String) :
    withoutOutput (token :: rest) = withoutOutput rest := by
  cases rest with
  | nil => simp [withoutOutput, given]
  | cons _ rest => rw [withoutOutput, given]

theorem withoutOutput_behind (given : outputToken? token = some none) (value : String) (rest : List String) :
    withoutOutput (token :: value :: rest) = withoutOutput rest := by
  rw [withoutOutput, given]

theorem outputToken?_dashed (dashed : token.toList = '-' :: '-' :: name) : outputToken? token =
    if (CommandForm.splitAtEquals name).1 = "output" then some (CommandForm.splitAtEquals name).2 else none := by
  rw [outputToken?, dashed]
  rfl

theorem outputToken?_short (short : token.toList = '-' :: c :: shorts) (single : c ≠ '-') :
    outputToken? token = none := by
  rw [outputToken?, short]
  split
  · rename_i same
    exact absurd (List.cons.inj (List.cons.inj same).2).1 single
  · rfl

theorem outputToken?_value (value : CommandForm.isValue token = true) : outputToken? token = none := by
  unfold outputToken?
  split
  · rename_i name dashed
    rw [CommandForm.isValue, dashed] at value
    cases value
  · rfl

namespace Matches

def without (m : Matches) (name : String) : Matches := { m with options := m.options.filter (·.1 != name) }

variable {m : Matches} {name other : String}

theorem without_positionals : (m.without name).positionals = m.positionals := rfl

theorem without_has (different : other ≠ name) : (m.without name).has other = m.has other := by
  unfold has without
  dsimp only
  rw [List.any_filter]
  refine congrArg (List.any m.options) (funext fun given => ?_)
  by_cases same : given.1 = other
  · simp [same, different]
  · simp [same]

theorem without_values (different : other ≠ name) : (m.without name).values other = m.values other := by
  unfold values without
  dsimp only
  rw [List.filter_filter]
  refine congrArg (List.map _) (List.filter_congr fun given _ => ?_)
  by_cases same : given.1 = other
  · simp [same, different]
  · simp [same]

theorem without_value? (different : other ≠ name) : (m.without name).value? other = m.value? other := by
  obtain ⟨options, positionals⟩ := m
  unfold value? without
  dsimp only
  induction options with
  | nil => rfl
  | cons given rest ih =>
    obtain ⟨key, value⟩ := given
    by_cases same : key = name
    · subst same
      rw [List.filter_cons_of_neg (by simp), ih, List.lookup_cons, beq_false_of_ne different]
    · rw [List.filter_cons_of_pos (by simpa using same), List.lookup_cons, List.lookup_cons, ih]

theorem without_value?_self : (m.without name).value? name = none := by
  unfold value? without
  rw [List.lookup_eq_none_iff]
  intro given member
  have other : given.1 ≠ name := by simpa using (List.mem_filter.1 member).2
  exact bne_iff_ne.2 other.symm

end Matches

theorem Stop.of_bind_ok {x : Except Stop α} {g : α → Except Stop β} (done : (x >>= g) = .ok b) :
    ∃ a, x = .ok a ∧ g a = .ok b := by
  cases x with
  | error e => cases done
  | ok a => exact ⟨a, rfl, done⟩

namespace CommandForm
variable {f : CommandForm} {m m' : Matches}

theorem addFlag_without (added : addFlag m o = .ok m₁) (other : o.name ≠ name) :
    addFlag (m.without name) o = .ok (m₁.without name) := by
  unfold addFlag at added ⊢
  rw [Matches.without_has other]
  cases given : m.has o.name <;> rw [given] at added
  · cases added
    simp [Matches.without, List.filter_append, other]
  · cases added

theorem of_cond_ok {refused : Bool} {m : Matches}
    (done : (bif refused then .error e else .ok m : Except Stop Matches) = .ok m₁) :
    refused = false ∧ m = m₁ := by
  cases refused <;> cases done
  exact ⟨rfl, rfl⟩

theorem addValue_without (added : addValue m o value = .ok m₁) (other : o.name ≠ name) :
    addValue (m.without name) o value = .ok (m₁.without name) := by
  unfold addValue at added ⊢
  dsimp only at added ⊢
  rw [Matches.without_has other]
  obtain ⟨taken, rfl⟩ := of_cond_ok added
  rw [taken, cond_false]
  simp [Matches.without, List.filter_append, other]

theorem without_addValue (added : addValue m o value = .ok m₁) : m₁.without o.name = m.without o.name := by
  unfold addValue at added
  obtain ⟨-, rfl⟩ := of_cond_ok added
  simp [Matches.without, List.filter_append]

theorem addShorts_without {chars : List Char} (shorts : ∀ c o, f.findShort? c = some o → o.name ≠ name)
    (added : f.addShorts m chars = .ok m₁) : f.addShorts (m.without name) chars = .ok (m₁.without name) := by
  induction chars generalizing m with
  | nil =>
    cases added
    rfl
  | cons c rest ih =>
    rw [addShorts] at added ⊢
    rcases found : f.findShort? c with _ | o <;> rw [found] at added
    · cases added
    · dsimp only at added ⊢
      rcases flagged : addFlag m o with _ | m₂ <;> rw [flagged] at added
      · cases added
      · rw [addFlag_without flagged (shorts c o found)]
        exact ih added

-- One step of reading: what is found, what is left, and whether all that is left stands on its own.
inductive Step (f : CommandForm) (m : Matches) : List String → Matches → Bool → List String → Prop
  | ended (dashes : token.toList = ['-', '-']) : Step f m (token :: rest) m true rest
  | flag (dashed : token.toList = '-' :: '-' :: name) (named : name ≠ []) (lone : (splitAtEquals name).2 = none)
    (found : f.find? (splitAtEquals name).1 = some o) (flag : o.expects = .nothing) (added : addFlag m o = .ok m₁) :
    Step f m (token :: rest) m₁ false rest
  | attached (dashed : token.toList = '-' :: '-' :: name) (named : name ≠ [])
    (attached : (splitAtEquals name).2 = some value) (found : f.find? (splitAtEquals name).1 = some o)
    (option : o.expects ≠ .nothing) (added : addValue m o value = .ok m₁) : Step f m (token :: rest) m₁ false rest
  | behind (dashed : token.toList = '-' :: '-' :: name) (named : name ≠ []) (lone : (splitAtEquals name).2 = none)
    (found : f.find? (splitAtEquals name).1 = some o) (option : o.expects ≠ .nothing) (given : isValue value = true)
    (added : addValue m o value = .ok m₁) : Step f m (token :: value :: rest) m₁ false rest
  | shorts (short : token.toList = '-' :: c :: chars) (single : c ≠ '-')
    (added : f.addShorts m (c :: chars) = .ok m₁) : Step f m (token :: rest) m₁ false rest
  | positional (given : isValue token = true) (added : f.addPositional m token = .ok m₁) :
    Step f m (token :: rest) m₁ false rest

theorem step_of_read (done : f.read m false (token :: rest) = .ok m') :
    ∃ m₁ only rest', Step f m (token :: rest) m₁ only rest' ∧ f.read m₁ only rest' = .ok m' := by
  unfold read at done
  split at done
  · rename_i dashes
    exact ⟨m, true, rest, .ended dashes, done⟩
  · rename_i name named dashed
    dsimp only at done
    split at done
    · cases done
    · rename_i o found
      split at done
      · rename_i flag lone
        obtain ⟨m₁, added, done⟩ := Stop.of_bind_ok done
        exact ⟨m₁, false, _, .flag dashed named lone found flag added, done⟩
      · cases done
      · rename_i value attached option
        obtain ⟨m₁, added, done⟩ := Stop.of_bind_ok done
        exact ⟨m₁, false, _, .attached dashed named attached found option added, done⟩
      · rename_i value rest lone option
        cases given : isValue value <;> rw [given] at done
        · cases done
        · obtain ⟨m₁, added, done⟩ := Stop.of_bind_ok done
          exact ⟨m₁, false, rest, .behind dashed named lone found option given added, done⟩
      · cases done
  · rename_i c chars _ single short
    obtain ⟨m₁, added, done⟩ := Stop.of_bind_ok done
    exact ⟨m₁, false, rest, .shorts short single added, done⟩
  · rename_i short
    obtain ⟨m₁, added, done⟩ := Stop.of_bind_ok done
    refine ⟨m₁, false, rest, .positional ?_ added, done⟩
    unfold isValue
    split
    · exact absurd ‹_› (short _ _)
    · rfl

theorem read_option (dashed : token.toList = '-' :: '-' :: name) (named : name ≠ [])
    (found : f.find? (splitAtEquals name).1 = some o) (rest : List String) :
    f.read m false (token :: rest) = match o.expects, (splitAtEquals name).2, rest with
      | .nothing, none, rest => addFlag m o >>= fun m => f.read m false rest
      | .nothing, some _, _ => .error .misuse
      | _, some value, rest => addValue m o value >>= fun m => f.read m false rest
      | _, none, value :: rest =>
        bif isValue value then addValue m o value >>= fun m => f.read m false rest else .error .misuse
      | _, none, [] => .error .misuse := by
  rw [CommandForm.read.eq_def]
  dsimp only
  rw [dashed]
  split
  · rename_i same
    exact absurd (List.cons.inj (List.cons.inj same).2).2 named
  · rename_i same
    cases same
    generalize f.find? (splitAtEquals name).1 = known at found ⊢
    cases found
    rfl
  · rename_i single same
    exact absurd (List.cons.inj (List.cons.inj same).2).1.symm single
  · rename_i none_
    exact absurd rfl (none_ _ _)

theorem read_other (value : isValue token = true) (rest : List String) :
    f.read m false (token :: rest) = f.addPositional m token >>= fun m => f.read m false rest := by
  rw [CommandForm.read.eq_def]
  dsimp only
  unfold isValue at value
  split at value
  · cases value
  · rename_i other
    split
    · exact absurd ‹_› (other _ _)
    · exact absurd ‹_› (other _ _)
    · exact absurd ‹_› (other _ _)
    · rfl

theorem Step.read (step : Step f m tokens m₁ only rest) : f.read m false tokens = f.read m₁ only rest := by
  cases step with
  | ended dashes =>
    rw [CommandForm.read.eq_def]
    dsimp only
    rw [dashes]
    rfl
  | flag dashed named lone found flag added =>
    rw [read_option dashed named found, flag, lone]
    dsimp only
    rw [added]
    rfl
  | attached dashed named attached found option added =>
    rename_i o _
    rw [read_option dashed named found, attached]
    cases expected : o.expects with
    | nothing => exact absurd expected option
    | _ =>
      dsimp only
      rw [added]
      rfl
  | behind dashed named lone found option given added =>
    rename_i o value _
    rw [read_option dashed named found, lone]
    cases expected : o.expects with
    | nothing => exact absurd expected option
    | _ =>
      dsimp only
      rw [given, added]
      rfl
  | shorts short single added =>
    rw [CommandForm.read.eq_def]
    dsimp only
    rw [short]
    split
    · rename_i same
      exact absurd (List.cons.inj (List.cons.inj same).2).1 single
    · rename_i same
      exact absurd (List.cons.inj (List.cons.inj same).2).1 single
    · rename_i same
      cases same
      rw [added]
      rfl
    · rename_i none_
      exact absurd rfl (none_ _ _)
  | positional given added =>
    rw [read_other given, added]
    rfl

structure Writes (f : CommandForm) : Prop where
  bare : f.positionals = []
  output : ∀ o, f.find? "output" = some o → o.expects = .path
  shorts : ∀ o ∈ verbose :: f.options, o.short.isSome → o.name ≠ "output"

theorem Writes.short {f : CommandForm} (writes : f.Writes) (c : Char) (o : OptionForm)
    (found : f.findShort? c = some o) :
    o.name ≠ "output" := by
  have short : o.short = some c := by simpa using List.find?_some found
  exact writes.shorts o (List.mem_of_find?_eq_some found) (short ▸ rfl)

theorem name_of_find? (found : f.find? name = some o) : o.name = name := by
  simpa using List.find?_some found

theorem Step.withoutOutput (writes : f.Writes) (step : Step f m tokens m₁ only rest) :
    (only = false ∧ TwinShape.withoutOutput tokens = TwinShape.withoutOutput rest ∧
      m₁.without "output" = m.without "output") ∨
      Step f (m.without "output") (TwinShape.withoutOutput tokens) (m₁.without "output") only
        (TwinShape.withoutOutput rest) := by
  cases step with
  | ended dashes =>
    rw [withoutOutput_other (by rw [outputToken?_dashed dashes]; rfl)]
    exact .inr (.ended dashes)
  | flag dashed named lone found flag added =>
    rename_i name o _
    have other : (splitAtEquals name).1 ≠ "output" := by
      intro same
      have path := writes.output _ (same ▸ found)
      rw [flag] at path
      cases path
    rw [withoutOutput_other (by rw [outputToken?_dashed dashed, if_neg other])]
    exact .inr (.flag dashed named lone found flag (addFlag_without added (name_of_find? found ▸ other)))
  | attached dashed named attached found option added =>
    rename_i name value o _
    by_cases same : (splitAtEquals name).1 = "output"
    · refine .inl ⟨rfl, withoutOutput_attached (by rw [outputToken?_dashed dashed, if_pos same, attached]) _, ?_⟩
      rw [← same, ← name_of_find? found]
      exact without_addValue added
    · rw [withoutOutput_other (by rw [outputToken?_dashed dashed, if_neg same])]
      exact .inr (.attached dashed named attached found option (addValue_without added (name_of_find? found ▸ same)))
  | behind dashed named lone found option given added =>
    rename_i name o value _
    by_cases same : (splitAtEquals name).1 = "output"
    · refine .inl ⟨rfl, withoutOutput_behind (by rw [outputToken?_dashed dashed, if_pos same, lone]) _ _, ?_⟩
      rw [← same, ← name_of_find? found]
      exact without_addValue added
    · rw [withoutOutput_other (by rw [outputToken?_dashed dashed, if_neg same]),
        withoutOutput_other (outputToken?_value given)]
      exact .inr (.behind dashed named lone found option given (addValue_without added (name_of_find? found ▸ same)))
  | shorts short single added =>
    rw [withoutOutput_other (outputToken?_short short single)]
    exact .inr (.shorts short single (addShorts_without writes.short added))
  | positional given added =>
    rw [addPositional, writes.bare] at added
    cases added

theorem Step.shorter (step : Step f m tokens m₁ only rest) : rest.length < tokens.length := by
  cases step <;> simp +arith

theorem read_withoutOutput (writes : f.Writes) (m : Matches) (only : Bool) (tokens : List String)
    (done : f.read m only tokens = .ok m') :
    f.read (m.without "output") only (TwinShape.withoutOutput tokens) = .ok (m'.without "output") := by
  match tokens, only with
  | [], only =>
    rw [TwinShape.withoutOutput]
    unfold read at done ⊢
    split at done
    · cases done
      rw [if_pos ‹_›]
    · cases done
  | token :: rest, true =>
    rw [read, addPositional, writes.bare] at done
    cases done
  | token :: rest, false =>
    obtain ⟨m₁, only, rest', step, later⟩ := step_of_read done
    have ih := read_withoutOutput writes m₁ only rest' later
    rcases step.withoutOutput writes with ⟨rfl, tokens, found⟩ | step
    · rw [tokens, ← found]
      exact ih
    · rw [step.read]
      exact ih
termination_by tokens.length
decreasing_by exact step.shorter

end CommandForm

namespace Command

theorem types_writes : CommandForm.Writes ⟨[manifestForm, ⟨"output", none, .path⟩, ⟨"internal-suffix", none, .text⟩,
    ⟨"only", none, .texts⟩, ⟨"no-header", none, .nothing⟩], []⟩ := by
  refine ⟨rfl, fun o found => ?_, by decide⟩
  cases found
  rfl

theorem schema_writes : CommandForm.Writes ⟨[manifestForm, ⟨"output", none, .path⟩, ⟨"pretty", none, .nothing⟩,
    ⟨"root", none, .text⟩, ⟨"id", none, .text⟩, ⟨"title", none, .text⟩,
    ⟨"description", none, .text⟩, ⟨"defs", none, .nothing⟩], []⟩ := by
  refine ⟨rfl, fun o found => ?_, by decide⟩
  cases found
  rfl

def produces : Command → Bool
  | .types .. | .schema .. => true
  | _ => false

-- Only two commands produce a text, and what they are asked for but its place does not depend on the place.
theorem ofMatches?_withoutOutput {c : Command} {m : Matches} (found : ofMatches? name m = some c)
    (produces : c.produces) :
    (name = "types" ∨ name = "schema") ∧ ofMatches? name (m.without "output") = some c.withoutOutput := by
  unfold ofMatches? at found
  dsimp only at found
  split at found
  case h_1 bare | h_2 bare =>
    cases found
    simp [ofMatches?, Command.withoutOutput, Matches.without_value?, Matches.without_values, Matches.without_has,
      Matches.without_value?_self, Matches.without_positionals, bare]
  all_goals
    cases found
    try cases produces

end Command

namespace Invocation

-- What the first of the arguments is when they are read to their end.
inductive Opening (given : Bool) (token : String) (rest : List String) : Invocation → Prop
  | verbose (dashed : token.toList = '-' :: '-' :: "verbose".toList) (first : given = false)
      (later : readFrom true rest = .ok i) : Opening given token rest i
  | shorts (short : token.toList = '-' :: c :: shorts) (single : c ≠ '-')
      (lead : leadingShorts given (c :: shorts) = .ok now) (later : readFrom now rest = .ok i) : Opening given token rest i
  | command (name : CommandForm.isValue token = true) (formed : Command.form? token = some form)
      (read : form.read .empty false rest = .ok m) (found : Command.ofMatches? token m = some c) :
      Opening given token rest ⟨given || m.has CommandForm.verbose.name, c⟩

theorem opening_of_readFrom (done : readFrom given (token :: rest) = .ok i) : Opening given token rest i := by
  rw [readFrom.eq_def] at done
  dsimp only at done
  split at done
  · rename_i name dashed
    split at done
    · rename_i spelt
      obtain rfl : name = "verbose".toList := by rw [← spelt, String.toList_ofList]
      cases given with
      | true => cases done
      | false => exact .verbose dashed rfl done
    all_goals cases done
  · rename_i c shorts single short
    obtain ⟨now, lead, later⟩ := Stop.of_bind_ok done
    exact .shorts short single lead later
  · rename_i undashed single
    have name : CommandForm.isValue token = true := by
      unfold CommandForm.isValue
      split
      · exact absurd ‹_› (single _ _)
      · rfl
    split at done
    · cases done
    · rename_i form formed
      obtain ⟨m, read, done⟩ := Stop.of_bind_ok done
      split at done
      · rename_i c found
        cases done
        exact .command name formed read found
      · cases done

theorem Opening.readFrom (opening : Opening given token rest i) :
    Invocation.readFrom given (token :: rest) = .ok i := by
  rw [Invocation.readFrom.eq_def]
  dsimp only
  cases opening with
  | verbose dashed first later =>
    rw [dashed, first]
    exact later
  | shorts short single lead later =>
    rw [short]
    split
    · rename_i same
      exact absurd (List.cons.inj (List.cons.inj same).2).1 single
    · rename_i same
      cases same
      rw [lead]
      exact later
    · rename_i none_
      exact absurd rfl (none_ _ _)
  | command name formed read found =>
    unfold CommandForm.isValue at name
    split at name
    · cases name
    · rename_i other
      split
      · exact absurd ‹_› (other _ _)
      · exact absurd ‹_› (other _ _)
      · rw [formed]
        dsimp only
        rw [read]
        dsimp only [bind, Except.bind]
        rw [found]

theorem readFrom_withoutOutput {given : Bool} {arguments : List String} (done : readFrom given arguments = .ok i)
    (produces : i.command.produces) :
    readFrom given (withoutOutput arguments) = .ok { i with command := i.command.withoutOutput } := by
  induction arguments generalizing given with
  | nil => cases done
  | cons token rest ih =>
    cases opening_of_readFrom done with
    | verbose dashed first later =>
      rw [withoutOutput_other (by rw [outputToken?_dashed dashed]; rfl)]
      exact (Opening.verbose dashed first (ih later)).readFrom
    | shorts short single lead later =>
      rw [withoutOutput_other (outputToken?_short short single)]
      exact (Opening.shorts short single lead (ih later)).readFrom
    | @command form m c name formed read found =>
      obtain ⟨named, found⟩ := Command.ofMatches?_withoutOutput found produces
      have writes : form.Writes := by
        rcases named with rfl | rfl <;> cases formed
        · exact Command.types_writes
        · exact Command.schema_writes
      have opening : Opening given token (withoutOutput rest) _ :=
        .command name formed (CommandForm.read_withoutOutput writes _ _ _ read) found
      rw [withoutOutput_other (outputToken?_value name), opening.readFrom, Matches.without_has (by decide)]

theorem read_withoutOutput {arguments : List String} (done : read arguments = .ok i) (produces : i.command.produces) :
    read (withoutOutput arguments) = .ok { i with command := i.command.withoutOutput } :=
  readFrom_withoutOutput done produces

end Invocation
end TwinShape
