import Mathlib
import TwinShape.Node.Builder
import TwinShape.Proofs.Declaration.Writing
import TwinShape.Proofs.Projection.References
import TwinShape.Proofs.Variation.Detection
import TwinShape.Proofs.Variation.Likeness
import TwinShape.Schema.Evaluator

namespace TwinShape

def Registry.Imports (r : Registry) (module name : String) : Prop :=
  ∃ definition n, r.find? definition = some n ∧ ∃ x : Node, x.Part n ∧ x.shape = .imported name module

def Registry.Knows (r : Registry) (n : Node) : Prop :=
  ∀ name module, n.shape = .imported name module → r.Imports module name

-- A name with a suffix, which the internal shape of a definition is given if it is found to differ.
def Registry.Suffixed (r : Registry) (suffix definition identifier : String) : Prop :=
  r.Judges r.InSession definition .internal true ∧ identifier = definition ++ suffix

-- No name is made by the suffix that is a name already.
def Registry.Unclashing (r : Registry) (names : List String) (suffix : String) : Prop :=
  ∀ a ∈ names ++ r.names, ∀ b ∈ names ++ r.names, ¬r.Suffixed suffix b a

-- Nor is an imported name one of these, and none comes from two modules.
structure Registry.Separable (r : Registry) (names : List String) (suffix : String) : Prop where
  apart : r.Unclashing names suffix
  foreign : r.Imports module name → b ∈ names ++ r.names → name ≠ b ∧ ¬r.Suffixed suffix b name
  single : r.Imports module name → r.Imports module' name → module = module'

-- What an identifier can stand for: the shape of a definition whose shapes are the same, one
-- of the two shapes of any other, or a name in a module.
inductive Entity where
  | whole (definition : String)
  | side (definition : String) (v : Variant)
  | foreign (module name : String)

inductive Registry.Means (r : Registry) (l : Ledger) : String → Entity → Prop
  | whole (given : l.gives v definition identifier) (clean : r.CleanName definition) :
      Means r l identifier (.whole definition)
  | side (given : l.gives v definition identifier) (differs : ¬r.CleanName definition) :
      Means r l identifier (.side definition v)
  | foreign (taken : l.takes module name) : Means r l name (.foreign module name)

namespace Registry
variable {r : Registry} {suffix : String} {names : List String} {l : Ledger}

theorem clean_of_judged (judged : r.Judges r.InSession name .internal false) : r.CleanName name := by
  obtain ⟨m, reached, found⟩ := judged
  refine cleanName_iff.2 fun somewhere => ?_
  obtain ⟨x, reach, restricted⟩ := somewhere
  exact Bool.false_ne_true (found.symm.trans (differs_of_reaches reached.honest reach restricted))

theorem shows_of_tells (told : r.Tells r.InSession name v out) : r.Shows v name out := by
  obtain ⟨m, reached, answered⟩ := told
  have holds : r.fairness.Holds m := reached.holds fairness
  exact holds.projectDefinition answered

theorem registered_of_tells (told : r.Tells r.InSession name v (some n)) :
    name ∈ r.names ∧ n.RefersTo (· ∈ r.names) := by
  obtain ⟨m, reached, answered⟩ := told
  exact reached.refersTo_registered answered

theorem listed_of_leads (sound : l.Sound r suffix r.InSession names) (leads : l.Leads r r.InSession names name v) :
    name ∈ names ++ r.names := by
  cases leads with
  | listed member | apart member _ => exact List.mem_append_left _ member
  | @mentioned _ o _ entry _ inside =>
    obtain ⟨x, part, sends⟩ := Node.exists_sender inside
    rcases Shape.errand?_cases sends with ⟨other, shape, same⟩ | ⟨_, _, _, same⟩
    · cases same
      exact List.mem_append_right _ ((registered_of_tells (sound.origins _ entry).projected).2 x part name shape)
    · cases same

-- What is imported is written somewhere: projections make up no imports.
theorem imports_of_takes (sound : l.Sound r suffix r.InSession names) (taken : l.takes module name) :
    r.Imports module name := by
  obtain ⟨⟨identifier, o⟩, entry, inside⟩ := sound.imports module name taken
  obtain ⟨x, part, sends⟩ := Node.exists_sender inside
  rcases Shape.errand?_cases sends with ⟨_, _, same⟩ | ⟨_, _, shape, same⟩
  · cases same
  · cases same
    obtain ⟨n, resolves, projects⟩ := shows_of_tells (sound.origins _ entry).projected
    have definitions : r.Throughout r.Knows :=
      fun definition target found y inside name module shape => ⟨definition, target, found, y, inside, shape⟩
    refine projects.each (A := r.Knows) definitions (fun m given _ => given) ?_ ?_ ?_ (definitions _ n resolves.1) o.node rfl x
      part _ _ shape
    · rintro m other _ _ name module ⟨⟩
    · rintro m declaration schema _ _ name module ⟨⟩
    · rintro m s _ composite name module shape
      change s = .imported name module at shape
      rw [shape] at composite
      cases composite

theorem names_injective (unclashing : r.Unclashing names suffix) (listed : a ∈ names ++ r.names)
    (listed' : b ∈ names ++ r.names)
    (named : r.Names suffix r.InSession a v identifier) (named' : r.Names suffix r.InSession b w identifier) :
    a = b ∧ (v = w ∨ r.CleanName a) := by
  have internal : ∀ {definition v}, r.Judges r.InSession definition v true → v = .internal := by
    intro definition v judged
    cases v with
    | external => cases judged.external
    | internal => rfl
  obtain ⟨apart, judged, rfl⟩ := named
  obtain ⟨apart', judged', same⟩ := named'
  cases apart with
  | true =>
    cases internal judged
    cases apart' with
    | true =>
      cases internal judged'
      exact ⟨(String.append_left_inj suffix).1 same, .inl rfl⟩
    | false => exact absurd ⟨judged, same.symm⟩ (unclashing _ listed' _ listed)
  | false =>
    cases apart' with
    | true =>
      cases internal judged'
      exact absurd ⟨judged', same⟩ (unclashing _ listed _ listed')
    | false =>
      obtain rfl : a = b := same
      cases v <;> cases w
      · exact ⟨rfl, .inl rfl⟩
      · exact ⟨rfl, .inr (clean_of_judged judged')⟩
      · exact ⟨rfl, .inr (clean_of_judged judged)⟩
      · exact ⟨rfl, .inl rfl⟩

theorem not_foreign (separable : r.Separable names suffix) (imported : r.Imports module identifier)
    (listed : b ∈ names ++ r.names) : ¬r.Names suffix r.InSession b v identifier := by
  rintro ⟨apart, judged, rfl⟩
  have ⟨own, made⟩ := separable.foreign imported listed
  cases apart with
  | false => exact own rfl
  | true =>
    cases v with
    | external => cases judged.external
    | internal => exact made ⟨judged, rfl⟩

-- Nothing has two meanings.
theorem means_unique (separable : r.Separable names suffix) (sound : l.Sound r suffix r.InSession names)
    (first : r.Means l identifier e) (second : r.Means l identifier e') : e = e' := by
  have both : ∀ {v w a b}, l.gives v a identifier → l.gives w b identifier → a = b ∧ (v = w ∨ r.CleanName a) := by
    intro v w a b given given'
    have answered := sound.calls _ given
    have answered' := sound.calls _ given'
    exact names_injective separable.apart (listed_of_leads sound answered.led) (listed_of_leads sound answered'.led)
      answered.named answered'.named
  have apart : ∀ {v a module}, l.gives v a identifier → ¬l.takes module identifier := by
    intro v a module given taken
    have answered := sound.calls _ given
    exact not_foreign separable (imports_of_takes sound taken) (listed_of_leads sound answered.led) answered.named
  cases first with
  | whole given clean =>
    cases second with
    | whole given' clean' => rw [(both given given').1]
    | side given' differs => exact absurd ((both given given').1 ▸ clean) differs
    | foreign taken => exact absurd taken (apart given)
  | side given differs =>
    cases second with
    | whole given' clean' => exact absurd ((both given given').1 ▸ clean') differs
    | side given' differs' =>
      obtain ⟨rfl, same⟩ := both given given'
      rw [same.resolve_right differs]
    | foreign taken => exact absurd taken (apart given)
  | foreign taken =>
    cases second with
    | whole given _ | side given _ => exact absurd taken (apart given)
    | foreign taken' => rw [separable.single (imports_of_takes sound taken) (imports_of_takes sound taken')]

-- Under the identifier that is given for a definition stands a shape of that definition.
theorem owner_of_gives (unclashing : r.Unclashing names suffix) (sound : l.Sound r suffix r.InSession names)
    (given : l.gives v name identifier) : ∃ o, (identifier, o) ∈ l.origins ∧ o.definition = name ∧
      (o.variant = v ∨ r.CleanName name) ∧ r.Tells r.InSession name o.variant (some o.node) := by
  have answered := sound.calls _ given
  obtain ⟨⟨_, o⟩, entry, rfl⟩ := List.mem_map.1 answered.declared
  have entered := sound.origins _ entry
  have owner := sound.calls _ entered.called
  have ⟨same, variant⟩ := names_injective unclashing (listed_of_leads sound owner.led) (listed_of_leads sound answered.led)
    entered.named answered.named
  dsimp only at same
  have told := entered.projected
  rw [same] at variant told
  exact ⟨o, entry, same, variant, told⟩

theorem means_of_gives (given : l.gives v name identifier) : ∃ e, r.Means l identifier e := by
  by_cases clean : r.CleanName name
  · exact ⟨_, .whole given clean⟩
  · exact ⟨_, .side given clean⟩

-- Every identifier of a document stands for one thing. Whatever was asked for or referred to has
-- an identifier, unless it has no shape, and under that its own shape is declared.
theorem declarationsFor_identifies (reached : r.InSession m) (separable : r.Separable names suffix)
    (written : r.declarationsFor names suffix m = (.ok document, m')) :
    ∃ l : Ledger, l.Accounts document ∧
      (∀ identifier, identifier ∈ document.names ∨ (∃ module, identifier ∈ (document.imports.get? module).getD []) →
        ∃! e, r.Means l identifier e) ∧
      (∀ name ∈ names, ∀ v, v = .external ∨ ¬r.CleanName name →
        (∃ identifier, l.gives v name identifier) ∨ r.Tells r.InSession name v none) ∧
      ∀ v name identifier, l.gives v name identifier → ∃ o, ∃ declaration ∈ document.declarations,
        (identifier, o) ∈ l.origins ∧ l.Renders identifier o declaration ∧ o.definition = name ∧
          (o.variant = v ∨ r.CleanName name) ∧ r.Shows v name (some o.node) := by
  obtain ⟨d, l, -, -, strides, accounts, -⟩ := declarationsFor_accounted written
  have kept := reached_kept r
  have start : Progress.Sound r suffix r.InSession names ⟨.blank, errandsFor names, m⟩ := errandsFor_sound names reached
  have sound := (strides_sound kept strides start).ledger
  have done := strides_done kept strides rfl start
  refine ⟨l, accounts, fun identifier known => ?_, fun name member v wanted => ?_, fun v name identifier given => ?_⟩
  · have some_ : ∃ e, r.Means l identifier e := by
      rcases known with declared | ⟨module, taken⟩
      · rw [accounts.names, List.mem_reverse] at declared
        obtain ⟨⟨_, o⟩, entry, rfl⟩ := List.mem_map.1 declared
        exact means_of_gives (sound.origins _ entry).called
      · rw [accounts.imports] at taken
        exact ⟨_, .foreign taken⟩
    obtain ⟨e, means⟩ := some_
    exact ⟨e, means, fun e' means' => means_unique separable sound means' means⟩
  · have inside : ∀ e ∈ [Errand.declare name .external, .compare name], e ∈ errandsFor names := fun e here =>
      List.mem_flatMap.2 ⟨name, member, here⟩
    cases v with
    | external => exact done _ (inside _ List.mem_cons_self)
    | internal =>
      rcases done _ (inside _ (List.mem_cons_of_mem _ List.mem_cons_self)) with alike | found
      · exact absurd (clean_of_judged alike) (wanted.resolve_left nofun)
      · exact found
  · obtain ⟨o, entry, same, variant, told⟩ := owner_of_gives separable.apart sound given
    obtain ⟨declaration, inside, renders⟩ := forall₂_right accounts.declared (List.mem_reverse.2 entry)
    refine ⟨o, declaration, inside, entry, renders, same, variant, ?_⟩
    rcases variant with rfl | clean
    · exact shows_of_tells told
    · exact (shows_of_tells told).across v clean

def sharing : Registry :=
  ⟨[⟨"A", .ofProperties [.of "b" (.referenceTo "B"), .onlyIn (.of "c" .string) .internal]⟩,
    ⟨"B", .ofProperties [.of "d" (.importOf "Date" "./dates")]⟩], by decide, .builtIn⟩

theorem sharing_imports (imported : sharing.Imports module name) : name = "Date" ∧ module = "./dates" := by
  have only : sharing.Throughout fun x => ∀ name module, x.shape = .imported name module → name = "Date" ∧ module = "./dates" := by
    refine throughout_of_definitions (List.forall_mem_cons.2 ⟨?_, List.forall_mem_singleton.2 ?_⟩)
    · refine Node.each_iff.2 ⟨nofun, List.forall_mem_cons.2 ⟨?_, List.forall_mem_singleton.2 ?_⟩⟩
      · exact Node.each_of_bare rfl nofun
      · exact Node.each_of_bare rfl nofun
    · refine Node.each_iff.2 ⟨nofun, List.forall_mem_singleton.2 (Node.each_of_bare rfl ?_)⟩
      rintro _ _ ⟨⟩
      exact ⟨rfl, rfl⟩
  obtain ⟨definition, n, found, x, part, shape⟩ := imported
  exact only definition n found x part name module shape

theorem sharing_separable : sharing.Separable ["A"] "Internal" := by
  have apart : ∀ b ∈ ["A"] ++ sharing.names, b ++ "Internal" ∉ ["A"] ++ sharing.names ∧ b ≠ "Date" ∧ b ++ "Internal" ≠ "Date" := by
    decide
  refine ⟨fun a listed b listed' made => ?_, fun imported listed => ?_, fun imported imported' => ?_⟩
  · exact (apart _ listed').1 (made.2 ▸ listed)
  · rw [(sharing_imports imported).1]
    exact ⟨(apart _ listed).2.1.symm, fun made => (apart _ listed).2.2 made.2.symm⟩
  · rw [(sharing_imports imported).2, (sharing_imports imported').2]

theorem declarationsFor_sharing : sharing.Separable ["A"] "Internal" ∧
    ∃ document m', sharing.declarationsFor ["A"] "Internal" .blank = (.ok document, m') ∧
      document.names = ["A", "B", "AInternal"] ∧
      ∃ l : Ledger, l.Accounts document ∧ ∀ identifier ∈ document.names, ∃! e, sharing.Means l identifier e := by
  have names : (sharing.declarationsFor ["A"] "Internal" .blank).1.toOption.map DeclarationDocument.names =
      some ["A", "B", "AInternal"] := by cbv
  refine ⟨sharing_separable, ?_⟩
  rcases written : sharing.declarationsFor ["A"] "Internal" .blank with ⟨e | document, m'⟩ <;> rw [written] at names
  · cases names
  · obtain ⟨l, accounts, once, -⟩ := declarationsFor_identifies (.start sharing) sharing_separable written
    exact ⟨document, m', rfl, Option.some.inj names, l, accounts, fun identifier member => once identifier (.inl member)⟩

-- The internal shape of one definition has the name of the other one.
def clashing : Registry :=
  ⟨[⟨"A", .ofProperties [.of "a" .string, .onlyIn (.of "b" .string) .internal]⟩,
    ⟨"AInternal", .ofProperties [.of "x" .string]⟩], by decide, .builtIn⟩

-- Whichever comes first has the identifier, and the other one is lost.
theorem clashing_loses : ∃ document, (clashing.declarations "Internal" .blank).1 = .ok document ∧
    document.names = ["A", "AInternal"] ∧
    (clashing.projectDefinition "AInternal" .external .blank).1 = .ok (some (.ofProperties [.of "x" .string])) ∧
    ∀ declaration ∈ document.declarations, ∀ l : Ledger,
      ¬l.Renders "AInternal" ⟨"AInternal", .external, .ofProperties [.of "x" .string]⟩ declaration := by
  refine ⟨⟨[], [⟨"A", _, .interface [⟨_, "a", false, .keyword "string"⟩] none⟩,
    ⟨"AInternal", _, .interface [⟨_, "a", false, .keyword "string"⟩, ⟨_, "b", false, .keyword "string"⟩] none⟩]⟩,
    by cbv, rfl, by cbv, ?_⟩
  intro declaration member l renders
  obtain ⟨members, index, body, keys, -⟩ := renders.body.object rfl
  rcases List.mem_cons.1 member with rfl | member
  · cases body
    exact absurd keys (by decide)
  · cases List.mem_singleton.1 member
    cases body
    exact absurd keys (by decide)

end Registry
end TwinShape
