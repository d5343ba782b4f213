import Mathlib
import TwinShape.Proofs.Backends
import TwinShape.Proofs.Declaration.Restriction
import TwinShape.Schema.Evaluator

namespace TwinShape
namespace Registry
variable {r : Registry} {names : List String}

theorem schemaFor_restricts {options : SchemaOptions} (exact_ : r.Exact .external)
    (written : r.schemaFor names options .blank = (.ok part, m)) (written' : r.schema options .blank = (.ok whole, m')) :
    ∃ container container', part = schemaDocument options container ∧ whole = schemaDocument options container' ∧
      part.field? options.container.key = some (.object container) ∧
      whole.field? options.container.key = some (.object container') ∧
      ∀ name schema, Table.get? container name = some schema → Table.get? container' name = some schema := by
  have kept : Kept r fun m => r.InSession m ∧ r.Decided .external m := (reached_kept r).and (decisions_kept r .external)
  have blank : r.InSession .blank ∧ r.Decided .external .blank := ⟨.start r, decided_blank⟩
  have single : ∀ name a b, r.Tells (fun m => r.InSession m ∧ r.Decided .external m) name .external a →
      r.Tells (fun m => r.InSession m ∧ r.Decided .external m) name .external b → a = b := by
    rintro name a b ⟨m, ⟨-, before⟩, answered⟩ ⟨m', ⟨-, before'⟩, answered'⟩
    obtain ⟨n, resolves, projects⟩ := projectDefinition_exactly exact_ before answered
    obtain ⟨n', resolves', projects'⟩ := projectDefinition_exactly exact_ before' answered'
    cases resolves.unique resolves'
    exact exactly_determined (.inl rfl) projects projects'
  obtain ⟨container, made, known, -⟩ := schemaFor_collects kept blank single written
  obtain ⟨container', made', -, collected⟩ := schemaFor_collects kept blank single written'
  refine ⟨container, container', made, made', made ▸ schemaDocument_container _ _, made' ▸ schemaDocument_container _ _,
    fun name schema found => ?_⟩
  obtain ⟨n, told, rfl⟩ := known name schema found
  exact collected name (registered_of_tells (told.imp fun _ => And.left)).1 n told

-- What is written for some definitions is a part of what is written for all of them, each time
-- on a fresh registry.
theorem partial_restricts (exact_ : r.Exact .external) :
    (∀ options part whole m m', r.schemaFor names options .blank = (.ok part, m) → r.schema options .blank = (.ok whole, m') →
      ∃ container container', part = schemaDocument options container ∧ whole = schemaDocument options container' ∧
        part.field? options.container.key = some (.object container) ∧
        whole.field? options.container.key = some (.object container') ∧
        ∀ name schema, Table.get? container name = some schema → Table.get? container' name = some schema) ∧
    (r.Exact .internal → r.Settled → ∀ suffix part whole m m', r.Unclashing r.names suffix →
      r.declarationsFor names suffix .blank = (.ok part, m) → r.declarations suffix .blank = (.ok whole, m') →
      ∀ d ∈ part.declarations, d ∈ whole.declarations ∧
        ∀ d' ∈ whole.declarations, d'.name = d.name → d'.text = d.text) := by
  refine ⟨fun options part whole m m' written written' => schemaFor_restricts exact_ written written', ?_⟩
  intro inner settled suffix part whole m m' unclashing written written' d member
  have both : ∀ v, r.Exact v := by
    intro v
    cases v
    · exact exact_
    · exact inner
  have inside := declarationsFor_restricts both settled unclashing written written' member
  obtain ⟨_, l, -, -, -, accounts, -⟩ := declarationsFor_accounted written'
  have distinct : (whole.declarations.map (·.name)).Nodup := by
    change whole.names.Nodup
    rw [accounts.names]
    exact List.nodup_reverse.2 accounts.distinct
  refine ⟨inside, fun d' member' same => ?_⟩
  rw [List.inj_on_of_nodup_map distinct member' inside same]

theorem descending_settled : descending.Settled := by
  refine throughout_of_definitions (List.forall_mem_cons.2 ⟨?_, List.forall_mem_singleton.2 ?_⟩)
  · refine Node.each_iff.2 ⟨⟨nofun, nofun⟩, List.forall_mem_cons.2 ⟨?_, List.forall_mem_singleton.2 ?_⟩⟩
    · exact Node.each_of_bare rfl ⟨nofun, nofun⟩
    · exact Node.each_of_bare rfl ⟨nofun, nofun⟩
  · refine Node.each_iff.2 ⟨⟨nofun, nofun⟩, List.forall_mem_cons.2 ⟨?_, List.forall_mem_singleton.2 ?_⟩⟩
    · exact Node.each_of_bare rfl ⟨nofun, nofun⟩
    · exact Node.each_of_bare rfl ⟨nofun, nofun⟩

-- The declaration of `B` is written first when `B` alone is asked for, and from the inside of
-- the internal shape of `A` when all are.
theorem partial_restricts_descending : (∀ v, descending.Exact v) ∧ descending.Settled ∧
    descending.Unclashing descending.names "Internal" ∧
    ∃ part m whole m' document k document' k', descending.schemaFor ["B"] .plain .blank = (.ok part, m) ∧
      descending.schema .plain .blank = (.ok whole, m') ∧
      descending.declarationsFor ["B"] "Internal" .blank = (.ok document, k) ∧
      descending.declarations "Internal" .blank = (.ok document', k') ∧
      document.names = ["B"] ∧ document'.names = ["A", "AInternal", "B"] ∧
      (∃ container container', part = schemaDocument .plain container ∧ whole = schemaDocument .plain container' ∧
        part.field? "definitions" = some (.object container) ∧ whole.field? "definitions" = some (.object container') ∧
        ∀ name schema, Table.get? container name = some schema → Table.get? container' name = some schema) ∧
      ∀ d ∈ document.declarations, d ∈ document'.declarations := by
  have exact_ : ∀ v, descending.Exact v := exact_of_unlinked (unlinked_of_common descending_common)
  have apart : ∀ b ∈ descending.names ++ descending.names, b ++ "Internal" ∉ descending.names ++ descending.names := by decide
  have unclashing : descending.Unclashing descending.names "Internal" := fun a listed b listed' made =>
    apart b listed' (made.2 ▸ listed)
  refine ⟨exact_, descending_settled, unclashing, ?_⟩
  have succeeds : (descending.schemaFor ["B"] .plain .blank).1.isOk = true := by cbv
  have succeeds' : (descending.schema .plain .blank).1.isOk = true := by cbv
  have names : (descending.declarationsFor ["B"] "Internal" .blank).1.toOption.map DeclarationDocument.names = some ["B"] := by cbv
  have names' : (descending.declarations "Internal" .blank).1.toOption.map DeclarationDocument.names =
      some ["A", "AInternal", "B"] := by cbv
  rcases written : descending.schemaFor ["B"] .plain .blank with ⟨e | part, m⟩ <;> rw [written] at succeeds
  · cases succeeds
  rcases written' : descending.schema .plain .blank with ⟨e | whole, m'⟩ <;> rw [written'] at succeeds'
  · cases succeeds'
  rcases declared : descending.declarationsFor ["B"] "Internal" .blank with ⟨e | document, k⟩ <;> rw [declared] at names
  · cases names
  rcases declared' : descending.declarations "Internal" .blank with ⟨e | document', k'⟩ <;> rw [declared'] at names'
  · cases names'
  have restricts := @partial_restricts descending ["B"] (exact_ .external)
  exact ⟨part, m, whole, m', document, k, document', k', rfl, rfl, rfl, rfl, Option.some.inj names, Option.some.inj names',
    restricts.1 _ _ _ _ _ written written', fun d member =>
      (restricts.2 (exact_ .internal) descending_settled _ _ _ _ _ unclashing declared declared' d member).1⟩

-- `A` has no external shape, so neither has `B`. On its own, `X` loses its property; after `A`
-- has been looked at, `B` counts as present, and `X` keeps it.
def detouring : Registry :=
  ⟨[⟨"A", .link (.referenceTo "B") (Node.string.onlyIn .internal)⟩, ⟨"B", .arrayOf (.referenceTo "A")⟩,
    ⟨"X", .ofProperties [.of "p" (.link (.referenceTo "B") .string)]⟩], by decide, .builtIn⟩

def schemaIn (name : String) : Except Fault Json → Option Json
  | .ok (.object fields) =>
    match Table.get? fields "definitions" with
    | some (.object container) => Table.get? container name
    | _ => none
  | _ => none

theorem detouring_apart : ∃ schema schema', schemaIn "X" (detouring.schemaFor ["X"] .plain .blank).1 = some schema ∧
    schemaIn "X" (detouring.schema .plain .blank).1 = some schema' ∧ schema ≠ schema' := by
  have alone : (schemaIn "X" (detouring.schemaFor ["X"] .plain .blank).1).map Json.declaredKeys = some [] := by cbv
  have among : (schemaIn "X" (detouring.schema .plain .blank).1).map Json.declaredKeys = some ["p"] := by cbv
  obtain ⟨schema, found, keys⟩ := Option.map_eq_some_iff.1 alone
  obtain ⟨schema', found', keys'⟩ := Option.map_eq_some_iff.1 among
  refine ⟨schema, schema', found, found', fun same => ?_⟩
  rw [same, keys'] at keys
  cases keys

end Registry
end TwinShape
