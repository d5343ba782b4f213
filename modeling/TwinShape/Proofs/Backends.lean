import Mathlib
import TwinShape.Proofs.Declaration.Identifiers
import TwinShape.Proofs.Declaration.Printing
import TwinShape.Proofs.Projection.Determinacy
import TwinShape.Proofs.Schema.Container
import TwinShape.Proofs.Schema.Objects
import TwinShape.Schema.Evaluator

namespace TwinShape

namespace TypeExpr

def block (depth : Nat) : List String → String
  | [] => "\x7b\x7d"
  | lines => "\x7b\n" ++ "\n".intercalate lines ++ "\n" ++ Text.indent depth ++ "\x7d"

theorem write_record (depth : Nat) (members : List (Member TypeExpr)) (index : Option TypeExpr) :
    (record members index).write depth = block depth (writeMembers depth members ++ writeIndex depth index) := by
  rw [write]
  rfl

def memberLine (m : Member TypeExpr) : String :=
  m.comment.text 1 ++ Text.indent 1 ++ keyText m.key ++ (bif m.optional then "?" else "") ++ ": " ++ m.type.write 1 ++ ";"

def indexLine (t : TypeExpr) : String := Text.indent 1 ++ "[key: string]: " ++ t.write 1 ++ ";"

theorem writeMembers_eq (members : List (Member TypeExpr)) : writeMembers 0 members = members.map memberLine := by
  induction members with
  | nil => rfl
  | cons m rest ih =>
    rw [writeMembers, ih]
    rfl

theorem writeIndex_eq (index : Option TypeExpr) : writeIndex 0 index = index.toList.map indexLine := by
  cases index <;> rfl

end TypeExpr

-- An interface whose text says the same about the keys of objects as a schema.
def Declaration.Mirrors (d : Declaration) (schema : Json) : Prop :=
  ∃ members index, d.body = .interface members index ∧
    members.map (fun m => (m.key, m.optional)) = schema.declaredKeys.map (fun key => (key, !schema.needsKey key)) ∧
    (index = none ↔ schema.isClosed) ∧
    d.text = d.comment.text 0 ++ ("export interface " ++ d.name ++ " " ++
      TypeExpr.block 0 (members.map TypeExpr.memberLine ++ index.toList.map TypeExpr.indexLine))

theorem Declaration.mirrors {d : Declaration} {schema : Json} {members : List (Member TypeExpr)}
    {index : Option TypeExpr}
    (body : d.body = .interface members index)
    (keys : members.map (fun m => (m.key, m.optional)) = schema.declaredKeys.map fun key => (key, !schema.needsKey key))
    (closed : index = none ↔ schema.isClosed) : d.Mirrors schema := by
  refine ⟨members, index, body, keys, closed, ?_⟩
  unfold Declaration.text
  rw [body, ← TypeExpr.writeMembers_eq, ← TypeExpr.writeIndex_eq, ← TypeExpr.write_record]

namespace Registry
variable {r : Registry} {suffix : String} {names : List String}

-- The declaration and the schema of one object say the same about its keys.
theorem mirrors_of_bodied (c : Container) {d : Declaration} {n : Node} {o : ObjectShape Node}
    (shape : n.shape = .object o)
    (tidy : n.shape.Tidy) (common : n.Each (·.shape.isCommon)) (bodied : n.Bodied given taken d.body) :
    d.Mirrors (n.schema c) := by
  obtain ⟨members, index, body, keys, closed⟩ := bodied.object shape
  rw [shape] at tidy
  have distinct := tidy.1
  refine d.mirrors body ?_ (closed.trans (Iff.symm (Node.schema_isClosed c shape distinct fun m member declaration schema raw => ?_)))
  · rw [keys, Node.schema_declaredKeys c shape distinct, List.map_map]
    refine List.map_congr_left fun p member => Prod.ext rfl ?_
    have needs := Node.schema_needsKey c shape distinct p.name
    cases optional : p.value.isOptional with
    | false =>
      change false = !(n.schema c).needsKey p.name
      rw [needs.2 ⟨p, member, rfl, optional⟩]
      rfl
    | true =>
      change true = !(n.schema c).needsKey p.name
      cases needed : (n.schema c).needsKey p.name with
      | false => rfl
      | true =>
        obtain ⟨q, member', same, needed⟩ := needs.1 needed
        cases List.inj_on_of_nodup_map distinct member' member same
        cases optional.symm.trans needed
  · have child : m ∈ n.children :=
      Node.child_of_shape shape (List.mem_append_left _ (List.mem_append_right _ member))
    have here : m.shape.isCommon := common m (.inside child .self)
    rw [raw] at here
    cases here

theorem tidy_of_tells (common : r.Throughout (·.shape.isCommon)) (told : r.Tells r.InSession name v (some n)) :
    n.shape.Tidy ∧ n.Each (·.shape.isCommon) := by
  obtain ⟨own, resolves, projects⟩ := shows_of_tells told
  obtain ⟨m, reached, answered⟩ := told
  obtain ⟨target, -, projected⟩ := projectDefinition_ok reached.honest.built.sound answered
  have tidy := project_out (.plain r v) (fun _ _ _ => trivial) trivial projected
  exact ⟨(tidy n .self).1, projects.common common (common name own resolves.1) n rfl⟩

theorem unlinked_of_common (common : r.Throughout (·.shape.isCommon)) : r.Unlinked := by
  intro name n found x part
  have here : x.shape.isCommon := common name n found x part
  cases shape : x.shape <;> rw [shape] at here <;> first | rfl | cases here

theorem declared_of_tells (unlinked : r.Unlinked) (unclashing : r.Unclashing names suffix) (reached : r.InSession m)
    (written : r.declarationsFor names suffix m = (.ok document, m')) (listed : name ∈ names)
    (told : r.Tells r.InSession name .external (some n)) :
    ∃ declaration ∈ document.declarations, ∃ l : Ledger, ∃ v, declaration.name = name ∧
      n.Bodied (l.gives v) l.takes declaration.body := by
  obtain ⟨d, l, -, -, strides, accounts, -⟩ := declarationsFor_accounted written
  have kept := reached_kept r
  have start : Progress.Sound r suffix r.InSession names ⟨.blank, errandsFor names, m⟩ := errandsFor_sound names reached
  have sound := (strides_sound kept strides start).ledger
  have asked : Errand.declare name .external ∈ errandsFor names :=
    List.mem_flatMap.2 ⟨name, listed, List.mem_cons_self⟩
  rcases strides_done kept strides rfl start _ asked with ⟨identifier, given⟩ | none_
  · obtain ⟨o, entry, rfl, variant, told'⟩ := owner_of_gives unclashing sound given
    have own : identifier = o.definition := by
      obtain ⟨apart, judged, same⟩ := (sound.calls _ given).named
      rw [judged.external] at same
      exact same
    obtain ⟨declaration, inside, renders⟩ := forall₂_right accounts.declared (List.mem_reverse.2 entry)
    cases projection_determined unlinked variant told' told
    exact ⟨declaration, inside, l, o.variant, renders.name.trans own, renders.body⟩
  · cases projection_determined unlinked (.inl rfl) none_ told

theorem collected_of_tells (unlinked : r.Unlinked) (reached : r.InSession m)
    (written : r.schemaFor names options m = (.ok json, m')) :
    ∃ container, json = schemaDocument options container ∧ ∀ name ∈ names, ∀ n, r.Tells r.InSession name .external (some n) →
      Table.get? container name = some (n.schema options.container) := by
  obtain ⟨container, made, -, collected⟩ := schemaFor_collects (reached_kept r) reached
    (fun _ _ _ => projection_determined unlinked (.inl rfl)) written
  exact ⟨container, made, collected⟩

-- Declarations and schemas that sessions with a registry emit, whichever of them first, say the
-- same about the external objects.
theorem backends_agree (common : r.Throughout (·.shape.isCommon)) (proper : suffix ≠ "")
    (apart : ∀ a ∈ r.names, ∀ b ∈ r.names, a ≠ b → a ≠ b ++ suffix)
    (declaring : r.InSession m) (declared : r.declarations suffix m = (.ok document, m'))
    (emitting : r.InSession k) (emitted : r.schema options k = (.ok json, k')) :
    ∃ container, json.field? options.container.key = some (.object container) ∧ (∀ style, document.Prints style) ∧
      ∀ name n o, r.Tells r.InSession name .external (some n) → n.shape = .object o →
        ∃ declaration ∈ document.declarations, ∃ schema, declaration.name = name ∧ Table.get? container name = some schema ∧
          declaration.Mirrors schema := by
  have unlinked := unlinked_of_common common
  have unclashing : r.Unclashing r.names suffix := by
    intro a listed b listed' made
    obtain ⟨-, rfl⟩ := made
    rw [List.mem_append, or_self] at listed listed'
    by_cases same : b ++ suffix = b
    · exact proper ((String.append_right_inj b).1 (same.trans String.append_empty.symm))
    · exact apart _ listed b listed' same rfl
  obtain ⟨container, made, collected⟩ := collected_of_tells unlinked emitting emitted
  refine ⟨container, made ▸ schemaDocument_container _ _, document.prints, fun name n o told shape => ?_⟩
  have registered := (registered_of_tells told).1
  obtain ⟨declaration, inside, l, v, named, bodied⟩ := declared_of_tells unlinked unclashing declaring declared registered told
  have ⟨tidy, plain⟩ := tidy_of_tells common told
  exact ⟨declaration, inside, _, named, collected name registered n told, mirrors_of_bodied _ shape tidy plain bodied⟩

-- `B` is first come to from the inside of `A`, and its one declaration is written there.
def descending : Registry :=
  ⟨[⟨"A", .ofProperties [.of "a" .string, .onlyIn (.of "b" (.referenceTo "B")) .internal]⟩,
    ⟨"B", .allowAdditional (.ofProperties [.of "x" .string, .of "y" (.optional .number)])⟩], by decide, .builtIn⟩

theorem descending_common : descending.Throughout (·.shape.isCommon) := by
  refine throughout_of_definitions (List.forall_mem_cons.2 ⟨?_, List.forall_mem_singleton.2 ?_⟩)
  · refine Node.each_iff.2 ⟨rfl, List.forall_mem_cons.2 ⟨?_, List.forall_mem_singleton.2 ?_⟩⟩
    · exact Node.each_of_bare rfl rfl
    · exact Node.each_of_bare rfl rfl
  · refine Node.each_iff.2 ⟨rfl, List.forall_mem_cons.2 ⟨?_, List.forall_mem_singleton.2 ?_⟩⟩
    · exact Node.each_of_bare rfl rfl
    · exact Node.each_of_bare rfl rfl

theorem backends_agree_descending :
    descending.Throughout (·.shape.isCommon) ∧ "Internal" ≠ "" ∧
    (∀ a ∈ descending.names, ∀ b ∈ descending.names, a ≠ b → a ≠ b ++ "Internal") ∧
    ∃ document m' json k', descending.declarations "Internal" .blank = (.ok document, m') ∧
      descending.schema .plain m' = (.ok json, k') ∧ document.names = ["A", "AInternal", "B"] ∧
      document.Prints .usual ∧
      ∃ container, json.field? "definitions" = some (.object container) ∧
        ∃ declaration ∈ document.declarations, ∃ schema, declaration.name = "B" ∧ Table.get? container "B" = some schema ∧
          declaration.Mirrors schema := by
  have apart : ∀ a ∈ descending.names, ∀ b ∈ descending.names, a ≠ b → a ≠ b ++ "Internal" := by decide
  have names : (descending.declarations "Internal" .blank).1.toOption.map DeclarationDocument.names =
      some ["A", "AInternal", "B"] := by cbv
  have succeeds : (descending.schema .plain (descending.declarations "Internal" .blank).2).1.isOk = true := by cbv
  refine ⟨descending_common, by decide, apart, ?_⟩
  have after := (reached_kept descending).request_keeps (.declarations descending.names "Internal") (.start descending)
  rw [← Request.reply_after] at after
  change descending.InSession (descending.declarations "Internal" .blank).2 at after
  rcases declared : descending.declarations "Internal" .blank with ⟨e | document, m'⟩ <;> rw [declared] at names succeeds after
  · cases names
  · rcases emitted : descending.schema .plain m' with ⟨e | json, k'⟩
    · rw [emitted] at succeeds
      cases succeeds
    · obtain ⟨container, made, prints, agree⟩ := backends_agree descending_common (by decide) apart (.start descending) declared after emitted
      have told : descending.Tells descending.InSession "B" .external
          (some (.allowAdditional (.ofProperties [.of "x" .string, .of "y" (.optional .number)]))) :=
        ⟨.blank, .start descending, by cbv⟩
      exact ⟨document, m', json, k', rfl, emitted, Option.some.inj names, prints .usual, container, made, agree "B" _ _ told rfl⟩

end Registry
end TwinShape
