import Mathlib.Logic.Function.Basic
import TwinShape.Proofs.Registry.Records
import TwinShape.Proofs.Registry.Renewal
import TwinShape.Schema.Evaluator

namespace TwinShape

structure Workshop where
  engine : PatternEngine
  builders : String → Option (Nat → Node)
  kept : String → Option Node
  -- One entry for every time a builder was run.
  log : List String

namespace Workshop

inductive Step where
  | define (name : String) (build : Nat → Node)
  | resolve (referencing name : String)

def empty (engine : PatternEngine) : Workshop := ⟨engine, fun _ => none, fun _ => none, []⟩

def runs (w : Workshop) (name : String) : Nat := w.log.count name

def resolve (w : Workshop) (referencing name : String) : Except Fault Node × Workshop :=
  match w.kept name with
  | some n => (.ok n, w)
  | none =>
    match w.builders name with
    | none => (.error (.unknownDefinition referencing name), w)
    | some build =>
      let n := build (w.runs name)
      match n.firstFlaw? w.engine .root with
      | some finding => (.error (.construction name finding), { w with log := w.log ++ [name] })
      | none => (.ok n, { w with kept := Function.update w.kept name (some n), log := w.log ++ [name] })

def perform (w : Workshop) : Step → Workshop
  | .define name build =>
    if (w.builders name).isSome then w else { w with builders := Function.update w.builders name (some build) }
  | .resolve referencing name => (w.resolve referencing name).2

def performAll (w : Workshop) (steps : List Step) : Workshop := steps.foldl perform w

def Rejected (engine : PatternEngine) (build : Nat → Node) (count : Nat) : Prop :=
  ∀ i < count, (build i).firstFlaw? engine .root ≠ none

-- A name is unknown, or its builder has only been run in vain, or the node of its last run is kept,
-- which is the only one that was not in vain.
inductive Account (engine : PatternEngine) : Option (Nat → Node) → Option Node → Nat → Prop
  | unknown : Account engine none none 0
  | pending {build : Nat → Node} {count : Nat} (rejected : Rejected engine build count) : Account engine (some build) none count
  | kept {build : Nat → Node} {k : Nat} (flawless : (build k).firstFlaw? engine .root = none) (rejected : Rejected engine build k) :
      Account engine (some build) (some (build k)) (k + 1)

def Accounted (w : Workshop) : Prop := ∀ name, Account w.engine (w.builders name) (w.kept name) (w.runs name)

section
variable {engine : PatternEngine}

theorem Rejected.zero (build : Nat → Node) :
    Rejected engine build 0 := fun i before => absurd before (Nat.not_lt_zero i)

theorem Rejected.succ {build : Nat → Node} {k : Nat} (rejected : Rejected engine build k)
    (flawed : (build k).firstFlaw? engine .root ≠ none) :
    Rejected engine build (k + 1) := by
  intro i lt
  rcases Nat.lt_succ_iff_lt_or_eq.1 lt with before | rfl
  · exact rejected i before
  · exact flawed

theorem Rejected.eq_zero {build : Nat → Node} {k : Nat} (rejected : Rejected engine build k)
    (flawless : (build 0).firstFlaw? engine .root = none) :
    k = 0 := Nat.eq_zero_of_not_pos fun ran => rejected 0 ran flawless

theorem Account.runs_le_one {build : Nat → Node} {kept : Option Node} {count : Nat}
    (account : Account engine (some build) kept count)
    (flawless : (build 0).firstFlaw? engine .root = none) : count ≤ 1 := by
  cases account with
  | pending rejected => exact rejected.eq_zero flawless ▸ Nat.zero_le 1
  | kept _ rejected => exact Nat.succ_le_succ (rejected.eq_zero flawless).le

theorem Account.of_unknown {kept : Option Node} {count : Nat} (account : Account engine none kept count) :
    kept = none ∧ count = 0 := by
  cases account
  exact ⟨rfl, rfl⟩

theorem Account.of_pending {build : Nat → Node} {count : Nat} (account : Account engine (some build) none count) :
    Rejected engine build count := by
  cases account
  assumption

theorem Account.of_kept {builder : Option (Nat → Node)} {n : Node} {count : Nat}
    (account : Account engine builder (some n) count) :
    ∃ build k, builder = some build ∧ build k = n ∧ n.firstFlaw? engine .root = none ∧ Rejected engine build k ∧ count = k + 1 := by
  cases account with
  | kept flawless rejected => exact ⟨_, _, rfl, rfl, flawless, rejected, rfl⟩

end

variable {w : Workshop} {name other : String}

theorem runs_log (w : Workshop) (builders : String → Option (Nat → Node)) (kept : String → Option Node)
    (name other : String) :
    (Workshop.mk w.engine builders kept (w.log ++ [name])).runs other = w.runs other + if other = name then 1 else 0 := by
  unfold runs
  rw [List.count_append, List.count_singleton]
  refine congrArg (w.log.count other + ·) (if_congr ?_ rfl rfl)
  exact beq_iff_eq.trans eq_comm

theorem empty_accounted (engine : PatternEngine) : (empty engine).Accounted := fun _ => .unknown

theorem resolve_engine (w : Workshop) (referencing name : String) :
    (w.resolve referencing name).2.engine = w.engine := by
  unfold resolve
  split
  · rfl
  · split
    · rfl
    · dsimp only
      split <;> rfl

theorem resolve_other (apart : other ≠ name) (referencing : String) :
    (w.resolve referencing name).2.builders other = w.builders other ∧
    (w.resolve referencing name).2.kept other = w.kept other ∧
    (w.resolve referencing name).2.runs other = w.runs other := by
  unfold resolve
  split
  · exact ⟨rfl, rfl, rfl⟩
  · split
    · exact ⟨rfl, rfl, rfl⟩
    · have more := fun kept => (runs_log w w.builders kept name other).trans (congrArg (w.runs other + ·) (if_neg apart))
      dsimp only
      split
      · exact ⟨rfl, rfl, more _⟩
      · exact ⟨rfl, Function.update_of_ne apart _ _, more _⟩

theorem resolve_accounted (accounted : w.Accounted) (referencing name : String) :
    (w.resolve referencing name).2.Accounted := by
  intro other
  by_cases same : other = name
  · subst same
    have account := accounted other
    have more := fun kept => (runs_log w w.builders kept other other).trans (congrArg (w.runs other + ·) (if_pos rfl))
    unfold resolve
    split
    · exact account
    · rename_i fresh
      split
      · exact account
      · rename_i build builder
        rw [fresh, builder] at account
        have rejected : Rejected w.engine build (w.runs other) := account.of_pending
        dsimp only
        split
        · rename_i finding flawed
          rw [more, builder, fresh]
          exact .pending (rejected.succ fun flawless => Option.some_ne_none _ (flawed.symm.trans flawless))
        · rename_i flawless
          rw [more, builder]
          dsimp only
          rw [Function.update_self]
          exact .kept flawless rejected
  · obtain ⟨builder, kept, runs⟩ := resolve_other (w := w) same referencing
    rw [resolve_engine, builder, kept, runs]
    exact accounted other

theorem perform_accounted (accounted : w.Accounted) (step : Step) : (w.perform step).Accounted := by
  cases step with
  | resolve referencing name => exact resolve_accounted accounted referencing name
  | define name build =>
    intro other
    have account := accounted other
    unfold perform
    dsimp only
    split
    · exact account
    · rename_i new
      dsimp only
      by_cases same : other = name
      · subst same
        rw [Option.not_isSome_iff_eq_none.1 new] at account
        obtain ⟨fresh, runs⟩ := account.of_unknown
        rw [Function.update_self, fresh]
        change Account w.engine (some build) none (w.runs other)
        rw [runs]
        exact .pending (.zero build)
      · rw [Function.update_of_ne same]
        exact account

theorem performAll_accounted (accounted : w.Accounted) (steps : List Step) : (w.performAll steps).Accounted := by
  induction steps generalizing w with
  | nil => exact accounted
  | cons step rest ih => exact ih (perform_accounted accounted step)

-- A node that is kept, and how often its builder has been run.
structure Settled (w : Workshop) (name : String) (n : Node) (count : Nat) : Prop where
  kept : w.kept name = some n
  runs : w.runs name = count

namespace Settled
variable {n : Node} {count : Nat}

theorem resolve_eq (settled : w.Settled name n count) (referencing : String) :
    w.resolve referencing name = (.ok n, w) := by
  unfold resolve
  rw [settled.kept]

theorem perform (settled : w.Settled name n count) (step : Step) : (w.perform step).Settled name n count := by
  cases step with
  | define other build =>
    unfold Workshop.perform
    dsimp only
    split <;> exact ⟨settled.kept, settled.runs⟩
  | resolve referencing other =>
    change (w.resolve referencing other).2.Settled name n count
    by_cases same : name = other
    · subst same
      rw [settled.resolve_eq]
      exact settled
    · obtain ⟨-, kept, runs⟩ := resolve_other (w := w) same referencing
      exact ⟨kept.trans settled.kept, runs.trans settled.runs⟩

theorem performAll (settled : w.Settled name n count) (steps : List Step) :
    (w.performAll steps).Settled name n count := by
  induction steps generalizing w with
  | nil => exact settled
  | cons step rest ih => exact ih (settled.perform step)

end Settled

-- What is resolved is the node of the one run that was not in vain.
theorem settled_of_resolve {referencing : String} {n : Node} (accounted : w.Accounted)
    (resolved : (w.resolve referencing name).1 = .ok n) :
    ∃ build k, (w.resolve referencing name).2.builders name = some build ∧ build k = n ∧ n.firstFlaw? w.engine .root = none ∧
      Rejected w.engine build k ∧ (w.resolve referencing name).2.Settled name n (k + 1) := by
  have kept : (w.resolve referencing name).2.kept name = some n := by
    revert resolved
    unfold resolve
    split
    · rintro ⟨⟩
      assumption
    · split
      · rintro ⟨⟩
      · dsimp only
        split
        · rintro ⟨⟩
        · rintro ⟨⟩
          exact Function.update_self ..
  have account := resolve_accounted accounted referencing name name
  rw [kept, resolve_engine] at account
  obtain ⟨build, k, builder, same, flawless, rejected, runs⟩ := account.of_kept
  exact ⟨build, k, builder, same, flawless, rejected, kept, runs⟩

-- How a builder fares. It is run at most once if its first node passes; and only the node of its
-- last run, for which all runs before were in vain, is ever the answer, and remains it.
structure Fares (w : Workshop) (name : String) : Prop where
  unknown : w.builders name = none → w.runs name = 0
  once : ∀ build, w.builders name = some build → (build 0).firstFlaw? w.engine .root = none → w.runs name ≤ 1
  rejected : ∀ build finding, w.builders name = some build → w.kept name = none →
    (build (w.runs name)).firstFlaw? w.engine .root = some finding → ∀ referencing,
    (w.resolve referencing name).1 = .error (.construction name finding) ∧
    (w.resolve referencing name).2.runs name = w.runs name + 1
  resolved : ∀ referencing n, (w.resolve referencing name).1 = .ok n →
    ∃ build k, (w.resolve referencing name).2.builders name = some build ∧ build k = n ∧ n.firstFlaw? w.engine .root = none ∧
      Rejected w.engine build k ∧ ∀ later,
      ((w.resolve referencing name).2.performAll later).runs name = k + 1 ∧
      ∀ other, (((w.resolve referencing name).2.performAll later).resolve other name).1 = .ok n

theorem resolve_rejected {build : Nat → Node} {finding : Finding} (builder : w.builders name = some build)
    (fresh : w.kept name = none)
    (flawed : (build (w.runs name)).firstFlaw? w.engine .root = some finding) (referencing : String) :
    w.resolve referencing name = (.error (.construction name finding), { w with log := w.log ++ [name] }) := by
  unfold resolve
  rw [fresh, builder]
  dsimp only
  rw [flawed]

theorem Accounted.fares (accounted : w.Accounted) (name : String) : w.Fares name where
  unknown missing := by
    have account := accounted name
    rw [missing] at account
    exact account.of_unknown.2
  once build builder flawless := by
    have account := accounted name
    rw [builder] at account
    exact account.runs_le_one flawless
  rejected build finding builder fresh flawed referencing := by
    rw [resolve_rejected builder fresh flawed]
    exact ⟨rfl, (runs_log w w.builders w.kept name name).trans (congrArg (w.runs name + ·) (if_pos rfl))⟩
  resolved referencing n answered := by
    obtain ⟨build, k, builder, same, flawless, rejected, settled⟩ := settled_of_resolve accounted answered
    refine ⟨build, k, builder, same, flawless, rejected, fun later => ?_⟩
    have lasting := settled.performAll later
    exact ⟨lasting.runs, fun other => congrArg (·.1) (lasting.resolve_eq other)⟩

end Workshop

def Registry.workshop (r : Registry) (m : Memory) : Workshop where
  engine := r.engines.pattern
  builders name := (r.find? name).map fun n _ => n
  kept name := if name ∈ m.built then r.find? name else none
  log := m.builds

def Session.workshop (s : Session) : Workshop := s.registry.workshop s.memory

namespace Registry
variable {r r' : Registry} {name : String}

theorem workshop_builder {m : Memory} {n : Node} (found : r.find? name = some n) :
    (r.workshop m).builders name = some fun _ => n := by
  unfold workshop
  dsimp only
  rw [found]
  rfl

theorem workshop_engine (r : Registry) (m : Memory) : (r.workshop m).engine = r.engines.pattern := rfl

theorem workshop_kept {m : Memory} (built : name ∈ m.built) : (r.workshop m).kept name = r.find? name := if_pos built

theorem workshop_fresh {m : Memory} (fresh : name ∉ m.built) : (r.workshop m).kept name = none := if_neg fresh

theorem workshop_resolve (referencing name : String) (m : Memory) :
    (r.workshop m).resolve referencing name =
      ((r.resolveFrom referencing name m).1.map (·.val), r.workshop (r.resolveFrom referencing name m).2) := by
  have asked := resolveFrom_asked (r := r) referencing name m
  revert asked
  rcases r.resolveFrom referencing name m with reply
  intro asked
  unfold Workshop.resolve
  cases asked with
  | unknown missing =>
    have builder : (r.workshop m).builders name = none := congrArg (Option.map _) missing
    have kept : (r.workshop m).kept name = none := (ite_eq_right_iff.2 fun _ => missing)
    rw [kept, builder]
    rfl
  | kept found built =>
    rw [(workshop_kept built).trans found]
    rfl
  | rejected found fresh flawed =>
    rw [workshop_fresh fresh, workshop_builder found]
    dsimp only
    rw [workshop_engine, flawed]
    rfl
  | accepted found fresh flawless =>
    rw [workshop_fresh fresh, workshop_builder found]
    dsimp only
    rw [workshop_engine, flawless]
    refine Prod.ext rfl (congrArg (Workshop.mk _ _ · _) (funext fun other => ?_))
    change Function.update (r.workshop m).kept name _ other = if other ∈ m.built ++ [name] then r.find? other else none
    by_cases same : other = name
    · subst same
      rw [Function.update_self, if_pos (List.mem_append_right _ (List.mem_singleton_self _)), found]
    · rw [Function.update_of_ne same]
      refine if_congr ?_ rfl rfl
      rw [List.mem_append, List.mem_singleton, or_iff_left same]

theorem workshop_kept_by (r : Registry) (m : Memory) :
    Kept r fun m' => ∃ steps, r.workshop m' = (r.workshop m).performAll steps := by
  have resolve : ∀ referencing name,
      Inquiry.Keeps (fun m' => ∃ steps, r.workshop m' = (r.workshop m).performAll steps) (r.resolveFrom referencing name) := by
    rintro referencing name m' ⟨steps, same⟩
    refine ⟨steps ++ [.resolve referencing name], ?_⟩
    unfold Workshop.performAll at same ⊢
    rw [List.foldl_append, ← same]
    exact (congrArg (·.2) (workshop_resolve referencing name m')).symm
  exact .of_projections resolve (fun definition n v => project_keeps resolve (fun _ _ _ held => held) definition n) fun _ _ _ held => held

theorem new_of_define (added : r.define d = .ok r') : d.name ∉ r.names := by
  unfold define at added
  split at added
  · cases added
  · assumption

theorem find?_added (added : r.define d = .ok r') : r'.find? = Function.update r.find? d.name (some d.node) := by
  funext name
  by_cases same : name = d.name
  · subst same
    have first := Option.map_eq_none_iff.1 (find?_unregistered (new_of_define added))
    have last : [d].find? (·.name == d.name) = some d := List.find?_cons_of_pos (beq_self_eq_true d.name)
    rw [Function.update_self, find?, define_definitions added, List.find?_append, first, last]
    rfl
  · have last : [d].find? (·.name == name) = none := List.find?_cons_of_neg fun taken => same (beq_iff_eq.1 taken).symm
    rw [Function.update_of_ne same, find?, define_definitions added, List.find?_append, last, Option.or_none]
    rfl

theorem workshop_define {m : Memory} (built : m.Built r) (added : r.define d = .ok r') :
    r'.workshop m.forgetAnswers = (r.workshop m).perform (.define d.name fun _ => d.node) := by
  have missing := find?_unregistered (new_of_define added)
  have free : ¬((r.workshop m).builders d.name).isSome := by
    unfold workshop
    dsimp only
    rw [missing]
    exact Bool.false_ne_true
  have builders : (r'.workshop m.forgetAnswers).builders = Function.update (r.workshop m).builders d.name (some fun _ => d.node) := by
    unfold workshop
    rw [find?_added added]
    exact Function.comp_update (Option.map fun n _ => n) r.find? d.name (some d.node)
  have kept : (r'.workshop m.forgetAnswers).kept = (r.workshop m).kept := by
    funext name
    refine ite_congr rfl (fun member => ?_) fun _ => rfl
    obtain ⟨n, found, -⟩ := built name member
    exact (find?_define added found).trans found.symm
  unfold Workshop.perform
  dsimp only
  rw [if_neg free, ← builders, ← kept, workshop_engine, ← define_engines added]
  rfl

end Registry

namespace Session
variable {s : Session}

theorem workshop_perform (reached : s.Reached) (o : Operation) :
    ∃ steps, (s.perform o).workshop = s.workshop.performAll steps := by
  cases o with
  | request q => exact (s.registry.workshop_kept_by s.memory).request_keeps q ⟨[], rfl⟩
  | define d =>
    rcases s.perform_define d with refused | ⟨r, added, same⟩
    · exact ⟨[], congrArg workshop refused⟩
    · refine ⟨[.define d.name fun _ => d.node], ?_⟩
      rw [same]
      exact Registry.workshop_define reached.fair.built added

theorem workshop_performAll (reached : s.Reached) (history : List Operation) :
    ∃ steps, (s.performAll history).workshop = s.workshop.performAll steps := by
  induction history generalizing s with
  | nil => exact ⟨[], rfl⟩
  | cons o rest ih =>
    obtain ⟨first, same⟩ := workshop_perform reached o
    obtain ⟨later, same'⟩ := ih (reached.step o)
    refine ⟨first ++ later, same'.trans ?_⟩
    rw [same]
    exact (List.foldl_append ..).symm

theorem Reached.accounted (reached : s.Reached) : s.workshop.Accounted := by
  induction reached with
  | start r =>
    intro name
    change Workshop.Account r.engines.pattern ((r.find? name).map fun n _ => n) none 0
    cases r.find? name with
    | none => exact .unknown
    | some n => exact .pending (.zero _)
  | step before o accounted =>
    obtain ⟨steps, same⟩ := workshop_perform before o
    rw [same]
    exact Workshop.performAll_accounted accounted steps

-- A builder is run at most once if its definition passes the check, and over and over if not.
theorem builders_fare (reached : s.Reached) (name : String) :
    s.workshop.runs name = s.builds name ∧ s.workshop.Fares name ∧
    (∀ referencing, s.workshop.resolve referencing name =
      ((s.registry.resolveFrom referencing name s.memory).1.map (·.val), (s.perform (.request (.resolve referencing name))).workshop)) ∧
    (∀ history, ∃ steps, (s.performAll history).workshop = s.workshop.performAll steps) ∧
    ∀ engine steps, ((Workshop.empty engine).performAll steps).Fares name :=
  ⟨rfl, reached.accounted.fares name, fun referencing => Registry.workshop_resolve referencing name s.memory,
    workshop_performAll reached, fun engine steps => (Workshop.performAll_accounted (Workshop.empty_accounted engine) steps).fares name⟩

-- `Broken` has two properties of one name, so it is built each time it is asked for.
def insistent : Session :=
  ((start ⟨[⟨"Broken", .ofProperties [.of "a" .string, .of "a" .string]⟩, ⟨"Sound", .string⟩], by decide, .builtIn⟩).perform
    (.request (.resolve "Broken" "Broken"))).perform (.request (.resolve "Broken" "Broken"))

theorem insistent_reached : insistent.Reached := ((Reached.start _).step _).step _

theorem insistent_rebuilds : ¬∀ (s : Session) (name : String), s.Reached → s.builds name ≤ 1 := by
  intro once
  exact absurd (once insistent "Broken" insistent_reached) (by decide +kernel)

theorem insistent_fares :
    insistent.builds "Broken" = 2 ∧ insistent.builds "Sound" ≤ 1 ∧
    ∀ later, ((insistent.workshop.resolve "Sound" "Sound").2.performAll later).runs "Sound" = 1 := by
  refine ⟨by cbv, (builders_fare insistent_reached "Sound").2.1.once (fun _ => .string) rfl rfl, ?_⟩
  obtain ⟨build, k, builder, -, -, rejected, lasting⟩ := (builders_fare insistent_reached "Sound").2.1.resolved "Sound" .string rfl
  intro later
  cases rejected.eq_zero (by cases builder; rfl)
  exact (lasting later).1

end Session
end TwinShape
