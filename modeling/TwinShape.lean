import TwinShape.Main
import TwinShape.Registry.Session
import TwinShape.Proofs.Projection.Merging
import TwinShape.Proofs.Projection.Runs
import TwinShape.Proofs.Projection.Presence
import TwinShape.Proofs.Registry.Resolution
import TwinShape.Proofs.Projection.Unison
import TwinShape.Proofs.Projection.Memory
import TwinShape.Proofs.Registry.Requests
import TwinShape.Proofs.Variation.Survey
import TwinShape.Proofs.Projection.Steadiness
import TwinShape.Proofs.Variation.Detection
import TwinShape.Proofs.Json.Settled
import TwinShape.Proofs.Walk
import TwinShape.Proofs.Node.Equality
import TwinShape.Proofs.Variation.Exactness
import TwinShape.Proofs.Schema.External
import TwinShape.Proofs.Schema.Finished
import TwinShape.Proofs.Schema.Fields
import TwinShape.Proofs.Schema.Shapes
import TwinShape.Proofs.Schema.Container
import TwinShape.Proofs.Schema.Names
import TwinShape.Proofs.Schema.Keywords
import TwinShape.Proofs.Schema.Rules
import TwinShape.Proofs.Schema.Objects
import TwinShape.Proofs.Schema.Meaning
import TwinShape.Proofs.Schema.Vocabulary
import TwinShape.Proofs.Schema.Acceptance
import TwinShape.Proofs.Schema.Evaluation
import TwinShape.Proofs.Schema.BuiltIn
import TwinShape.Proofs.Schema.Sheets
import TwinShape.Proofs.Schema.Conformance
import TwinShape.Proofs.Projection.Bare
import TwinShape.Proofs.Schema.Validation
import TwinShape.Proofs.Repetition
import TwinShape.Proofs.Projection.Existing
import TwinShape.Proofs.Projection.Course
import TwinShape.Proofs.Projection.Verdict
import TwinShape.Proofs.Projection.Completeness
import TwinShape.Proofs.Variation.Likeness
import TwinShape.Proofs.Projection.Determinacy
import TwinShape.Proofs.Projection.Growth
import TwinShape.Proofs.Projection.References
import TwinShape.Proofs.Projection.Grounding
import TwinShape.Proofs.Projection.Faults
import TwinShape.Proofs.Declaration.Repetition
import TwinShape.Proofs.Declaration.Rendering
import TwinShape.Proofs.Declaration.Ledger
import TwinShape.Proofs.Declaration.Writing
import TwinShape.Proofs.Declaration.Closure
import TwinShape.Proofs.Declaration.Identifiers
import TwinShape.Proofs.Backends
import TwinShape.Proofs.Variation.Repetition
import TwinShape.Proofs.Schema.Absence
import TwinShape.Proofs.Registry.References
import TwinShape.Proofs.Registry.Renewal
import TwinShape.Proofs.InPlace.Descent
import TwinShape.Proofs.InPlace.Projection
import TwinShape.Proofs.InPlace.Variation
import TwinShape.Proofs.InPlace.Declarations
import TwinShape.Proofs.InPlace.Schema
import TwinShape.Proofs.InPlace.Termination
import TwinShape.Proofs.Schema.NormalForm
import TwinShape.Proofs.CommandLine.Arguments
import TwinShape.Proofs.CommandLine.ExitCodes
import TwinShape.Proofs.Restriction
import TwinShape.Proofs.Projection.Echoes
import TwinShape.Proofs.Projection.Sturdiness
import TwinShape.Proofs.Projection.Idempotence
import TwinShape.Proofs.Schema.Completion
import TwinShape.Proofs.Schema.Chart
import TwinShape.Proofs.Lint.Visit
import TwinShape.Proofs.Lint.Stalling
import TwinShape.Proofs.Lint.Findings
import TwinShape.Proofs.Lint.Judgement
import TwinShape.Proofs.Lint.Agreement
import TwinShape.Proofs.Projection.Permanence
import TwinShape.Proofs.Node.Equivalence
import TwinShape.Proofs.Projection.Inheritance
import TwinShape.Proofs.Projection.Containment
import TwinShape.Proofs.Symmetry.Variation
import TwinShape.Proofs.Projection.Blame
import TwinShape.Proofs.Projection.Cycles
import TwinShape.Proofs.Declaration.Strings
import TwinShape.Proofs.Declaration.Quoting
import TwinShape.Proofs.Declaration.Symbols
import TwinShape.Proofs.Declaration.Tokens
import TwinShape.Proofs.Declaration.Comments
import TwinShape.Proofs.Declaration.Grammar
import TwinShape.Proofs.Decimal.Shortest
import TwinShape.Proofs.Declaration.Numerals
import TwinShape.Proofs.Declaration.Meaning
import TwinShape.Proofs.Declaration.Denotation
import TwinShape.Proofs.Schema.Linking
import TwinShape.Proofs.Schema.Pointing
import TwinShape.Proofs.Decimal.Rounding
import TwinShape.Proofs.Schema.Defaults
import TwinShape.Proofs.Registry.Records
import TwinShape.Proofs.InPlace.Projector
import TwinShape.Proofs.InPlace.Upkeep
import TwinShape.Proofs.InPlace.Machine
import TwinShape.Proofs.Registry.Building
import TwinShape.Proofs.Node.Admission
import TwinShape.Proofs.Node.Demands
import TwinShape.Proofs.Registry.Construction
import TwinShape.Proofs.Projection.Flattening
import TwinShape.Proofs.Projection.Causes
import TwinShape.Proofs.Projection.Chains
import TwinShape.Proofs.Declaration.Enclosure
import TwinShape.Proofs.Decimal.Nearest
import TwinShape.Proofs.Node.Matching
import TwinShape.Proofs.Manifest
import TwinShape.Proofs.Schema.Literals
import TwinShape.Proofs.Projection.Origins
import TwinShape.Proofs.Emission.Writing
import TwinShape.Proofs.Emission.Declarations
import TwinShape.Proofs.Emission.Schemas
import TwinShape.Proofs.Emission.Blame
