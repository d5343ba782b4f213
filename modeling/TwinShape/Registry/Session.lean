import TwinShape.Registry.Memory
import TwinShape.Text.Shown

namespace TwinShape

structure Session where
  registry : Registry
  memory : Memory

namespace Session

def start (r : Registry) : Session := ⟨r, .blank⟩

def define (s : Session) (d : Definition) : Except Fault Session :=
  (s.registry.define d).map fun r => ⟨r, s.memory.forgetAnswers⟩

def defineAll (s : Session) : List Definition → Option Fault × Session
  | [] => (none, s)
  | d :: rest =>
    match s.define d with
    | .ok s => s.defineAll rest
    | .error fault => (some fault, s)

def ask {α : Type} (s : Session) (q : Question α) : Except Fault α × Session :=
  let (answer, m) := q s.memory
  (answer, { s with memory := m })

def builds (s : Session) (name : String) : Nat := s.memory.builds.count name

def summary (s : Session) : String :=
  "Registry \x7b definitions: [" ++ ", ".intercalate (s.registry.names.map Text.shown) ++
    "], built: " ++ toString s.memory.built.length ++ " \x7d"

end Session
end TwinShape
