import TwinShape.CommandLine.Run
import TwinShape.Schema.Evaluator

namespace TwinShape

def readContent (path : String) : IO FileContent := do
  try
    let bytes ← IO.FS.readBinFile path
    match String.fromUTF8? bytes with
    | some s => pure (.text s)
    | none => pure (.unreadable "stream did not contain valid UTF-8")
  catch
    | .noFileOrDirectory .. => pure .missing
    | e => pure (.unreadable (toString e))

def readDisk (c : Command) : IO Disk := do
  let paths := c.manifest.toList ++ c.payload?.toList
  let contents ← paths.mapM fun path => do pure (path, ← readContent path)
  pure fun path => (contents.lookup path).getD .missing

def writeText (path text : String) : IO (Option String) := do
  try
    IO.FS.writeFile path text
    pure none
  catch
    | .noFileOrDirectory .. => pure (some "No such file or directory (os error 2)")
    | e => pure (some (toString e))

def finish (o : Output) : IO UInt32 := do
  IO.print o.stdout
  IO.eprint o.stderr
  pure (UInt32.ofNat o.code)

end TwinShape

open TwinShape in
def main (arguments : List String) : IO UInt32 := do
  let disk ← match Invocation.read arguments with
    | .ok i => readDisk i.command
    | .error _ => pure fun _ => .missing
  match runProgram .builtIn arguments disk with
  | some (.write path text) => finish ((Outcome.write path text).settle (← writeText path text))
  | some (.output o) => finish o
  | none => throw (.userError "checking a value does not end")
