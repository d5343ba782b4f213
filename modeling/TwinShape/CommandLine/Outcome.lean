namespace TwinShape

inductive FileContent where
  | missing
  | unreadable (why : String)
  | text (s : String)

abbrev Disk := String → FileContent

structure Output where
  code : Nat
  stdout : String
  stderr : String

namespace Output

def printed (text : String) : Output := ⟨0, text, ""⟩

def failed (code : Nat) (message : String) : Output := ⟨code, "", "Error: " ++ message ++ "\n"⟩

end Output

-- A command prints something, or it writes one file and prints nothing.
inductive Outcome where
  | output (o : Output)
  | write (path text : String)

def Outcome.settle : Outcome → (failure : Option String) → Output
  | .output o, _ => o
  | .write _ _, none => .printed ""
  | .write path _, some why => ⟨3, "", "Error writing to " ++ path ++ ": " ++ why ++ "\n"⟩

end TwinShape
