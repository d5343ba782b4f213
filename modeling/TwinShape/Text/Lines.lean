namespace TwinShape.Text

def indent (depth : Nat) : String := String.ofList (List.replicate (2 * depth) ' ')

def linesFrom (line : List Char) : List Char → List String
  | [] => if line.isEmpty then [] else [String.ofList line.reverse]
  | '\n' :: rest =>
    let line := match line with
      | '\r' :: line => line
      | line => line
    String.ofList line.reverse :: linesFrom [] rest
  | c :: rest => linesFrom (c :: line) rest

-- The lines of a text. A line feed ends a line, so nothing follows the last one.
def lines (text : String) : List String := linesFrom [] text.toList

end TwinShape.Text
