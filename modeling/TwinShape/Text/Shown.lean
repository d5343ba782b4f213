import TwinShape.Text.Unprinted

namespace TwinShape.Text

def showChar (c : Char) : List Char :=
  match c with
  | '"' => ['\\', '"']
  | '\\' => ['\\', '\\']
  | '\n' => ['\\', 'n']
  | '\t' => ['\\', 't']
  | '\r' => ['\\', 'r']
  | '\x00' => ['\\', '0']
  | ' ' => [' ']
  | c =>
    bif Ranges.unprinted.has c then
      ['\\', 'u', '\x7b'] ++ Nat.toDigits 16 c.toNat ++ ['\x7d']
    else [c]

def shown (s : String) : String := String.ofList ('"' :: s.toList.flatMap showChar ++ ['"'])

end TwinShape.Text
