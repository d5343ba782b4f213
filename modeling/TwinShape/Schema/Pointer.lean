import TwinShape.Json.Reader

namespace TwinShape

abbrev Pointer := List String

namespace Pointer

def escapeChar : Char → List Char
  | '~' => ['~', '0']
  | '/' => ['~', '1']
  | c => [c]

def text (p : Pointer) : String :=
  String.join (p.map fun segment => String.ofList ('/' :: segment.toList.flatMap escapeChar))

-- A tilde that begins no escape stands for itself, and so does what follows it.
def unescape : List Char → List Char
  | '~' :: '1' :: rest => '/' :: unescape rest
  | '~' :: '0' :: rest => '~' :: unescape rest
  | '~' :: c :: rest => '~' :: c :: unescape rest
  | c :: rest => c :: unescape rest
  | [] => []

def escapes : List Char → List UInt8 × List Char
  | '%' :: a :: b :: rest =>
    match Json.hexValue? a, Json.hexValue? b with
    | some high, some low =>
      let (bytes, rest) := escapes rest
      (UInt8.ofNat (high * 16 + low) :: bytes, rest)
    | _, _ => ([], '%' :: a :: b :: rest)
  | cs => ([], cs)

theorem length_escapes_le (cs : List Char) : (escapes cs).2.length ≤ cs.length := by
  fun_induction escapes cs <;> simp_all
  omega

theorem length_lt_of_escapes {cs after : List Char} {byte : UInt8} {bytes : List UInt8}
    (found : escapes cs = (byte :: bytes, after)) : after.length < cs.length := by
  unfold escapes at found
  split at found
  · rename_i rest
    split at found
    · have := length_escapes_le rest
      simp only [Prod.mk.injEq] at found
      simp only [← found.2, List.length_cons]
      omega
    · simp at found
  · simp at found

def decode : List Char → Option (List Char)
  | [] => some []
  | c :: rest =>
    match _found : escapes (c :: rest) with
    | ([], _) => (decode rest).map (c :: ·)
    | (bytes@(_ :: _), after) => do
      let characters ← String.fromUTF8? ⟨bytes.toArray⟩
      let others ← decode after
      some (characters.toList ++ others)
termination_by cs => cs.length
decreasing_by
  · simp
  · exact length_lt_of_escapes _found

def splitAtSlashes : List Char → List (List Char)
  | [] => [[]]
  | '/' :: rest => [] :: splitAtSlashes rest
  | c :: rest =>
    match splitAtSlashes rest with
    | [] => [[c]]
    | segment :: more => (c :: segment) :: more

-- A position in a list, which may follow a plus sign.
def index? (segment : List Char) : Option Nat :=
  match segment with
  | '+' :: digits => position? digits
  | digits => position? digits
where
  position? (digits : List Char) : Option Nat :=
    bif digits.isEmpty || !digits.all Char.isDigit then none
    else some (digits.foldl (fun n c => n * 10 + (c.toNat - 48)) 0)

def follow (document : Json) : List String → Option Json
  | [] => some document
  | segment :: rest =>
    match document with
    | .array items => do follow (← items[← index? segment.toList]?) rest
    | .object fields => do
      follow (← Table.get? fields (String.ofList (unescape segment.toList))) rest
    | _ => none

def isHex (c : Char) : Bool := (Json.hexValue? c).isSome

def fragmentMarks : List Char := "-._~!$&'()*+,;=:@/?".toList

def isFragment : List Char → Bool
  | '%' :: a :: b :: rest => isHex a && isHex b && isFragment rest
  | c :: rest => (c.isAlphanum || fragmentMarks.contains c) && isFragment rest
  | [] => true

-- A fragment, decoded, is the root or a way that begins with a slash. Other characters than a
-- fragment may hold make it no reference at all.
def resolve? (document : Json) (reference : String) : Option Json :=
  match reference.toList with
  | ['#'] => some document
  | '#' :: '/' :: rest => do
    if isFragment rest then
      follow document ((splitAtSlashes (← decode rest)).map String.ofList)
    else none
  | _ => none

end Pointer
end TwinShape
