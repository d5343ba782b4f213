import TwinShape.Declaration.Type
import TwinShape.Json.Token

namespace TwinShape

theorem of_ascii {P : Char → Prop} (each : ∀ n : Fin 128, P (Char.ofNat n)) {c : Char} (ascii : c.toNat < 128) :
    P c := by
  have here := each ⟨c.toNat, ascii⟩
  rwa [Char.ofNat_toNat] at here

theorem isAlphanum_ascii {c : Char} (known : c.isAlphanum = true) : c.toNat < 128 := by
  unfold Char.isAlphanum Char.isAlpha Char.isUpper Char.isLower Char.isDigit at known
  simp only [Bool.or_eq_true, Bool.and_eq_true, decide_eq_true_eq, ge_iff_le, UInt32.le_iff_toNat_le] at known
  have upper : 'Z'.val.toNat = 90 := rfl
  have lower : 'z'.val.toNat = 122 := rfl
  have digit : '9'.val.toNat = 57 := rfl
  change c.val.toNat < 128
  omega

namespace Script

-- A string is a sequence of code units. A character beyond the first 65536 takes two.
def unitsOfCode (n : Nat) : List Nat :=
  if n < 0x10000 then [n] else [0xD800 + (n - 0x10000) / 0x400, 0xDC00 + (n - 0x10000) % 0x400]

def units (cs : List Char) : List Nat := cs.flatMap fun c => unitsOfCode c.toNat

def isLineEnd (c : Char) : Bool := c == '\n' || c == '\r'

def hex? : Nat → Nat → List Char → Option (Nat × List Char)
  | 0, n, rest => some (n, rest)
  | _ + 1, _, [] => none
  | count + 1, n, c :: rest => (Json.hexValue? c).bind fun d => hex? count (n * 16 + d) rest

def braced? (n : Nat) : List Char → Option (Nat × List Char)
  | [] => none
  | c :: rest =>
    if c = '\x7d' then some (n, rest)
    else (Json.hexValue? c).bind fun d => if n * 16 + d ≤ 0x10FFFF then braced? (n * 16 + d) rest else none

def unicode? : List Char → Option (List Nat × List Char)
  | '\x7b' :: '\x7d' :: _ => none
  | '\x7b' :: rest => (braced? 0 rest).map fun (n, after) => (unitsOfCode n, after)
  | rest => (hex? 4 0 rest).map fun (n, after) => ([n], after)

-- What a character that no digits belong to stands for behind a backslash. The end of a line
-- stands for nothing.
def escapedUnits (c : Char) : List Nat :=
  match c with
  | '\n' | '\r' | '\u2028' | '\u2029' => []
  | 'b' => [8]
  | 't' => [9]
  | 'n' => [10]
  | 'v' => [11]
  | 'f' => [12]
  | 'r' => [13]
  | c => unitsOfCode c.toNat

-- What stands behind a backslash, with the text after it. Modules have no octal escapes.
def escape? : List Char → Option (List Nat × List Char)
  | [] => none
  | c :: rest =>
    if c = 'x' then (hex? 2 0 rest).map fun (n, after) => ([n], after)
    else if c = 'u' then unicode? rest
    else if c = '0' then if rest.head?.any Char.isDigit then none else some ([0], rest)
    else if c.isDigit then none
    else if c = '\r' ∧ rest.head? = some '\n' then some ([], rest.tail)
    else some (escapedUnits c, rest)

theorem length_unitsOfCode (n : Nat) : 1 ≤ (unitsOfCode n).length ∧ (unitsOfCode n).length ≤ 2 := by
  unfold unitsOfCode
  split
  · exact ⟨Nat.le_refl 1, Nat.le_succ 1⟩
  · exact ⟨Nat.le_succ 1, Nat.le_refl 2⟩

theorem units_append (a b : List Char) : units (a ++ b) = units a ++ units b := List.flatMap_append

theorem length_le_units (cs : List Char) : cs.length ≤ (units cs).length := by
  induction cs with
  | nil => exact Nat.le_refl _
  | cons c rest ih =>
    have one := (length_unitsOfCode c.toNat).1
    change rest.length + 1 ≤ (unitsOfCode c.toNat ++ units rest).length
    rw [List.length_append]
    omega

theorem hex?_used (found : hex? count n cs = some (m, after)) : ∃ used, used.length = count ∧ cs = used ++ after := by
  induction count generalizing n cs with
  | zero =>
    cases found
    exact ⟨[], rfl, rfl⟩
  | succ count ih =>
    cases cs with
    | nil => cases found
    | cons c rest =>
      obtain ⟨d, -, found⟩ := Option.bind_eq_some_iff.1 found
      obtain ⟨used, length, rfl⟩ := ih found
      exact ⟨c :: used, congrArg (· + 1) length, rfl⟩

theorem braced?_used (found : braced? n cs = some (m, after)) : ∃ used, used ≠ [] ∧ cs = used ++ after := by
  induction cs generalizing n with
  | nil => cases found
  | cons c rest ih =>
    unfold braced? at found
    split at found
    · cases found
      exact ⟨[c], List.cons_ne_nil _ _, rfl⟩
    · obtain ⟨d, -, found⟩ := Option.bind_eq_some_iff.1 found
      split at found
      · obtain ⟨used, -, rfl⟩ := ih found
        exact ⟨c :: used, List.cons_ne_nil _ _, rfl⟩
      · cases found

-- What was read to find these units, which are no more than it has itself.
def Spent (cs : List Char) (us : List Nat) (after : List Char) : Prop :=
  ∃ used, used ≠ [] ∧ cs = used ++ after ∧ us.length ≤ (units used).length

theorem Spent.behind (spent : Spent cs us after) (c : Char) : Spent (c :: cs) us after := by
  obtain ⟨used, -, rfl, few⟩ := spent
  refine ⟨c :: used, List.cons_ne_nil _ _, rfl, Nat.le_trans few ?_⟩
  change _ ≤ (unitsOfCode c.toNat ++ units used).length
  rw [List.length_append]
  exact Nat.le_add_left _ _

theorem hex?_spent (found : (hex? (count + 1) 0 cs).map (fun (n, after) => ([n], after)) = some (us, after)) :
    Spent cs us after := by
  obtain ⟨⟨n, _⟩, read, same⟩ := Option.map_eq_some_iff.1 found
  cases same
  obtain ⟨used, length, rfl⟩ := hex?_used read
  have long := length_le_units used
  have one : used.length ≥ 1 := by omega
  exact ⟨used, List.ne_nil_of_length_pos one, rfl, Nat.le_trans one long⟩

theorem unicode?_spent (found : unicode? cs = some (us, after)) : Spent cs us after := by
  unfold unicode? at found
  split at found
  · cases found
  · rename_i rest _
    obtain ⟨⟨n, _⟩, read, same⟩ := Option.map_eq_some_iff.1 found
    cases same
    obtain ⟨used, some_, rfl⟩ := braced?_used read
    have long := length_le_units ('\x7b' :: used)
    have few := (length_unitsOfCode n).2
    have one := List.length_pos_iff.2 some_
    refine ⟨'\x7b' :: used, List.cons_ne_nil _ _, rfl, ?_⟩
    rw [List.length_cons] at long
    omega
  · exact hex?_spent found

theorem length_escapedUnits (c : Char) : (escapedUnits c).length ≤ (unitsOfCode c.toNat).length := by
  have one := (length_unitsOfCode c.toNat).1
  unfold escapedUnits
  split <;> first | exact one | exact Nat.zero_le _ | exact Nat.le_refl _

theorem escape?_spent (found : escape? cs = some (us, after)) : Spent cs us after := by
  have alone : ∀ c : Char, ∀ us, us.length ≤ (unitsOfCode c.toNat).length → Spent (c :: after) us after := by
    intro c us few
    refine ⟨[c], List.cons_ne_nil _ _, rfl, ?_⟩
    change _ ≤ (unitsOfCode c.toNat ++ []).length
    rwa [List.append_nil]
  cases cs with
  | nil => cases found
  | cons c rest =>
    rw [escape?] at found
    split at found
    · exact (hex?_spent found).behind c
    split at found
    · exact (unicode?_spent found).behind c
    split at found
    · split at found
      · cases found
      · cases found
        exact alone c _ (length_unitsOfCode _).1
    split at found
    · cases found
    split at found
    · rename_i crlf
      cases found
      cases rest with
      | nil => cases crlf.2
      | cons d rest => exact (alone d [] (Nat.zero_le _)).behind c
    · cases found
      exact alone c _ (length_escapedUnits c)

theorem escape?_shorter (found : escape? cs = some (us, after)) : after.length < cs.length := by
  obtain ⟨used, some_, rfl, -⟩ := escape?_spent found
  have one := List.length_pos_iff.2 some_
  rw [List.length_append]
  omega

-- What is left of a string literal in single quotes: the units it stands for, and the text
-- after the quote that ends it.
def body? : List Char → Option (List Nat × List Char)
  | [] => none
  | c :: rest =>
    if c = '\'' then some ([], rest)
    else if isLineEnd c then none
    else if c = '\\' then
      match _read : escape? rest with
      | none => none
      | some (us, after) => (body? after).map fun (vs, after) => (us ++ vs, after)
    else (body? rest).map fun (vs, after) => (unitsOfCode c.toNat ++ vs, after)
termination_by cs => cs.length
decreasing_by
  · exact Nat.lt_succ_of_lt (escape?_shorter _read)
  · exact Nat.lt_succ_self _

def singleQuoted? : List Char → Option (List Nat × List Char)
  | '\'' :: rest => body? rest
  | _ => none

def Denotes (text s : List Char) : Prop := ∀ rest, singleQuoted? (text ++ rest) = some (units s, rest)

def isPlain (c : Char) : Bool := !isLineEnd c && c != '\'' && c != '\\'

theorem body?_plain (plain : isPlain c = true) (rest : List Char) :
    body? (c :: rest) = (body? rest).map fun (vs, after) => (unitsOfCode c.toNat ++ vs, after) := by
  unfold isPlain at plain
  rw [Bool.and_eq_true, Bool.and_eq_true, bne_iff_ne, bne_iff_ne, Bool.not_eq_true'] at plain
  rw [body?, if_neg plain.1.2, if_neg (by rw [plain.1.1]; decide), if_neg plain.2]

theorem body?_ends (rest : List Char) : body? ('\'' :: rest) = some ([], rest) := by
  rw [body?, if_pos rfl]

theorem body?_broken (broken : isLineEnd c = true) (rest : List Char) : body? (c :: rest) = none := by
  rw [body?, if_neg, if_pos broken]
  rintro rfl
  cases broken

theorem body?_escaped (mark : c = '\\' ∨ c = '\'') (rest : List Char) :
    body? ('\\' :: c :: rest) = (body? rest).map fun (vs, after) => (unitsOfCode c.toNat ++ vs, after) := by
  have read : escape? (c :: rest) = some (unitsOfCode c.toNat, rest) := by
    rcases mark with rfl | rfl <;> rfl
  rw [body?, if_neg (by decide), if_neg (by decide), if_pos rfl]
  split
  · rename_i none_
    cases read.symm.trans none_
  · rename_i us after some_
    cases read.symm.trans some_
    rfl

theorem body?_of_plain (plain : ∀ c ∈ s, isPlain c = true) (rest : List Char) :
    body? (s ++ '\'' :: rest) = some (units s, rest) := by
  induction s with
  | nil => exact body?_ends rest
  | cons c s ih =>
    rw [List.cons_append, body?_plain (plain c List.mem_cons_self), ih fun d member => plain d (List.mem_cons_of_mem _ member)]
    rfl

-- And no other does: what is escaped has fewer units than its text.
theorem body?_cases (found : body? cs = some (us, after)) : ∃ used, cs = used ++ '\'' :: after ∧
    us.length ≤ (units used).length ∧ (us.length = (units used).length → ∀ c ∈ used, isPlain c = true) := by
  fun_induction body? cs generalizing us after with
  | case1 => cases found
  | case2 rest =>
    cases found
    exact ⟨[], rfl, Nat.le_refl _, fun _ => List.forall_mem_nil _⟩
  | case3 => cases found
  | case4 => cases found
  | case5 rest vs middle read _ _ ih =>
    obtain ⟨⟨ws, _⟩, later, same⟩ := Option.map_eq_some_iff.1 found
    cases same
    obtain ⟨used, rfl, few, -⟩ := ih later
    obtain ⟨escape, -, rfl, few'⟩ := escape?_spent read
    have long : (units ('\\' :: (escape ++ used))).length = 1 + ((units escape).length + (units used).length) := by
      rw [← List.length_append, ← units_append, ← List.length_singleton (a := '\\'.toNat), ← List.length_append]
      rfl
    refine ⟨'\\' :: (escape ++ used), ?_, ?_, fun equal => ?_⟩
    · rw [List.cons_append, List.append_assoc]
    · rw [List.length_append]
      omega
    · rw [List.length_append] at equal
      omega
  | case6 c rest notEnd whole notEscape ih =>
    obtain ⟨⟨ws, _⟩, later, same⟩ := Option.map_eq_some_iff.1 found
    cases same
    obtain ⟨used, rfl, few, plain⟩ := ih later
    have long : (units (c :: used)).length = (unitsOfCode c.toNat).length + (units used).length := List.length_append
    refine ⟨c :: used, rfl, ?_, fun equal => List.forall_mem_cons.2 ⟨?_, plain ?_⟩⟩
    · rw [List.length_append]
      omega
    · unfold isPlain
      rw [Bool.eq_false_iff.2 whole, bne_iff_ne.2 notEnd, bne_iff_ne.2 notEscape]
      rfl
    · rw [List.length_append] at equal
      omega

end Script
end TwinShape
