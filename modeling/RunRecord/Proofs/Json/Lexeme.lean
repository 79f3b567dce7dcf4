import RunRecord.Json.Basic
import RunRecord.Text.Digits
import RunRecord.Text.Utf8

/-!
# Proofs/Json/Lexeme — a reader that knows nothing but JSON

The whole grammar of JSON, and no more.  A document is cut into **lexemes**, which keep their
spelling and lose the white space between them, and the lexemes are put together to a value with a
stack of the arrays and objects that are still open.  Refused are strings with bare control
characters or surrogates that do not come in pairs, numbers with superfluous zeros, missing and
trailing commas, and anything but white space behind the value.  Objects keep their members in
order, repeated ones too.

This reader is a specification and is never run by the program.  It is not made from the program's
own reader, which takes a report apart while it reads bytes and does not keep a value at all.  It is
written to be checked against the grammar by eye, so it takes several passes over the document, and
its numbers are exact.
-/

namespace RunRecord.Json

/-! ## Characters -/

/-- White space between lexemes. -/
def isGap (c : Char) : Bool := c == ' ' || c == '\t' || c == '\n' || c == '\r'

/-- The six structural characters. -/
def marks : List Char := ['[', ']', '\x7b', '\x7d', ':', ',']

/-- The characters of numbers and literals: all that are neither white space nor structural nor a
quote.  Whether they make a number is asked later, of the whole word. -/
def isWordChar (c : Char) : Bool := !isGap c && !marks.contains c && c != '"'

/-! ## Lexemes

Cutting a document up needs no look at what it means: a quote begins a string, a structural
character stands for itself, and all others run on to the next of those. -/

/-- A piece of a document. -/
inductive Lexeme where
  /-- A structural character. -/
  | mark (c : Char)
  /-- What stands between the quotes of a string, with its escapes. -/
  | string (body : List Char)
  /-- A number or a literal. -/
  | word (text : List Char)
deriving DecidableEq

/-- A string from behind its opening quote, and what follows its closing quote.  Escapes are kept as
they are spelled, so that an escaped quote is not taken for the closing one. -/
def stringBody? : List Char → Option (List Char × List Char)
  | [] => none
  | '"' :: r => some ([], r)
  | '\\' :: c :: r => (stringBody? r).map fun p => ('\\' :: c :: p.1, p.2)
  | c :: r => (stringBody? r).map fun p => (c :: p.1, p.2)

/-- What follows a string is shorter than the string and it, so that the cutting comes to an end. -/
theorem stringBody?_length_lt {cs body r : List Char} (h : stringBody? cs = some (body, r)) :
    r.length < cs.length := by
  fun_induction stringBody? cs generalizing body with
  | case1 => cases h
  | case2 r' =>
    cases h
    exact Nat.lt_succ_self _
  | case3 c r' ih =>
    obtain ⟨_, hr, hp⟩ := Option.map_eq_some_iff.1 h
    cases hp
    have := ih hr
    simp only [List.length_cons]
    omega
  | case4 c r' _ _ ih =>
    obtain ⟨_, hr, hp⟩ := Option.map_eq_some_iff.1 h
    cases hp
    have := ih hr
    rw [List.length_cons]
    omega

/-- The lexemes of a text, or nothing if a string does not end. -/
def lexemes? (cs : List Char) : Option (List Lexeme) :=
  match cs with
  | [] => some []
  | c :: cs =>
    if isGap c then lexemes? cs
    else if marks.contains c then (lexemes? cs).map (.mark c :: ·)
    else if c = '"' then
      match _h : stringBody? cs with
      | none => none
      | some (body, r) => (lexemes? r).map (.string body :: ·)
    else
      (lexemes? (cs.dropWhile isWordChar)).map (.word (c :: cs.takeWhile isWordChar) :: ·)
termination_by cs.length
decreasing_by
  · simp
  · simp
  · have := stringBody?_length_lt _h
    rw [List.length_cons]
    omega
  · have := (List.dropWhile_suffix isWordChar (l := cs)).length_le
    rw [List.length_cons]
    omega

/-! ## Strings -/

/-- The value of a hexadecimal digit, of either case. -/
def hexDigit? (c : Char) : Option Nat :=
  if '0' ≤ c ∧ c ≤ '9' then some (c.toNat - '0'.toNat)
  else if 'a' ≤ c ∧ c ≤ 'f' then some (c.toNat - 'a'.toNat + 10)
  else if 'A' ≤ c ∧ c ≤ 'F' then some (c.toNat - 'A'.toNat + 10)
  else none

/-- The value of four hexadecimal digits. -/
def hexCode? (a b c d : Char) : Option Nat := do
  some ((← hexDigit? a) * 4096 + (← hexDigit? b) * 256 + (← hexDigit? c) * 16 + (← hexDigit? d))

/-- The character that a letter behind a backslash stands for. -/
def letterEscape? (c : Char) : Option Char :=
  [('"', '"'), ('\\', '\\'), ('/', '/'), ('b', '\x08'), ('f', '\x0C'), ('n', '\n'), ('r', '\r'),
    ('t', '\t')].lookup c

/-- Whether a code unit is the first half of a pair. -/
def isFirstHalf (n : Nat) : Bool := 0xD800 ≤ n && n < 0xDC00

/-- Whether a code unit is the second half of a pair. -/
def isSecondHalf (n : Nat) : Bool := 0xDC00 ≤ n && n < 0xE000

/-- The characters that the body of a string stands for, or nothing if a control character is bare,
an escape is none, or half a pair is alone. -/
def unescaped? : List Char → Option (List Char)
  | [] => some []
  | '\\' :: 'u' :: a :: b :: c :: d :: r =>
    (hexCode? a b c d).bind fun n =>
      if isFirstHalf n then
        match r with
        | '\\' :: 'u' :: a :: b :: c :: d :: r =>
          (hexCode? a b c d).bind fun m =>
            if isSecondHalf m then
              (unescaped? r).map (Char.ofNat ((n - 0xD800) * 0x400 + (m - 0xDC00) + 0x10000) :: ·)
            else none
        | _ => none
      else if isSecondHalf n then none
      else (unescaped? r).map (Char.ofNat n :: ·)
  | '\\' :: c :: r => (letterEscape? c).bind fun d => (unescaped? r).map (d :: ·)
  | c :: r => if c = '\\' ∨ c = '"' ∨ c.toNat < 0x20 then none else (unescaped? r).map (c :: ·)

/-! ## Numbers

A number is its significand with the point taken out, and an exponent of ten that makes up for it.
No digit is lost, whatever its length. -/

/-- A run of digits, and nothing else.  No digits at all are no number. -/
def natural? (cs : List Char) : Option Nat :=
  if cs ≠ [] ∧ cs.all Digits.isDigit then some (Digits.value cs) else none

/-- An exponent, or none. -/
def exponent? : List Char → Option Int
  | [] => some 0
  | c :: cs =>
    if c = 'e' ∨ c = 'E' then
      match cs with
      | '-' :: ds => (natural? ds).map fun n : Nat => -(n : Int)
      | '+' :: ds => (natural? ds).map Int.ofNat
      | ds => (natural? ds).map Int.ofNat
    else none

/-- The digits of a fraction, or none, and what follows them. -/
def fraction? : List Char → Option (List Char × List Char)
  | '.' :: cs =>
    if cs.takeWhile Digits.isDigit = [] then none
    else some (cs.takeWhile Digits.isDigit, cs.dropWhile Digits.isDigit)
  | cs => some ([], cs)

/-- A number without a sign: its significand and its exponent.  A zero in front of other digits is
refused here. -/
def magnitude? (cs : List Char) : Option (Nat × Int) := do
  let whole := cs.takeWhile Digits.isDigit
  if whole = [] ∨ whole.head? = some '0' ∧ whole ≠ ['0'] then none
  else
    let (places, r) ← fraction? (cs.dropWhile Digits.isDigit)
    let exponent ← exponent? r
    some (Digits.value (whole ++ places), exponent - places.length)

/-- A number. -/
def number? : List Char → Option Json
  | '-' :: cs => (magnitude? cs).map fun m => .number (-m.1) m.2
  | cs => (magnitude? cs).map fun m => .number m.1 m.2

/-! ## Values

The stack of open arrays and objects takes the place of recursion, so that one lexeme after another
is enough to say what a document is. -/

/-- A literal or a number. -/
def word? (text : List Char) : Option Json :=
  if text = ['n', 'u', 'l', 'l'] then some .null
  else if text = ['t', 'r', 'u', 'e'] then some (.boolean true)
  else if text = ['f', 'a', 'l', 's', 'e'] then some (.boolean false)
  else number? text

/-- A value that is one lexeme. -/
def scalar? : Lexeme → Option Json
  | .mark _ => none
  | .string body => (unescaped? body).map fun cs => .string (String.ofList cs)
  | .word text => word? text

/-- An array or an object that has not ended yet, up to the value that is being read. -/
inductive OpenValue where
  | array (before : List Json)
  | object (before : List (String × Json)) (key : String)

/-- What comes next within the innermost open array or object.  A place behind a comma is another
than the one behind a bracket, since only at the latter may nothing follow. -/
inductive Place where
  /-- A value. -/
  | value
  /-- The first element of an array, or its end. -/
  | firstElement
  /-- The first key of an object, or its end. -/
  | firstKey
  /-- A key. -/
  | key (before : List (String × Json))
  /-- A colon. -/
  | colon (before : List (String × Json)) (key : String)
  /-- A comma, or the end of an array. -/
  | behindElement (before : List Json)
  /-- A comma, or the end of an object. -/
  | behindMember (before : List (String × Json))
  /-- Nothing: the value of the document is complete. -/
  | done (v : Json)

/-- How far a document has been read: what comes next, and what is open around it. -/
abbrev Progress := Place × List OpenValue

/-- A value is complete. -/
def complete (v : Json) : List OpenValue → Progress
  | [] => (.done v, [])
  | .array before :: outer => (.behindElement (before ++ [v]), outer)
  | .object before key :: outer => (.behindMember (before ++ [(key, v)]), outer)

/-- The first lexeme of a value. -/
def beginValue (outer : List OpenValue) : Lexeme → Option Progress
  | .mark '[' => some (.firstElement, outer)
  | .mark '\x7b' => some (.firstKey, outer)
  | l => (scalar? l).map (complete · outer)

/-- A key. -/
def beginMember (before : List (String × Json)) (outer : List OpenValue) :
    Lexeme → Option Progress
  | .string body => (unescaped? body).map fun cs => (.colon before (String.ofList cs), outer)
  | _ => none

/-- One lexeme more.  There is one equation for each place, and a lexeme that has none there makes
the document no JSON. -/
def advance : Progress → Lexeme → Option Progress
  | (.value, outer), l => beginValue outer l
  | (.firstElement, outer), l =>
    if l = .mark ']' then some (complete (.array []) outer) else beginValue (.array [] :: outer) l
  | (.firstKey, outer), l =>
    if l = .mark '\x7d' then some (complete (.object []) outer) else beginMember [] outer l
  | (.key before, outer), l => beginMember before outer l
  | (.colon before key, outer), l =>
    if l = .mark ':' then some (.value, .object before key :: outer) else none
  | (.behindElement before, outer), l =>
    if l = .mark ',' then some (.value, .array before :: outer)
    else if l = .mark ']' then some (complete (.array before) outer)
    else none
  | (.behindMember before, outer), l =>
    if l = .mark ',' then some (.key before, outer)
    else if l = .mark '\x7d' then some (complete (.object before) outer)
    else none
  | (.done _, _), _ => none

/-- The value that lexemes make: one value with nothing left open, and nothing behind it. -/
def assemble? (lexemes : List Lexeme) : Option Json := do
  match ← lexemes.foldlM advance (.value, []) with
  | (.done v, _) => some v
  | _ => none

/-- **The value of a document**, if it is UTF-8 and JSON. -/
def read (document : Bytes) : Option Json := do
  assemble? (← lexemes? (← Utf8.decode? document))

end RunRecord.Json
