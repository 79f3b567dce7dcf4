import RunRecord.Toml.Basic
import RunRecord.Toml.Text

/-!
# Toml/Layout — the outline of a configuration document

The **layout** of a document is what can be told from its marks alone: headers and keys with their
values, one to a line, where a value is a piece, an array or an inline table.  Arrays and inline
tables may be nested up to `deepest` levels and go over several lines.  What the pieces stand for is
not looked at: a key or a value that is left out shows as a missing piece.

An **outline** gathers the lines into blocks, each of which is a header with the pairs under it.
-/

namespace RunRecord.Toml

/-- A key: its first part and those behind it, which are separated by points. -/
structure Key where
  first : Piece
  more : List Piece
deriving DecidableEq, Repr

/-- Whether the last part of a key is there. -/
def Key.isComplete (key : Key) : Bool := key.more.getLastD key.first ≠ .missing

mutual

/-- A value as it is laid out.  What its pieces stand for is not known yet, nor whether they stand
for anything. -/
inductive Layout where
  | plain (piece : Piece)
  | array (items : List Layout)
  | inline (pairs : List Pair)

/-- A key with its value. -/
inductive Pair where
  | mk (key : Key) (value : Layout)

end

/-- A line of a document. -/
inductive Line where
  /-- A header, in double brackets if it `repeats`. -/
  | header (key : Key) (repeats : Bool)
  | pair (pair : Pair)

/-- A header with the pairs under it. -/
structure Block where
  key : Key
  /-- Whether the header is in double brackets. -/
  repeats : Bool
  pairs : List Pair

/-- The lines of a document: pairs without a header, and then blocks. -/
structure Outline where
  pairs : List Pair
  blocks : List Block

/-- A step that reads from the front of a list of tokens. -/
abbrev Step (α : Type) := List Token → Option (α × List Token)

/-! ## White space -/

/-- Tokens without the white space in front of them. -/
def dropGaps : List Token → List Token
  | .gap _ :: ts => dropGaps ts
  | ts => ts

/-- Passes over white space, comments and line breaks. -/
def trivia : List Token → Option (List Token)
  | .gap _ :: ts => trivia ts
  | .comment text :: ts => if text.all isPlain then trivia ts else none
  | .lineBreak isWhole :: ts => if isWhole then trivia ts else none
  | ts => some ts

/-- Passes over the end of a line: white space and a comment may stand there. -/
def lineEnd : List Token → Option (List Token)
  | [] => some []
  | .gap _ :: ts => lineEnd ts
  | .comment text :: ts => if text.all isPlain then lineEnd ts else none
  | .lineBreak isWhole :: ts => if isWhole then some ts else none
  | _ => none

/-- Passes over the rest of a line, whatever stands in it. -/
def lineRest : List Token → Option (List Token)
  | [] => some []
  | .comment text :: ts => if text.all isPlain then lineRest ts else none
  | .lineBreak isWhole :: ts => if isWhole then some ts else none
  | _ :: ts => lineRest ts

/-! ## Keys

A key is a piece, or several with dots between them.  Gaps around the dots do not count. -/

/-- The parts of a key up to the first token that cannot belong to it: behind a point, or at the
start, a part is `due`. -/
def keyParts : (due : Bool) → List Token → List Piece × List Token
  | due, .gap _ :: ts => keyParts due ts
  | true, .piece piece :: ts => ((keyParts false ts).map (piece :: ·) id)
  | true, .point :: ts => ((keyParts true ts).map (.missing :: ·) id)
  | false, .point :: ts => keyParts true ts
  | true, ts => ([.missing], ts)
  | false, ts => ([], ts)

/-- A key, and the tokens behind it and its white space. -/
def keyLayout (ts : List Token) : Key × List Token :=
  match keyParts true ts with
  | (first :: more, ts) => ({ first, more }, ts)
  | ([], ts) => ({ first := .missing, more := [] }, ts)

/-! ## Values

A value is read with a count of how deep it may still be nested, which is also what makes reading it
end. -/

/-- The piece that pieces without quotes make together with the points between them, `soFar` being
the text before them in reverse.  One gap may separate two of them, as in a date with a time. -/
def joined (soFar : List Char) : List Token → Piece × List Token
  | .piece { form := .bare, text, isClosed := _ } :: ts => joined (text.reverse ++ soFar) ts
  | .point :: ts => joined ('.' :: soFar) ts
  | .gap gap :: .piece { form := .bare, text, isClosed := _ } :: ts =>
    joined (text.reverse ++ gap.reverse ++ soFar) ts
  | ts => ({ form := .bare, text := soFar.reverse, isClosed := true }, ts)

mutual

/-- A value; `depth` more levels may be opened. -/
def valueLayout (depth : Nat) : (fuel : Nat) → Step Layout
  | 0, _ => none
  | fuel + 1, ts =>
    match depth, ts with
    | depth + 1, .openBracket :: ts => arrayLayout depth fuel [] ts
    | depth + 1, .openBrace :: ts => inlineLayout depth fuel [] ts
    | _, .piece piece :: ts =>
      if piece.form = .bare then some ((joined piece.text.reverse ts).map .plain id)
      else some (.plain piece, ts)
    | _, .point :: ts => some ((joined ['.'] ts).map .plain id)
    | _, _ => none

/-- The rest of an array up to and with its closing bracket, `soFar` being its first items in
reverse.  Line breaks and comments may stand between the items, and a comma behind the last. -/
def arrayLayout (depth : Nat) : (fuel : Nat) → List Layout → Step Layout
  | 0, _, _ => none
  | fuel + 1, soFar, ts => do
    match ← trivia ts with
    | .closeBracket :: ts => some (.array soFar.reverse, ts)
    | ts =>
      let (item, ts) ← valueLayout depth fuel ts
      match ← trivia ts with
      | .closeBracket :: ts => some (.array (item :: soFar).reverse, ts)
      | .comma :: ts => arrayLayout depth fuel (item :: soFar) ts
      | _ => none

/-- The rest of an inline table up to and with its closing brace, `soFar` being its first pairs in
reverse.  Line breaks may stand between a key and its value, but not inside the key.  The last pair
may lack its value, also together with the equals sign. -/
def inlineLayout (depth : Nat) : (fuel : Nat) → List Pair → Step Layout
  | 0, _, _ => none
  | fuel + 1, soFar, ts => do
    match ← trivia ts with
    | .closeBrace :: ts => some (.inline soFar.reverse, ts)
    | ts =>
      let (key, ts) := keyLayout ts
      let withoutValue := Layout.inline (.mk key (.plain .missing) :: soFar).reverse
      match ← trivia ts with
      | .closeBrace :: ts => some (withoutValue, ts)
      | .equals :: ts =>
        match ← trivia ts with
        | .closeBrace :: ts => some (withoutValue, ts)
        | ts =>
          let (item, ts) ← valueLayout depth fuel ts
          match ← trivia ts with
          | .closeBrace :: ts => some (.inline (.mk key item :: soFar).reverse, ts)
          | .comma :: ts => inlineLayout depth fuel (.mk key item :: soFar) ts
          | _ => none
      | _ => none

end

/-- The value of a line, with as much fuel as the tokens can use; it may be left out. -/
def lineValue (ts : List Token) : Option (Layout × List Token) :=
  match dropGaps ts with
  | [] => some (.plain .missing, [])
  | .comment text :: ts => some (.plain .missing, .comment text :: ts)
  | .lineBreak isWhole :: ts => some (.plain .missing, .lineBreak isWhole :: ts)
  | ts => valueLayout deepest (2 * ts.length + 2) ts

/-! ## Lines -/

/-- A header from behind its opening brackets.  It has to be closed unless the last part of its key
is missing: the line is passed over then. -/
def header (repeats : Bool) (ts : List Token) : Option (Line × List Token) :=
  let (key, ts) := keyLayout ts
  match repeats, ts with
  | false, .closeBracket :: ts => (lineEnd ts).map (.header key repeats, ·)
  | true, .closeBracket :: .closeBracket :: ts => (lineEnd ts).map (.header key repeats, ·)
  | true, .closeBracket :: _ => none
  | _, ts => if key.isComplete then none else (lineRest ts).map (.header key repeats, ·)

/-- A header or a key with its value, up to the end of the line. -/
def line (ts : List Token) : Option (Line × List Token) :=
  match ts with
  | .openBracket :: .openBracket :: ts => header true ts
  | .openBracket :: ts => header false ts
  | ts => do
    let (key, ts) := keyLayout ts
    match ts with
    | .equals :: ts =>
      let (item, ts) ← lineValue ts
      some (.pair (.mk key item), ← lineEnd ts)
    | _ => none

/-- The lines behind those read so far, which are given in reverse. -/
def linesFrom : (fuel : Nat) → List Line → List Token → Option (List Line)
  | 0, _, _ => none
  | fuel + 1, soFar, ts => do
    match ← trivia ts with
    | [] => some soFar.reverse
    | ts =>
      let (l, ts) ← line ts
      linesFrom fuel (l :: soFar) ts

/-- The lines of a document; a byte order mark at its start is passed over. -/
def lines? (cs : List Char) : Option (List Line) :=
  let ts := tokens (if cs.head? = some '\uFEFF' then cs.drop 1 else cs)
  linesFrom (ts.length + 1) [] ts

/-! ## Blocks

A header opens a block, and the pairs behind it belong to it until the next header.  The pairs
before the first header belong to the root. -/

namespace Outline

/-- An outline with a line in front of it: a header takes the pairs that have none. -/
def cons (line : Line) (outline : Outline) : Outline :=
  match line with
  | .header key repeats =>
    { pairs := [], blocks := { key, repeats, pairs := outline.pairs } :: outline.blocks }
  | .pair pair => { outline with pairs := pair :: outline.pairs }

/-- The outline that lines make. -/
def ofLines (lines : List Line) : Outline := lines.foldr cons { pairs := [], blocks := [] }

end Outline

/-- The outline of a document.  There is none if a line is no line, however sound the others are. -/
def outline? (cs : List Char) : Option Outline := (lines? cs).map .ofLines

end RunRecord.Toml
