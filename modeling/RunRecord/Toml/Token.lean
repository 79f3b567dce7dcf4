/-!
# Toml/Token — the pieces and marks a configuration document is made of

Every text is a sequence of **tokens**: marks, white space, comments, line breaks, and **pieces**,
which are runs of characters with or without quotes.  Cutting a text into tokens never fails:
whether a piece is a sound string, number or key is decided where it is used.

Line breaks are tokens of their own because lines matter in such a document, while gaps and comments
only have to be passed over.  A piece in quotes that does not end is a token as well, and one that
no value is made of.
-/

namespace RunRecord.Toml

/-! ## Characters -/

/-- Whether a character is a space or a tab. -/
def isGap (c : Char) : Bool := c = ' ' || c = '\t'

/-- Whether a character belongs to the line it stands in. -/
def isInLine (c : Char) : Bool := c ≠ '\n' && c ≠ '\r'

/-! ## Tokens -/

/-- How a piece is enclosed. -/
inductive Form where
  /-- By nothing. -/
  | bare
  /-- By double quotes, between which a backslash starts an escape. -/
  | basic
  /-- By single quotes. -/
  | literal
  /-- By three double quotes on each side. -/
  | longBasic
  /-- By three single quotes on each side. -/
  | longLiteral
deriving DecidableEq, Repr

/-- Whether a backslash starts an escape in a piece. -/
def Form.hasEscapes : Form → Bool
  | basic => true
  | longBasic => true
  | _ => false

/-- A piece as it was written, without its quotes.  Whether it ends is kept with it, since a piece
that does not is still one. -/
structure Piece where
  form : Form
  text : List Char
  /-- Whether the quotes behind the text are there, if it needs any. -/
  isClosed : Bool
deriving DecidableEq, Repr

/-- The piece that stands where one is missing. -/
def Piece.missing : Piece := { form := .bare, text := [], isClosed := true }

/-- What a document is made of.  Nothing of a document is left out when it is cut into tokens. -/
inductive Token where
  | piece (piece : Piece)
  | point
  | equals
  | comma
  | openBracket
  | closeBracket
  | openBrace
  | closeBrace
  /-- Spaces and tabs. -/
  | gap (text : List Char)
  /-- A comment, without its sharp. -/
  | comment (text : List Char)
  /-- A line feed, also one behind a carriage return.  A carriage return alone is not a whole line
  break. -/
  | lineBreak (isWhole : Bool)
deriving DecidableEq, Repr

/-! ## Quoted pieces

Two quotes are an empty string, unless a third stands behind them: three open a string of several
lines. -/

/-- A piece on one line from behind its opening quote, `soFar` being its text in reverse: up to the
next quote that no escape covers, or else to the end of the line. -/
def shortPiece (form : Form) (quote : Char) (soFar : List Char) : List Char → Piece × List Char
  | [] => ({ form, text := soFar.reverse, isClosed := false }, [])
  | '\n' :: cs => ({ form, text := soFar.reverse, isClosed := false }, '\n' :: cs)
  | '\\' :: c :: cs =>
    if form.hasEscapes && (c = '\\' || c = quote) then
      shortPiece form quote (c :: '\\' :: soFar) cs
    else shortPiece form quote ('\\' :: soFar) (c :: cs)
  | c :: cs =>
    if c = quote then ({ form, text := soFar.reverse, isClosed := true }, cs)
    else shortPiece form quote (c :: soFar) cs

/-- A piece over several lines from behind its opening quotes, `soFar` being its text in reverse: up
to three quotes that no escape covers, or else to the end of the document.  Up to two more quotes
belong to the text. -/
def longPiece (form : Form) (quote : Char) (soFar : List Char) : List Char → Piece × List Char
  | [] => ({ form, text := soFar.reverse, isClosed := false }, [])
  | '\\' :: c :: cs =>
    if form.hasEscapes && (c = '\\' || c = quote) then
      longPiece form quote (c :: '\\' :: soFar) cs
    else longPiece form quote ('\\' :: soFar) (c :: cs)
  | c :: cs =>
    if (c :: cs).take 3 = [quote, quote, quote] then
      let more := ((cs.drop 2).take 2).takeWhile (· == quote)
      ({ form, text := soFar.reverse ++ more, isClosed := true }, cs.drop (2 + more.length))
    else longPiece form quote (c :: soFar) cs

/-- A piece from behind its first quote: three quotes enclose one over several lines. -/
def quotedPiece (short long : Form) (quote : Char) (cs : List Char) : Piece × List Char :=
  if cs.take 2 = [quote, quote] then longPiece long quote [] (cs.drop 2)
  else shortPiece short quote [] cs

/-! ## Cutting a text into tokens -/

/-- The token that a single character makes. -/
def single? (c : Char) : Option Token :=
  if c = '.' then some .point
  else if c = '=' then some .equals
  else if c = ',' then some .comma
  else if c = '[' then some .openBracket
  else if c = ']' then some .closeBracket
  else if c = '\x7b' then some .openBrace
  else if c = '\x7d' then some .closeBrace
  else if c = '\n' then some (.lineBreak true)
  else none

/-- Whether a piece without quotes goes on with a character. -/
def isBare (c : Char) : Bool := (single? c).isNone && isInLine c && !isGap c && c ≠ '#'

/-- A line break from behind its carriage return. -/
def lineFeed (cs : List Char) : Token × List Char :=
  if cs.head? = some '\n' then (.lineBreak true, cs.drop 1) else (.lineBreak false, cs)

/-- A quoted piece as a token. -/
def quotedToken (short long : Form) (quote : Char) (cs : List Char) : Token × List Char :=
  (.piece (quotedPiece short long quote cs).1, (quotedPiece short long quote cs).2)

/-- The token that starts with a character, and the text behind it. -/
def token (c : Char) (cs : List Char) : Token × List Char :=
  match single? c with
  | some t => (t, cs)
  | none =>
    if c = '\r' then lineFeed cs
    else if c = '"' then quotedToken .basic .longBasic c cs
    else if c = '\'' then quotedToken .literal .longLiteral c cs
    else if c = '#' then (.comment (cs.takeWhile isInLine), cs.dropWhile isInLine)
    else if isGap c then (.gap (c :: cs.takeWhile isGap), cs.dropWhile isGap)
    else
      (.piece { form := .bare, text := c :: cs.takeWhile isBare, isClosed := true },
        cs.dropWhile isBare)

theorem shortPiece_rest_le (form : Form) (quote : Char) (soFar cs : List Char) :
    (shortPiece form quote soFar cs).2.length ≤ cs.length := by
  fun_induction shortPiece form quote soFar cs with
  | case1 | case2 => exact Nat.le_refl _
  | case3 _ _ _ _ ih | case4 _ _ _ _ ih | case6 _ _ _ _ _ _ ih =>
    simp only [List.length_cons] at ih ⊢
    omega
  | case5 => simp

theorem longPiece_rest_le (form : Form) (quote : Char) (soFar cs : List Char) :
    (longPiece form quote soFar cs).2.length ≤ cs.length := by
  fun_induction longPiece form quote soFar cs with
  | case1 => exact Nat.le_refl _
  | case2 _ _ _ _ ih | case3 _ _ _ _ ih | case5 _ _ _ _ _ ih =>
    simp only [List.length_cons] at ih ⊢
    omega
  | case4 => simp only [List.length_drop, List.length_cons]; omega

theorem quotedPiece_rest_le (short long : Form) (quote : Char) (cs : List Char) :
    (quotedPiece short long quote cs).2.length ≤ cs.length := by
  unfold quotedPiece
  split
  · exact Nat.le_trans (longPiece_rest_le ..) (by simp)
  · exact shortPiece_rest_le ..

theorem lineFeed_rest_le (cs : List Char) : (lineFeed cs).2.length ≤ cs.length := by
  unfold lineFeed
  split
  · simp
  · exact Nat.le_refl _

theorem token_rest_le (c : Char) (cs : List Char) : (token c cs).2.length ≤ cs.length := by
  have drop_le (p : Char → Bool) : (cs.dropWhile p).length ≤ cs.length :=
    (List.dropWhile_sublist p).length_le
  fun_cases token c cs with
  | case1 => exact Nat.le_refl _
  | case2 => exact lineFeed_rest_le cs
  | case3 | case4 => exact quotedPiece_rest_le ..
  | case5 | case6 | case7 => exact drop_le _

/-- The tokens of a text, `soFar` being the ones before it in reverse. -/
def tokensFrom (soFar : List Token) : List Char → List Token
  | [] => soFar.reverse
  | c :: cs => tokensFrom ((token c cs).1 :: soFar) (token c cs).2
termination_by cs => cs.length
decreasing_by
  have := token_rest_le c cs
  simp only [List.length_cons]
  omega

/-- The tokens of a text. -/
def tokens (cs : List Char) : List Token := tokensFrom [] cs

end RunRecord.Toml
