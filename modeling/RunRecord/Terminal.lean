/-!
# Terminal — coloured text

A **style** is a list of attributes.  Painting a text puts a sequence that switches the style on
before it and one that switches everything off behind it; where the text itself switches everything
off, the style is switched on again.  Marking a text uses a sequence for every attribute.

Whatever sequences a text brings along stay in it.  Only the one that switches everything off is
answered, because otherwise the rest of the text would be shown without its style.
-/

namespace RunRecord.Terminal

/-- What a terminal can do to a text. -/
inductive Attribute where
  | bold
  | dimmed
  | italic
  | underlined
  | red
  | green
  | yellow
  | blue
deriving DecidableEq, Repr

/-- The number that stands for an attribute. -/
def Attribute.code : Attribute → List Char
  | bold => ['1']
  | dimmed => ['2']
  | italic => ['3']
  | underlined => ['4']
  | red => ['3', '1']
  | green => ['3', '2']
  | yellow => ['3', '3']
  | blue => ['3', '4']

/-- Attributes in the order in which they are switched on. -/
abbrev Style := List Attribute

/-- The character that starts a control sequence. -/
def escape : Char := '\x1b'

/-- The sequence that switches a style on. -/
def Style.opening (style : Style) : List Char :=
  escape :: '[' :: ((style.map Attribute.code).intersperse [';']).flatten ++ ['m']

/-- Switches every attribute on again wherever the text switches them off.  The sequences themselves
stay in the text. -/
def reopen (opening : List Char) : List Char → List Char
  | [] => []
  | '\x1b' :: '[' :: '0' :: 'm' :: cs => ['\x1b', '[', '0', 'm'] ++ opening ++ reopen opening cs
  | c :: cs => c :: reopen opening cs

/-- The sequence that switches everything off. -/
def closing : List Char := [escape, '[', '0', 'm']

/-- A text in a style, or as it is if colours are off.  Everything is switched off behind it,
whatever was on before it. -/
def paint (colours : Bool) (style : Style) (s : String) : String :=
  if colours then String.ofList (style.opening ++ reopen style.opening s.toList ++ closing) else s

/-- A text in a style whose attributes are switched on one by one.  Without attributes, or if
colours are off, the text stays as it is. -/
def mark (colours : Bool) (style : Style) (s : String) : String :=
  if colours && !style.isEmpty then
    String.ofList ((style.flatMap fun a => Style.opening [a]) ++ s.toList ++ closing)
  else s

end RunRecord.Terminal
