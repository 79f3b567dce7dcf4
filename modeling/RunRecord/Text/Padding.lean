/-!
# Text/Padding — filling a column

Widths count characters.  A text that is too long is never cut.

What a terminal shows of a character is not looked at, so a column is straight only if every
character takes one place.
-/

namespace RunRecord.Text

/-- Spaces after a text, up to a width. -/
def padRight (width : Nat) (s : String) : String :=
  s ++ String.ofList (List.replicate (width - s.length) ' ')

/-- Spaces before a text, up to a width. -/
def padLeft (width : Nat) (s : String) : String :=
  String.ofList (List.replicate (width - s.length) ' ') ++ s

end RunRecord.Text
