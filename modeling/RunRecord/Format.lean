/-!
# Format — the two output formats and their identifiers

An identifier is matched without regard to the case of ASCII letters.

Besides its identifier a format has a name, by which it is stored in settings and shown to a user,
and which is told apart from other spellings of it.  The identifier is also the extension of files
in the format.
-/

namespace RunRecord

/-- A format a report can be written in. -/
inductive Format where
  | json
  | xml
deriving DecidableEq, Repr

namespace Format

/-- The name a format is shown by. -/
def name : Format → String
  | json => "JSON"
  | xml => "XML"

/-- The formats, in order. -/
def all : List Format := [json, xml]

/-- The format with exactly this name.  This is how settings that were stored name a format. -/
def ofName? (name : String) : Option Format := all.find? (·.name = name)

/-- The extension of a file in this format.  It is the identifier of the format, too. -/
def extension : Format → String
  | json => "json"
  | xml => "xml"

/-- Whether two texts differ at most in the case of ASCII letters. -/
def sameLetters (s t : String) : Bool :=
  s.toList.map Char.toLower == t.toList.map Char.toLower

/-- The format with a given identifier.  There are two formats, so any other identifier is refused.
-/
def ofId? (id : String) : Option Format :=
  if sameLetters id "json" then some json
  else if sameLetters id "xml" then some xml
  else none

end Format

end RunRecord
