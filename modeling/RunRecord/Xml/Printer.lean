import RunRecord.Xml.Basic

/-!
# Xml/Printer — writing element trees

Every element starts on a line of its own, two spaces deeper than its parent.  In attribute values
and texts the five characters that have a predefined entity are written as entities; everything
else, line breaks and tabs included, stands for itself.

There is no declaration in front and nothing behind the root element.  An element without content is
a single tag; one with a text has it between its tags, on the same line.
-/

namespace RunRecord.Xml

/-- One character of an attribute value or a text.  Five characters have an entity, and all others
stand for themselves. -/
def escapeChar (c : Char) : List Char :=
  if c = '<' then ['&', 'l', 't', ';']
  else if c = '>' then ['&', 'g', 't', ';']
  else if c = '&' then ['&', 'a', 'm', 'p', ';']
  else if c = '\'' then ['&', 'a', 'p', 'o', 's', ';']
  else if c = '"' then ['&', 'q', 'u', 'o', 't', ';']
  else [c]

/-- An attribute value or a text with entities in it. -/
def escape (s : String) : List Char := s.toList.flatMap escapeChar

/-- An attribute, with the space before it. -/
def writeAttribute (a : String × String) : List Char :=
  ' ' :: (a.1.toList ++ '=' :: '"' :: (escape a.2 ++ ['"']))

/-- What a start tag and an empty-element tag have in common. -/
def openTag (name : String) (attributes : List (String × String)) : List Char :=
  '<' :: (name.toList ++ attributes.flatMap writeAttribute)

/-- An end tag. -/
def closeTag (name : String) : List Char := '<' :: '/' :: (name.toList ++ ['>'])

/-- A line break and the indentation at a depth of nesting. -/
def newline (depth : Nat) : List Char := '\n' :: List.replicate (2 * depth) ' '

mutual

/-- An element at a depth of nesting, from its tag on.  Nothing stands behind its end. -/
def write (depth : Nat) : Element → List Char
  | .leaf name attributes => openTag name attributes ++ ['/', '>']
  | .text name attributes body => openTag name attributes ++ '>' :: (escape body ++ closeTag name)
  | .node name attributes children =>
    openTag name attributes ++ '>' :: (writeAll (depth + 1) children ++ newline depth ++
      closeTag name)

/-- Elements at a depth of nesting, each on a new line. -/
def writeAll (depth : Nat) : List Element → List Char
  | [] => []
  | e :: es => newline depth ++ write depth e ++ writeAll depth es

end

/-- An element as a document. -/
def render (e : Element) : List Char := write 0 e

end RunRecord.Xml
