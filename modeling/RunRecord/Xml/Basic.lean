/-!
# Xml/Basic — element trees

An element has a name, attributes in order, and one of three contents: nothing at all, a text, or
child elements each on a line of its own.  A list of children may be empty: such an element still
has a start tag and an end tag.

An element says nothing yet about characters: any text may be in a value, and what can be written is
decided when it is.  So a tree can be built from a report first and be made safe afterwards.
-/

namespace RunRecord.Xml

/-- An element of a document.  Its attributes are kept in the order in which they are written. -/
inductive Element where
  /-- An empty-element tag. -/
  | leaf (name : String) (attributes : List (String × String))
  /-- A text between its tags, on one line with them. -/
  | text (name : String) (attributes : List (String × String)) (body : String)
  /-- Children between tags of their own lines. -/
  | node (name : String) (attributes : List (String × String)) (children : List Element)

namespace Element

/-- An element with these children, or an empty-element tag if there are none. -/
def ofChildren (name : String) (attributes : List (String × String)) (children : List Element) :
    Element :=
  if children.isEmpty then .leaf name attributes else .node name attributes children

/-- Applies a function to the values of attributes. -/
def mapValues (f : String → String) (attributes : List (String × String)) :
    List (String × String) :=
  attributes.map fun a => (a.1, f a.2)

/-- Applies a function to every attribute value and every text of a tree.  Names are left as they
are. -/
def mapText (f : String → String) : Element → Element
  | .leaf name attributes => .leaf name (mapValues f attributes)
  | .text name attributes body => .text name (mapValues f attributes) (f body)
  | .node name attributes children =>
    .node name (mapValues f attributes) (children.map fun child => mapText f child)

end Element

end RunRecord.Xml
