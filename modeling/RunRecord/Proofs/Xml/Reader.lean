import Mathlib.Data.List.Infix
import RunRecord.Text.Utf8
import RunRecord.Xml.Character

/-!
# Proofs/Xml/Reader — a reader that knows nothing but XML

The part of XML 1.0 that has elements, attributes in double quotes, character data and the five
predefined entities.  A document is cut into **tokens**, and the tokens are put together to
**content**: character data, kept to the last blank, and elements.  Refused are tags that do not
match, a repeated attribute, a raw `<` or a bare `&` in a value, character data beside elements,
anything but white space around the one root, and every character that XML does not allow.

It is a specification and no part of the program, which writes XML but never reads it.  It is strict
where the standard is, and it refuses what no document of a report has, such as comments and
references to code points.  Character data is kept as it stands, since an application that reads a
report gets to see it.
-/

namespace RunRecord.Xml

/-! ## Characters and names

The intervals are those of XML 1.0.  A colon is a character of names like any other here. -/

/-- White space within markup. -/
def isSpace (c : Char) : Bool := c == ' ' || c == '\t' || c == '\n' || c == '\r'

/-- The characters that a name may start with, as closed intervals of code points. -/
def nameStartRanges : List (Nat × Nat) := [
  (0x3A, 0x3A), (0x41, 0x5A), (0x5F, 0x5F), (0x61, 0x7A), (0xC0, 0xD6), (0xD8, 0xF6),
  (0xF8, 0x2FF), (0x370, 0x37D), (0x37F, 0x1FFF), (0x200C, 0x200D), (0x2070, 0x218F),
  (0x2C00, 0x2FEF), (0x3001, 0xD7FF), (0xF900, 0xFDCF), (0xFDF0, 0xFFFD), (0x10000, 0xEFFFF)]

/-- The characters that may stand further on in a name only. -/
def nameRestRanges : List (Nat × Nat) :=
  [(0x2D, 0x2E), (0x30, 0x39), (0xB7, 0xB7), (0x300, 0x36F), (0x203F, 0x2040)]

/-- Whether a character lies in one of several intervals. -/
def isIn (ranges : List (Nat × Nat)) (c : Char) : Bool :=
  ranges.any fun r => r.1 ≤ c.toNat && c.toNat ≤ r.2

/-- Whether a name may start with a character. -/
def isNameStart : Char → Bool := isIn nameStartRanges

/-- Whether a character may stand in a name. -/
def isNameChar : Char → Bool := isIn (nameStartRanges ++ nameRestRanges)

/-- The name at the front of a text, as long as it goes. -/
def name? (cs : List Char) : Option (String × List Char) :=
  if (cs.head?.any isNameStart) then
    some (String.ofList (cs.takeWhile isNameChar), cs.dropWhile isNameChar)
  else none

/-! ## References

A reference is read to its semicolon before it is looked up, and an ampersand that opens none makes
the whole text one that is not read. -/

/-- The character that a predefined entity stands for. -/
def entity? (name : List Char) : Option Char :=
  [(['l', 't'], '<'), (['g', 't'], '>'), (['a', 'm', 'p'], '&'), (['a', 'p', 'o', 's'], '\''),
    (['q', 'u', 'o', 't'], '"')].lookup name

/-- A text with its references resolved; `pending` is the name of a reference that is being read. -/
def resolve (pending : Option (List Char)) : List Char → Option (List Char)
  | [] => if pending = none then some [] else none
  | c :: cs =>
    match pending with
    | none =>
      if c = '<' then none
      else if c = '&' then resolve (some []) cs
      else (resolve none cs).map (c :: ·)
    | some name =>
      if c = ';' then (entity? name).bind fun d => (resolve none cs).map (d :: ·)
      else resolve (some (name ++ [c])) cs

/-! ## Tags

The functions on parts of a tag return what follows them.  That this is shorter than what they were
given makes the loop over attributes, and later the one over tokens, end. -/

/-- An equals sign, with white space around it. -/
def equals? (cs : List Char) : Option (List Char) :=
  match cs.dropWhile isSpace with
  | '=' :: r => some (r.dropWhile isSpace)
  | _ => none

/-- A value in double quotes. -/
def value? : List Char → Option (String × List Char)
  | '"' :: r =>
    match r.dropWhile (· != '"') with
    | [] => none
    | _ :: rest => (resolve none (r.takeWhile (· != '"'))).map fun v => (String.ofList v, rest)
  | _ => none

/-- An attribute. -/
def attribute? (cs : List Char) : Option ((String × String) × List Char) := do
  let (key, r) ← name? cs
  let r ← equals? r
  let (value, r) ← value? r
  some ((key, value), r)

theorem length_dropWhile_le (p : Char → Bool) (cs : List Char) :
    (cs.dropWhile p).length ≤ cs.length := (List.dropWhile_suffix p).length_le

theorem name?_length_le {cs r : List Char} {name : String} (h : name? cs = some (name, r)) :
    r.length ≤ cs.length := by
  unfold name? at h
  split at h
  · cases h
    exact length_dropWhile_le _ _
  · cases h

theorem equals?_length_le {cs r : List Char} (h : equals? cs = some r) : r.length ≤ cs.length := by
  unfold equals? at h
  split at h
  · next t ht =>
    cases h
    have hcs := length_dropWhile_le isSpace cs
    have ht' := length_dropWhile_le isSpace t
    rw [ht, List.length_cons] at hcs
    omega
  · cases h

theorem value?_length_lt {cs r : List Char} {v : String} (h : value? cs = some (v, r)) :
    r.length < cs.length := by
  unfold value? at h
  split at h
  · next t =>
    split at h
    · cases h
    · next ht =>
      obtain ⟨_, -, h⟩ := Option.map_eq_some_iff.1 h
      cases h
      have hle := length_dropWhile_le (· != '"') t
      rw [ht, List.length_cons] at hle
      rw [List.length_cons]
      omega
  · cases h

/-- An attribute takes at least one character. -/
theorem attribute?_length_lt {cs r : List Char} {a : String × String}
    (h : attribute? cs = some (a, r)) : r.length < cs.length := by
  simp only [attribute?, Option.bind_eq_bind, Option.bind_eq_some_iff, Prod.exists] at h
  obtain ⟨_, r₁, hname, r₂, hequals, _, r₃, hvalue, h⟩ := h
  cases h
  have := name?_length_le hname
  have := equals?_length_le hequals
  have := value?_length_lt hvalue
  omega

/-- The attributes of a tag, each behind white space, and what follows them.  It stops at what is no
attribute, and whether the tag may end there is asked afterwards. -/
def attributes (cs : List Char) : List (String × String) × List Char :=
  if cs.head?.any isSpace then
    match _h : attribute? (cs.dropWhile isSpace) with
    | none => ([], cs.dropWhile isSpace)
    | some (a, r) => (a :: (attributes r).1, (attributes r).2)
  else ([], cs)
termination_by cs.length
decreasing_by
  all_goals
    have hlt := attribute?_length_lt _h
    have hle := length_dropWhile_le isSpace cs
    omega

theorem attributes_length_le (cs : List Char) : (attributes cs).2.length ≤ cs.length := by
  fun_induction attributes cs with
  | case1 => exact length_dropWhile_le _ _
  | case2 cs _ _ r ha ih =>
    have hlt := attribute?_length_lt ha
    have hle := length_dropWhile_le isSpace cs
    change (attributes r).2.length ≤ _
    omega
  | case3 => exact Nat.le_refl _

/-! ## Tokens -/

/-- A piece of a document. -/
inductive Token where
  | start (name : String) (attributes : List (String × String))
  | empty (name : String) (attributes : List (String × String))
  | stop (name : String)
  | data (text : String)

/-- An end tag, from behind its slash. -/
def endTag? (cs : List Char) : Option (Token × List Char) := do
  let (name, r) ← name? cs
  match r.dropWhile isSpace with
  | '>' :: rest => some (.stop name, rest)
  | _ => none

/-- The end of a start tag or of an empty-element tag. -/
def tagEnd? (name : String) (attributes : List (String × String)) :
    List Char → Option (Token × List Char)
  | '>' :: rest => some (.start name attributes, rest)
  | '/' :: '>' :: rest => some (.empty name attributes, rest)
  | _ => none

/-- A start tag or an empty-element tag, from behind its opening bracket.  No attribute may come
twice. -/
def startTag? (cs : List Char) : Option (Token × List Char) := do
  let (name, r) ← name? cs
  let (attributes, r) := attributes r
  if (attributes.map Prod.fst).Nodup then tagEnd? name attributes r else none

/-- A tag, from behind its opening bracket. -/
def tag? : List Char → Option (Token × List Char)
  | '/' :: cs => endTag? cs
  | cs => startTag? cs

theorem endTag?_length_le {cs r : List Char} {t : Token} (h : endTag? cs = some (t, r)) :
    r.length ≤ cs.length := by
  simp only [endTag?, Option.bind_eq_bind, Option.bind_eq_some_iff, Prod.exists] at h
  obtain ⟨_, r₁, hname, h⟩ := h
  have hle := length_dropWhile_le isSpace r₁
  split at h
  · next heq =>
    cases h
    rw [heq, List.length_cons] at hle
    have := name?_length_le hname
    omega
  · cases h

theorem tagEnd?_length_le {name : String} {as : List (String × String)} {cs r : List Char}
    {t : Token} (h : tagEnd? name as cs = some (t, r)) : r.length ≤ cs.length := by
  unfold tagEnd? at h
  split at h
  · cases h
    exact Nat.le_succ _
  · cases h
    simp only [List.length_cons]
    omega
  · cases h

theorem startTag?_length_le {cs r : List Char} {t : Token} (h : startTag? cs = some (t, r)) :
    r.length ≤ cs.length := by
  simp only [startTag?, Option.bind_eq_bind, Option.bind_eq_some_iff, Prod.exists] at h
  obtain ⟨_, r₁, hname, h⟩ := h
  split at h
  · have := tagEnd?_length_le h
    have := attributes_length_le r₁
    have := name?_length_le hname
    omega
  · cases h

theorem tag?_length_le {cs r : List Char} {t : Token} (h : tag? cs = some (t, r)) :
    r.length ≤ cs.length := by
  unfold tag? at h
  split at h
  · have := endTag?_length_le h
    rw [List.length_cons]
    omega
  · exact startTag?_length_le h

/-- Character data: references are resolved, and `]]>` may not stand in it. -/
def data? (cs : List Char) : Option Token :=
  if [']', ']', '>'] <:+: cs then none else (resolve none cs).map (.data ∘ String.ofList)

/-- The tokens of a text, or nothing if a tag or a reference is none. -/
def tokens? (cs : List Char) : Option (List Token) :=
  match cs with
  | [] => some []
  | c :: cs =>
    if c = '<' then
      match _h : tag? cs with
      | none => none
      | some (token, r) => (tokens? r).map (token :: ·)
    else
      (data? (c :: cs.takeWhile (· != '<'))).bind fun token =>
        (tokens? (cs.dropWhile (· != '<'))).map (token :: ·)
termination_by cs.length
decreasing_by
  · have := tag?_length_le _h
    rw [List.length_cons]
    omega
  · have := length_dropWhile_le (· != '<') cs
    rw [List.length_cons]
    omega

/-! ## Content

Tokens are put together with a stack of the elements that have not ended.  An end tag must name the
innermost of them. -/

/-- What a document holds: character data, and elements with their content. -/
inductive Content where
  | data (text : String)
  | element (name : String) (attributes : List (String × String)) (contents : List Content)

namespace Content

/-- Whether this is an element. -/
def isElement : Content → Bool
  | data _ => false
  | element .. => true

/-- Whether this is nothing but white space. -/
def isBlank : Content → Bool
  | data text => text.toList.all isSpace
  | element .. => false

/-- Whether there is nothing but white space beside elements. -/
def areUnmixed (contents : List Content) : Bool :=
  !contents.any isElement || contents.all fun c => c.isElement || c.isBlank

end Content

/-- An element that has not ended yet: its start tag and what stands before it. -/
structure Frame where
  name : String
  attributes : List (String × String)
  before : List Content

/-- The content that tokens make: `contents` of the innermost of the open elements `frames` has been
read. -/
def assemble (contents : List Content) (frames : List Frame) :
    List Token → Option (List Content)
  | [] => if frames.isEmpty then some contents else none
  | .data text :: tokens => assemble (contents ++ [.data text]) frames tokens
  | .empty name attributes :: tokens =>
    assemble (contents ++ [.element name attributes []]) frames tokens
  | .start name attributes :: tokens =>
    assemble [] ({ name, attributes, before := contents } :: frames) tokens
  | .stop name :: tokens =>
    match frames with
    | [] => none
    | frame :: frames =>
      if frame.name = name ∧ Content.areUnmixed contents then
        assemble (frame.before ++ [.element name frame.attributes contents]) frames tokens
      else none

/-- The one element among what is not blank. -/
def root? (contents : List Content) : Option Content :=
  match contents.filter (!·.isBlank) with
  | [.element name attributes contents] => some (.element name attributes contents)
  | _ => none

/-- **The root element of a document**, if it is UTF-8, made of allowed characters and has one
element with nothing but white space beside it. -/
def read (document : Bytes) : Option Content := do
  let cs ← Utf8.decode? document
  if cs.all isAllowed then root? (← assemble [] [] (← tokens? cs)) else none

end RunRecord.Xml
