import RunRecord.Json.Skip

/-!
# Json/Shape — reading lists and records

A **shape** describes a record: its members in order, which of them are required, and a blank value
in which every member has its default.  A record is read from an object, in whatever order its
members come, or from an array that holds them in order.  Each member that is read replaces its part
of the value; members with unknown names are passed over.

The order of the members matters only for arrays, and for which of several missing members is named.
That a name comes up twice is an error even if both values are the same.
-/

namespace RunRecord.Json

open Reader

variable {α : Type}

/-! ## Lists -/

/-- One element of a list and all that follow, up to and with the closing bracket. -/
def elementsRun (item : Reader α) (s : Bytes) : Except Fault (List α × Bytes) :=
  match _h : item.run s with
  | .error e => .error e
  | .ok (a, r) =>
    match _h' : r.dropWhile isSpace with
    | [] => .error { cause := .cut .array, unread := 0 }
    | b :: t =>
      if b = 0x5D then .ok ([a], t)
      else if b = 0x2C then
        match _h'' : t.dropWhile isSpace with
        | [] => .error { cause := .cut .value, unread := 0 }
        | c :: u =>
          if c = 0x5D then .error { cause := .malformed .trailingComma, unread := u.length }
          else (elementsRun item (c :: u)).map fun p => (a :: p.1, p.2)
      else .error { cause := .malformed .noCommaOrBracket, unread := t.length }
termination_by s.length
decreasing_by
  have hr := item.length_le _h
  have ht := (List.dropWhile_suffix (l := r) isSpace).length_le
  have hu := (List.dropWhile_suffix (l := t) isSpace).length_le
  simp only [_h', _h'', List.length_cons] at ht hu ⊢
  omega

theorem elementsRun_suffix {item : Reader α} {s r : Bytes} {as : List α}
    (h : elementsRun item s = .ok (as, r)) : r <:+ s := by
  fun_induction elementsRun item s generalizing as r with
  | case3 _ _ _ hs _ ht => cases h; exact (suffix_of_dropWhile_eq ht).trans (item.suffix hs)
  | case6 _ _ _ hs _ _ _ hu _ ht _ ih =>
    obtain ⟨_, hx, hp⟩ := exists_of_map_eq_ok h
    cases hp
    exact (ih hx).trans ((hu ▸ List.dropWhile_suffix _).trans
      ((suffix_of_dropWhile_eq ht).trans (item.suffix hs)))
  | _ => cases h

/-- The elements of a list from the first on, up to and with the closing bracket. -/
def elements (item : Reader α) : Reader (List α) where
  run := elementsRun item
  suffix := elementsRun_suffix

/-- A list.  It may be empty, and nothing but white space is allowed between a comma and an element.
-/
def listValue (item : Reader α) : Reader (List α) :=
  value fun b =>
    if b = 0x5B then do
      drop
      lookAhead fun
        | none => failAtNext (.cut .array)
        | some c =>
          if c = 0x5D then do
            drop
            pure []
          else elements item
    else reject .array b

/-! ## Shapes

A reader of a member gives a change of the record.  In this way members of different types are one
list, and the record is built by applying one change after another. -/

/-- A member of a record: how to read it is told by what it does to the record.  What has been read
is given as a change of the record, so that the order of changes is that of the document. -/
structure Member (α : Type) where
  name : String
  required : Bool
  read : Reader (α → α)

/-- A member that has to be given. -/
def required {β : Type} (name : String) (x : Reader β) (store : β → α → α) : Member α :=
  { name, required := true, read := do return store (← x) }

/-- A member that may be left out. -/
def defaulted {β : Type} (name : String) (x : Reader β) (store : β → α → α) : Member α :=
  { name, required := false, read := do return store (← x) }

/-- The description of a record.  It is all that differs between the readers of the records of a
report. -/
structure Shape (α : Type) where
  title : String
  /-- The record with every member at its default. -/
  blank : α
  members : List (Member α)

namespace Shape

/-- The member with a given name. -/
def member? (shape : Shape α) (name : String) : Option (Member α) :=
  shape.members.find? (·.name == name)

/-- The first required member that has not been seen.  The order is that of the declaration, not
that of the document. -/
def missing? (shape : Shape α) (seen : List String) : Option String :=
  (shape.members.find? fun m => m.required && !seen.contains m.name).map (·.name)

/-! ### From an object

The loop carries the record so far and the names that have been seen.  An unknown name is none of
them, so it may come up as often as it likes. -/

/-- What an entry of an object comes to. -/
inductive Entry (α : Type) where
  /-- Its name has been seen before. -/
  | repeated (name : String)
  /-- The record so far, and the names seen so far. -/
  | stored (a : α) (seen : List String)

/-- An entry of an object, from behind the opening quote of its key.  A repeated name is noticed
before the colon. -/
def entry (shape : Shape α) (a : α) (seen : List String) : Reader (Entry α) := do
  let key ← text
  match shape.member? key with
  | none =>
    colon
    skipValue
    pure (.stored a seen)
  | some m =>
    if seen.contains m.name then pure (.repeated m.name)
    else do
      colon
      let f ← m.read
      pure (.stored (f a) (m.name :: seen))

/-- An entry and all that follow, from behind the opening quote of its key up to the closing brace,
which is not taken; or up to a repeated name. -/
def entriesRun (shape : Shape α) (a : α) (seen : List String) (s : Bytes) :
    Except Fault (Except Cause (α × List String) × Bytes) :=
  match _h : (shape.entry a seen).run s with
  | .error e => .error e
  | .ok (.repeated name, r) => .ok (.error (.repeatedMember name), r)
  | .ok (.stored a seen, r) =>
    match _h' : r.dropWhile isSpace with
    | [] => .error { cause := .cut .object, unread := 0 }
    | b :: t =>
      if b = 0x7D then .ok (.ok (a, seen), b :: t)
      else if b = 0x2C then
        match _h'' : t.dropWhile isSpace with
        | [] => .error { cause := .cut .value, unread := 0 }
        | c :: u =>
          if c = quoteByte then entriesRun shape a seen u
          else if c = 0x7D then .error { cause := .malformed .trailingComma, unread := u.length }
          else .error { cause := .malformed .keyNotText, unread := u.length }
      else .error { cause := .malformed .noCommaOrBrace, unread := t.length }
termination_by s.length
decreasing_by
  have hr := (shape.entry _ _).length_le _h
  have ht := (List.dropWhile_suffix (l := r) isSpace).length_le
  have hu := (List.dropWhile_suffix (l := t) isSpace).length_le
  simp only [_h', _h'', List.length_cons] at ht hu
  omega

theorem entriesRun_suffix {shape : Shape α} {a : α} {seen : List String} {s r : Bytes}
    {x : Except Cause (α × List String)} (h : shape.entriesRun a seen s = .ok (x, r)) :
    r <:+ s := by
  fun_induction entriesRun shape a seen s with
  | case2 _ _ _ _ _ hs => cases h; exact (shape.entry _ _).suffix hs
  | case4 _ _ _ _ _ _ hs _ ht =>
    cases h
    exact (ht ▸ List.dropWhile_suffix _).trans ((shape.entry _ _).suffix hs)
  | case6 _ _ _ _ _ _ hs _ _ ht _ hu ih =>
    exact (ih h).trans ((suffix_of_dropWhile_eq hu).trans
      ((suffix_of_dropWhile_eq ht).trans ((shape.entry _ _).suffix hs)))
  | _ => cases h

/-- The entries of an object from the first on, up to the closing brace. -/
def entries (shape : Shape α) : Reader (Except Cause (α × List String)) where
  run := shape.entriesRun shape.blank []
  suffix := entriesRun_suffix

/-- Takes the closing brace of an object, if it is next. -/
def closingBrace : Reader Unit :=
  lookAhead fun b => if b = some 0x7D then drop else pure ()

/-- The record as it is, unless a required member is missing. -/
def complete (shape : Shape α) (a : α) (seen : List String) : Reader α :=
  match shape.missing? seen with
  | some name => fail (.missingMember name)
  | none => pure a

/-- A record given as an object, from behind the opening brace.  A repeated name and a missing
member are reported behind the closing brace, if that is next. -/
def fromObject (shape : Shape α) : Reader α :=
  lookAhead fun
    | none => failAtNext (.cut .object)
    | some b =>
      if b = 0x7D then do
        drop
        shape.complete shape.blank []
      else if b = quoteByte then do
        drop
        let outcome ← shape.entries
        closingBrace
        match outcome with
        | .error cause => fail cause
        | .ok (a, seen) => shape.complete a seen
      else failAtNext (.malformed .keyNotText)

/-! ### From an array

There are no names in an array, so members are told by their place.  It may be too short, if what it
leaves out may be left out, but not too long. -/

/-- Whether another element follows; `first` if none has been read. -/
def anotherElement (first : Bool) : Reader Bool :=
  lookAhead fun
    | none => failAtNext (.cut .array)
    | some b =>
      if b = 0x5D then pure false
      else if first then pure true
      else if b = 0x2C then do
        drop
        lookAhead fun
          | none => failAtNext (.cut .value)
          | some c => if c = 0x5D then failAtNext (.malformed .trailingComma) else pure true
      else failAtNext (.malformed .noCommaOrBracket)

/-- The members from the given ones on, read in order as far as the array goes; `count` have been
read. -/
def inOrder (shape : Shape α) : List (Member α) → (count : Nat) → α → Reader (Except Cause α)
  | [], _, a => pure (.ok a)
  | m :: ms, count, a => do
    if ← anotherElement (count == 0) then do
      let f ← m.read
      shape.inOrder ms (count + 1) (f a)
    else
      match (m :: ms).findIdx? (·.required) with
      | some i => pure (.error (.tooShort (count + i) shape.title shape.members.length))
      | none => pure (.ok a)

/-- The closing bracket of a record given as an array, all of whose members have been read. -/
def closingBracket : Reader Unit :=
  lookAhead fun
    | none => failAtNext (.cut .array)
    | some b =>
      if b = 0x5D then drop
      else if b = 0x2C then do
        drop
        lookAhead fun c =>
          failAtNext (.malformed (if c = some 0x5D then .trailingComma else .trailingCharacters))
      else failAtNext (.malformed .trailingCharacters)

/-- A record given as an array, from behind the opening bracket.  An array that is too short is
reported behind its closing bracket. -/
def fromArray (shape : Shape α) : Reader α := do
  let outcome ← shape.inOrder shape.members 0 shape.blank
  closingBracket
  match outcome with
  | .error cause => fail cause
  | .ok a => pure a

/-! ### From either -/

/-- A record.  What is neither an object nor an array is refused as no such record. -/
def reader (shape : Shape α) : Reader α :=
  value fun b =>
    if b = 0x7B then do
      drop
      shape.fromObject
    else if b = 0x5B then do
      drop
      shape.fromArray
    else reject (.record shape.title) b

end Shape

/-! ## Whole documents -/

/-- A value followed by nothing but white space. -/
def whole (x : Reader α) : Reader α := do
  let a ← x
  lookAhead fun
    | none => pure a
    | some _ => failAtNext (.malformed .trailingCharacters)

/-- The value that a document holds.  The failure is given with its line and column. -/
def decode (x : Reader α) (document : Bytes) : Except Error α :=
  match (whole x).run document with
  | .ok (a, _) => .ok a
  | .error fault => .error (fault.toError document)

end RunRecord.Json
