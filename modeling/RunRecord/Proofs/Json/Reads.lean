import RunRecord.Json.Shape
import RunRecord.Proofs.Instant.RoundTrip
import RunRecord.Proofs.Json.Text

/-!
# Proofs/Json/Reads — a reader and the values it reads

A reader **reads** a JSON value as `a` if it takes the text of that value off the front of whatever
text it stands in: in either layout, at any depth of nesting, behind any white space, and with
anything behind it that does not carry a number on.  The relation is closed under the ways in which
readers are put together, so a decoder is checked against an encoder one value at a time.

This is the half of reading that concerns what the program itself has written.  A document somebody
else has written may present a value in more ways; what readers make of those is the subject of
`Takes`, which this notion is a case of in spirit but not in form: here the value is known, and the
layout is all that varies.
-/

namespace RunRecord.Json

open Reader Utf8

variable {α : Type}

/-! ## What stands around a value

The text of a value stands behind white space of the layout and in front of a comma, a closing
bracket, a line break or nothing at all.  Only numbers care which. -/

/-- White space between tokens. -/
def Spaces (w : Bytes) : Prop := ∀ b ∈ w, isSpace b = true

/-- No white space is white space. -/
theorem spaces_nil : Spaces [] := fun _ h => nomatch h

/-- A line break with its indent is white space. -/
theorem spaces_newline (layout : Layout) (depth : Nat) :
    Spaces (encode (layout.newline depth)) := by
  have hreplicate : ∀ count, Spaces (encode (List.replicate count ' ')) := fun count => by
    induction count with
    | zero => exact spaces_nil
    | succ count ih =>
      rw [List.replicate_succ, encode_cons]
      rintro b hb
      rcases List.mem_append.1 hb with hb | hb
      · obtain rfl := List.mem_singleton.1 hb
        rfl
      · exact ih b hb
  cases layout with
  | compact => exact spaces_nil
  | indented =>
    rintro b hb
    rcases List.mem_append.1 hb with hb | hb
    · obtain rfl := List.mem_singleton.1 hb
      rfl
    · exact hreplicate _ b hb

/-- White space is passed over up to the byte behind it.  The byte must not be white space itself.
-/
theorem dropWhile_spaces {w : Bytes} (hw : Spaces w) {b : UInt8} (hb : isSpace b = false)
    (s : Bytes) : (w ++ b :: s).dropWhile isSpace = b :: s := by
  rw [List.dropWhile_append_of_pos hw, List.dropWhile_cons_of_neg (by simp [hb])]

/-- A byte that carries no number on. -/
def IsDelimiter (b : UInt8) : Prop :=
  isDigit b = false ∧ b ≠ 0x2E ∧ b ≠ 0x65 ∧ b ≠ 0x45

/-- What may stand behind a value: nothing, or a byte that carries no number on. -/
def Delimited (r : Bytes) : Prop := ∀ b ∈ r.head?, IsDelimiter b

/-- Nothing carries no number on. -/
theorem delimited_nil : Delimited [] := fun _ h => nomatch h

/-- A delimiter in front of anything carries no number on. -/
theorem delimited_cons {b : UInt8} (h : IsDelimiter b) (r : Bytes) : Delimited (b :: r) := by
  rintro _ ⟨⟩
  exact h

/-- White space carries no number on. -/
theorem isDelimiter_of_isSpace {b : UInt8} (h : isSpace b = true) : IsDelimiter b := by
  simp only [isSpace, Bool.or_eq_true, beq_iff_eq] at h
  rcases h with ((rfl | rfl) | rfl) | rfl <;> exact ⟨by decide, by decide, by decide, by decide⟩

/-- White space and a delimiter behind it. -/
theorem delimited_spaces {w : Bytes} (hw : Spaces w) {b : UInt8} (hb : IsDelimiter b) (r : Bytes) :
    Delimited (w ++ b :: r) := by
  cases w with
  | nil => exact delimited_cons hb r
  | cons c w => exact delimited_cons (isDelimiter_of_isSpace (hw c List.mem_cons_self)) _

/-- A comma carries no number on. -/
theorem isDelimiter_comma : IsDelimiter 0x2C := ⟨by decide, by decide, by decide, by decide⟩

/-- A closing bracket carries no number on. -/
theorem isDelimiter_bracket : IsDelimiter 0x5D := ⟨by decide, by decide, by decide, by decide⟩

/-- A closing brace carries no number on. -/
theorem isDelimiter_brace : IsDelimiter 0x7D := ⟨by decide, by decide, by decide, by decide⟩

/-! ## Reading

The equations on looking and taking are used throughout: they let a reader be run on bytes of which
only the first is known. -/

/-- **A reader reads a value as `a`**, wherever the text of the value stands.  The white space
before it is part of what is read, what follows it is left. -/
def Reader.Reads (x : Reader α) (v : Json) (a : α) : Prop :=
  ∀ (layout : Layout) (depth : Nat) (w r : Bytes), Spaces w → Delimited r →
    x.run (w ++ (encode (write layout depth v) ++ r)) = .ok (a, r)

/-- A byte is dropped. -/
theorem Reader.run_drop_bind (b : UInt8) (s : Bytes) (x : Unit → Reader α) :
    (drop >>= x).run (b :: s) = (x ()).run s := rfl

/-- A byte is taken. -/
theorem Reader.run_take (b : UInt8) (s : Bytes) : take.run (b :: s) = .ok (some b, s) := rfl

/-- The next byte is looked at, and left where it is. -/
theorem Reader.run_look (f : Option UInt8 → Reader α) (s : Bytes) :
    (look f).run s = (f s.head?).run s := rfl

/-- White space is passed over before the next byte is looked at. -/
theorem Reader.run_lookAhead {w : Bytes} (hw : Spaces w) {b : UInt8} (hb : isSpace b = false)
    (f : Option UInt8 → Reader α) (s : Bytes) :
    (lookAhead f).run (w ++ b :: s) = (f (some b)).run (b :: s) := by
  have h : (lookAhead f).run (w ++ b :: s) = (look f).run ((w ++ b :: s).dropWhile isSpace) := rfl
  rw [h, dropWhile_spaces hw hb]
  rfl

/-- White space is passed over before a value is read. -/
theorem run_value {w : Bytes} (hw : Spaces w) {b : UInt8} (hb : isSpace b = false)
    (f : UInt8 → Reader α) (s : Bytes) : (value f).run (w ++ b :: s) = (f b).run (b :: s) :=
  run_lookAhead hw hb _ s

/-- What is read can be changed afterwards. -/
theorem Reader.Reads.map {β : Type} {x : Reader α} {v : Json} {a : α} (h : x.Reads v a)
    (f : α → β) : Reader.Reads (do return f (← x)) v (f a) := by
  intro layout depth w r hw hr
  exact run_bind_ok (h layout depth w r hw hr)

/-! ## Strings and instants -/

/-- A string is read from its quotes, escapes replaced. -/
theorem run_textFor {w : Bytes} (hw : Spaces w) (expected : Expected) (s : String) (r : Bytes) :
    (textFor expected).run (w ++ quoteByte :: (closed s ++ r)) = .ok (s, r) := by
  rw [textFor, run_value hw (by decide), if_pos rfl, run_drop_bind]
  exact run_text_closed s r

/-- The bytes of a written string are its quotes and what is between them. -/
theorem encode_write_string (layout : Layout) (depth : Nat) (s : String) (r : Bytes) :
    encode (write layout depth (.string s)) ++ r = quoteByte :: (closed s ++ r) := by
  rw [write, encode_quoted]
  rfl

/-- A string is read from a string, whatever characters are in it. -/
theorem reads_textValue (s : String) : textValue.Reads (.string s) s := by
  intro layout depth w r hw _
  rw [encode_write_string]
  exact run_textFor hw .text s r

/-- **An instant is read from its text.**  The text of an instant needs no escapes, and it is parsed
to the instant it was printed from. -/
theorem reads_instantValue (t : Instant) : instantValue.Reads (.string t.toText) t := by
  intro layout depth w r hw _
  have hread : Instant.read t.toText.toList = .ok t := by
    rw [Instant.toText, String.toList_ofList, Instant.read_text]
  rw [encode_write_string, instantValue, run_bind_ok (run_textFor hw .instant t.toText r), hread]
  rfl

/-- One of several names is read from that name. -/
theorem reads_choiceValue {ofName? : String → Option α} {choices : List String} {name : String}
    {a : α} (h : ofName? name = some a) :
    (choiceValue ofName? choices).Reads (.string name) a := by
  intro layout depth w r hw _
  rw [encode_write_string, choiceValue, run_value hw (by decide), if_pos rfl, choiceName,
    run_drop_bind, run_bind_ok (run_text_closed name r), h]
  rfl

/-! ## Booleans -/

/-- A boolean is read from a boolean. -/
theorem reads_booleanValue (b : Bool) : booleanValue.Reads (.boolean b) b := by
  intro layout depth w r hw _
  cases b with
  | true =>
    have htrue : encode (write layout depth (.boolean true)) ++ r
        = 0x74 :: (restOfTrue ++ r) := rfl
    have hliteral : (literal restOfTrue).run (restOfTrue ++ r) = .ok ((), r) := rfl
    rw [htrue, booleanValue, run_value hw (by decide), if_pos rfl, run_drop_bind,
      run_bind_ok hliteral]
    rfl
  | false =>
    have hfalse : encode (write layout depth (.boolean false)) ++ r
        = 0x66 :: (restOfFalse ++ r) := rfl
    have hliteral : (literal restOfFalse).run (restOfFalse ++ r) = .ok ((), r) := rfl
    rw [hfalse, booleanValue, run_value hw (by decide), if_neg (by decide), if_pos rfl,
      run_drop_bind, run_bind_ok hliteral]
    rfl

end RunRecord.Json
