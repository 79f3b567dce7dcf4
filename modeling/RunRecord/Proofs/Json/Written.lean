import RunRecord.Proofs.Json.Escape
import RunRecord.Proofs.Json.Record

/-!
# Proofs/Json/Written — what is written is a tree

A value is written as the text of one tree, its own (`Json.tree`), whatever the layout: a string
says what it was written for, a number has the digits of its significand and its exponent.  So what
is known of a tree is known of the documents of a value (`presents_render`).

Trees were introduced to compare documents, and documents come from two places: from the writer and
from elsewhere.  This module is the writer's side.  It adds nothing to what readers make of trees,
but with it a statement on trees is one on the documents that the program writes, in both layouts.
-/

namespace RunRecord.Json

open Reader Utf8

/-! ## Strings

A body is given by its bytes, and the bytes are those between the quotes.  That they are a body
follows from what they say. -/

/-- **A string is written as a body that says it.**  Its bytes are unescaped to the bytes of the
string, character by character. -/
theorem exists_says_escaped (s : String) :
    ∃ body : Body, body.bytes = encode (s.toList.flatMap escapeChar) ∧ body.Says s := by
  obtain ⟨body, hbytes, hsaid⟩ := exists_of_run_text (run_text_closed s [])
  rw [List.append_nil, closed] at hbytes
  exact ⟨body, (List.append_left_injective _ hbytes).symm, hsaid⟩

/-- What a string is written as, between its quotes. -/
def writtenBody (s : String) : Body where
  bytes := encode (s.toList.flatMap escapeChar)
  isBody := by
    obtain ⟨body, hbytes, -⟩ := exists_says_escaped s
    exact hbytes ▸ body.isBody

/-- What is written for a string says the string. -/
theorem says_writtenBody (s : String) : (writtenBody s).Says s := by
  obtain ⟨body, hbytes, hsaid⟩ := exists_says_escaped s
  exact (Body.ext hbytes : body = writtenBody s) ▸ hsaid

/-- The bytes of a quoted string are a quote, its body and a quote. -/
theorem encode_quoted_append (s : String) (r : Bytes) :
    encode (quoted s) ++ r = quoteByte :: ((writtenBody s).bytes ++ quoteByte :: r) := by
  rw [encode_quoted, closed, List.cons_append, List.append_assoc]
  rfl

/-! ## Numbers -/

/-- The digits of a number have no superfluous zero. -/
theorem isWhole_digits (n : Nat) : IsWhole (encode (Digits.digits n)) where
  ne_nil := by
    obtain ⟨c, cs, hcs⟩ := List.exists_cons_of_ne_nil (Digits.digits_ne_nil n)
    have hc : Digits.isDigit c = true := Digits.isDigit_of_mem_digits (hcs ▸ List.mem_cons_self)
    rw [hcs, encode_cons, (isDigit_byte hc).1]
    exact List.cons_ne_nil _ _
  all _ hb := isDigit_of_mem_encode (fun _ => Digits.isDigit_of_mem_digits) hb
  zero h := by
    obtain ⟨c, cs, hcs⟩ := List.exists_cons_of_ne_nil (Digits.digits_ne_nil n)
    have hc : Digits.isDigit c = true := Digits.isDigit_of_mem_digits (hcs ▸ List.mem_cons_self)
    rw [hcs, encode_cons, (isDigit_byte hc).1] at h ⊢
    have hzero : UInt8.ofNat c.toNat = 0x30 := Option.some.inj h
    obtain ⟨rfl, rfl⟩ := Digits.eq_zero_of_digits_eq (eq_zero_of_byte_eq hc hzero ▸ hcs)
    rw [hzero]
    rfl

/-- The sign of a number. -/
def signBytes (n : Int) : Bytes := if n < 0 then [0x2D] else []

/-- The bytes of an integer are its sign and the digits of its size. -/
theorem encode_integerText (n : Int) :
    encode (integerText n) = signBytes n ++ encode (Digits.digits n.natAbs) := by
  unfold integerText signBytes
  split <;> rfl

/-- What a number is written as. -/
def writtenNumeral (significand exponent : Int) : Numeral where
  sign := signBytes significand
  whole := encode (Digits.digits significand.natAbs)
  fraction := []
  exponent := if exponent = 0 then [] else
    0x65 :: (signBytes exponent ++ encode (Digits.digits exponent.natAbs))
  isSign := by unfold signBytes; split <;> simp
  isWhole := isWhole_digits _
  isFraction := .none
  isExponent := by
    split
    · exact .none
    · refine .some (.inl rfl) ?_ (isWhole_digits _).toIsDigits
      unfold signBytes
      split <;> simp

/-- The bytes of what a number is written as are those of its text. -/
theorem writtenNumeral_bytes (significand exponent : Int) :
    (writtenNumeral significand exponent).bytes = encode (numberText significand exponent) := by
  unfold numberText
  split
  · next h =>
    rw [encode_integerText]
    simp [writtenNumeral, Numeral.bytes, h]
  · next h =>
    rw [encode_append, encode_cons, encode_integerText, encode_integerText]
    simp [writtenNumeral, Numeral.bytes, h]
    rfl

/-! ## Values

The layout comes in as white space alone, and white space is not part of a tree.  So the tree of a
value has no argument for the layout, and the proof holds for both layouts at once. -/

mutual

/-- **The tree that a value is written as.**  Keys and strings are spelled as the writer escapes
them, and numbers as it writes them. -/
def tree : Json → Tree
  | .null => .null
  | .boolean b => .boolean b
  | .number significand exponent => .number (writtenNumeral significand exponent)
  | .string s => .string (writtenBody s)
  | .array vs => .array (trees vs)
  | .object ms => .object (memberTrees ms)

/-- The trees of elements. -/
def trees : List Json → List Tree
  | [] => []
  | v :: vs => v.tree :: trees vs

/-- The trees of members. -/
def memberTrees : List (String × Json) → List (Body × Tree)
  | [] => []
  | (key, v) :: ms => (writtenBody key, v.tree) :: memberTrees ms

end

/-- The trees of elements are those of each of them. -/
theorem trees_eq_map (vs : List Json) : trees vs = vs.map tree := by
  induction vs with
  | nil => rfl
  | cons v vs ih => rw [trees, ih, List.map_cons]

/-- The trees of members are those of each of them. -/
theorem memberTrees_eq_map (ms : List (String × Json)) :
    memberTrees ms = ms.map fun m => (writtenBody m.1, m.2.tree) := by
  induction ms with
  | nil => rfl
  | cons m ms ih => rw [memberTrees, ih, List.map_cons]

/-- A byte behind white space is the next token. -/
theorem token_spaces {w : Bytes} (hw : Spaces w) {b : UInt8} (hb : isSpace b = false) (s : Bytes) :
    Token (w ++ b :: s) b s := dropWhile_spaces hw hb s

/-- White space in front of a value is passed over. -/
theorem Spells.behind_spaces {v : Tree} {w s r : Bytes} (hw : Spaces w)
    (h : Spells (.value v) s r) : Spells (.value v) ((w ++ s).dropWhile isSpace) r := by
  rw [List.dropWhile_append_of_pos hw]
  exact h.behind_token

/-- Behind an element nothing carries a number on. -/
theorem delimited_writeElements (layout : Layout) (depth : Nat) (vs : List Json) {w : Bytes}
    (hw : Spaces w) (r : Bytes) :
    Delimited (encode (writeElements layout depth vs) ++ (w ++ 0x5D :: r)) := by
  cases vs with
  | nil => exact delimited_spaces hw isDelimiter_bracket r
  | cons v vs => exact delimited_cons (b := 0x2C) isDelimiter_comma _

/-- Behind a member nothing carries a number on. -/
theorem delimited_writeMembers (layout : Layout) (depth : Nat) (ms : List (String × Json))
    {w : Bytes} (hw : Spaces w) (r : Bytes) :
    Delimited (encode (writeMembers layout depth ms) ++ (w ++ 0x7D :: r)) := by
  cases ms with
  | nil => exact delimited_spaces hw isDelimiter_brace r
  | cons m ms => exact delimited_cons (b := 0x2C) isDelimiter_comma _

mutual

/-- **A value is written as its tree.**  The recursion is that of the writer: values, elements,
members and what follows a member. -/
theorem spells_write (layout : Layout) :
    ∀ (v : Json) (depth : Nat) {r : Bytes}, Delimited r →
      Spells (.value v.tree) (encode (write layout depth v) ++ r) r
  | .null, _, _, _ => .null
  | .boolean true, _, _, _ => .boolean rfl
  | .boolean false, _, _, _ => .boolean rfl
  | .number significand exponent, depth, r, hr => by
    rw [write, ← writtenNumeral_bytes]
    exact .number rfl (Numeral.endsAt_of_delimited _ hr)
  | .string s, _, r, _ => .string (by rw [write, encode_quoted_append])
  | .array [], _, r, _ => .emptyArray (token_cons (by decide) r)
  | .array (v :: vs), depth, r, _ => by
    have hclose := spaces_newline layout depth
    have hrest := spells_writeElements layout vs (depth + 1) hclose r
    have hfirst := spells_write layout v (depth + 1)
      (delimited_writeElements layout (depth + 1) vs hclose r)
    rw [write]
    simp only [encode_cons, encode_append, encode_nil, List.append_assoc]
    change Spells _ (0x5B :: (encode (layout.newline (depth + 1)) ++ _)) r
    exact .array (hfirst.behind_spaces (spaces_newline layout _)) hrest
  | .object [], _, r, _ => .emptyObject (token_cons (by decide) r)
  | .object ((key, v) :: ms), depth, r, _ => by
    have hclose := spaces_newline layout depth
    have hrest := spells_writeMembers layout ms (depth + 1) hclose r
    have hfirst := spells_writeMember layout key v (depth + 1)
      (spaces_newline layout (depth + 1)) (delimited_writeMembers layout (depth + 1) ms hclose r)
    rw [write]
    simp only [encode_cons, encode_append, encode_nil, List.append_assoc]
    exact .object hfirst hrest

/-- The elements behind the first, up to and with the closing bracket. -/
theorem spells_writeElements (layout : Layout) :
    ∀ (vs : List Json) (depth : Nat) {w : Bytes}, Spaces w → ∀ r : Bytes,
      Spells (.elements (trees vs)) (encode (writeElements layout depth vs) ++ (w ++ 0x5D :: r)) r
  | [], _, _, hw, r => .noElement (token_spaces hw (by decide) r)
  | v :: vs, depth, _, hw, r => by
    have hrest := spells_writeElements layout vs depth hw r
    have hfirst := spells_write layout v depth (delimited_writeElements layout depth vs hw r)
    rw [writeElements]
    simp only [encode_cons, encode_append, List.append_assoc]
    exact .element (t := encode (layout.newline depth) ++ _) (token_cons (by decide) _)
      (hfirst.behind_spaces (spaces_newline layout _)) hrest

/-- A member, behind white space. -/
theorem spells_writeMember (layout : Layout) :
    ∀ (key : String) (v : Json) (depth : Nat) {w r : Bytes}, Spaces w → Delimited r →
      Spells (.member (writtenBody key, v.tree))
        (w ++ (encode (writeMember layout depth (key, v)) ++ r)) r
  | key, v, depth, w, r, hw, hr => by
    obtain ⟨w', hcolon, hw'⟩ := encode_colon layout
    have hvalue := (spells_write layout v depth hr).behind_spaces hw'
    rw [writeMember, encode_append, encode_append, hcolon, List.append_assoc, List.append_assoc,
      encode_quoted_append]
    exact .member (token_spaces hw (by decide) _) (token_cons (by decide) _) hvalue

/-- The members behind the first, up to and with the closing brace. -/
theorem spells_writeMembers (layout : Layout) :
    ∀ (ms : List (String × Json)) (depth : Nat) {w : Bytes}, Spaces w → ∀ r : Bytes,
      Spells (.members (memberTrees ms)) (encode (writeMembers layout depth ms) ++ (w ++ 0x7D :: r))
        r
  | [], _, _, hw, r => .noMember (token_spaces hw (by decide) r)
  | (key, v) :: ms, depth, _, hw, r => by
    have hrest := spells_writeMembers layout ms depth hw r
    have hfirst := spells_writeMember layout key v depth (spaces_newline layout depth)
      (delimited_writeMembers layout depth ms hw r)
    rw [writeMembers]
    simp only [encode_cons, encode_append, List.append_assoc]
    exact .another (token_cons (by decide) _) hfirst hrest

end

/-- **A document of a value presents its tree.**  So what readers make of trees is what they make of
documents of the program. -/
theorem presents_render (layout : Layout) (v : Json) :
    Presents (encode (v.render layout)) v.tree := by
  have h := spells_write layout v 0 delimited_nil
  rw [List.append_nil] at h
  exact ⟨[], h.behind_token, rfl⟩

end RunRecord.Json
