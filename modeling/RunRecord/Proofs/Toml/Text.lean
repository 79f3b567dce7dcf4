import Mathlib.Data.List.Basic
import RunRecord.Toml.Text
import RunRecord.Toml.Token

/-!
# Proofs/Toml/Text — what a basic string says

Between its quotes a basic string has characters that stand for themselves, and **escapes**: a
backslash with a letter, or with a letter and as many hexadecimal digits as the letter asks for.
Replacing the escapes from left to right gives the text that the string **says**
(`Says.unescape_eq`), and no quote before the last one is taken for the end (`Says.shortPiece_eq`).

Every text can be said by a basic string, so no value of a setting is out of reach, whatever
characters it has.  That a text may be said in several ways is no trouble, as only the text is
looked at in the end.
-/

namespace RunRecord.Toml

/-! ## Hexadecimal numbers -/

/-- The hexadecimal digits with their values, letters being small or capital. -/
def hexDigits : List (Char × Nat) :=
  "0123456789abcdef".toList.zipIdx ++ "0123456789ABCDEF".toList.zipIdx

/-- **A number in hexadecimal digits**, the most significant first.  Letters may be small or
capital, and zeros may stand in front. -/
def IsHex (digits : List Char) (n : Nat) : Prop :=
  ∃ valued ⊆ hexDigits, valued.map Prod.fst = digits ∧
    valued.foldl (fun n digit => n * 16 + digit.2) 0 = n

theorem hexNumber?_eq {valued : List (Char × Nat)} (h : valued ⊆ hexDigits) (n : Nat) :
    hexNumber? (valued.map Prod.fst) n
      = some (valued.foldl (fun n digit => n * 16 + digit.2) n) := by
  have hvalue : ∀ digit ∈ hexDigits, hexValue? digit.1 = some digit.2 := by decide
  induction valued generalizing n with
  | nil => rfl
  | cons digit valued ih =>
    obtain ⟨hdigit, hvalued⟩ := List.cons_subset.1 h
    rw [List.map_cons, hexNumber?, hvalue digit hdigit]
    exact ih hvalued _

theorem IsHex.hexChar?_eq {digits : List Char} {c : Char} (h : IsHex digits c.toNat) :
    hexChar? digits = some c := by
  obtain ⟨valued, hvalued, rfl, hn⟩ := h
  have hvalid : c.toNat.isValidChar := c.valid
  rw [hexChar?, hexNumber?_eq hvalued, hn]
  exact (if_pos hvalid).trans (by rw [Char.ofNat_toNat])

/-! ## Escapes

An escape is a letter, and for some letters as many hexadecimal digits as it asks for.  The tables
are those of the format, and the lemmas go through them by computation. -/

/-- **A character that neither closes a piece nor starts an escape in it.**  What may stand in the
piece is another matter; here only its end is looked for. -/
def Belongs (form : Form) (quote c : Char) : Prop :=
  c ≠ '\n' ∧ c ≠ quote ∧ (form.hasEscapes = true → c ≠ '\\')

/-- Whether a character belongs to a string is found by comparing characters. -/
instance (form : Form) (quote c : Char) : Decidable (Belongs form quote c) :=
  inferInstanceAs (Decidable (_ ∧ _ ∧ _))

/-- The letters that stand for a character, and the characters. -/
def shortEscapes : List (Char × Char) :=
  [('b', '\x08'), ('t', '\t'), ('n', '\n'), ('f', '\x0c'), ('r', '\r'), ('e', '\x1b'), ('"', '"'),
    ('\\', '\\')]

/-- The letters that stand in front of hexadecimal digits, and the number of these. -/
def hexEscapes : List (Char × Nat) := [('x', 2), ('u', 4), ('U', 8)]

/-- **What may stand behind a backslash**, and the character it stands for.  Letters that stand for
a character are followed by nothing, the others by as many digits as they ask for. -/
inductive Escape : List Char → Char → Prop
  | short {letter c : Char} : (letter, c) ∈ shortEscapes → Escape [letter] c
  | hex {letter c : Char} {digits : List Char} : (letter, digits.length) ∈ hexEscapes →
    IsHex digits c.toNat → Escape (letter :: digits) c

/-- The letter of an escape is no white space. -/
theorem Escape.exists_cons {e : List Char} {c : Char} (h : Escape e c) :
    ∃ letter rest, e = letter :: rest ∧ isGap letter = false ∧ letter ≠ '\n' ∧ letter ≠ '\r' := by
  have hshort : ∀ p ∈ shortEscapes, isGap p.1 = false ∧ p.1 ≠ '\n' ∧ p.1 ≠ '\r' := by decide
  have hhex : ∀ p ∈ hexEscapes, isGap p.1 = false ∧ p.1 ≠ '\n' ∧ p.1 ≠ '\r' := by decide
  cases h with
  | short hletter => exact ⟨_, _, rfl, hshort _ hletter⟩
  | hex hletter => exact ⟨_, _, rfl, hhex _ hletter⟩

/-- Of quotes and backslashes, an escape has at most one, as its only character. -/
theorem Escape.isCovered_or_belongs {e : List Char} {c : Char} (h : Escape e c) :
    (∃ letter, e = [letter] ∧ (letter = '\\' ∨ letter = '"')) ∨
      ∀ d ∈ e, Belongs .basic '"' d := by
  have hshort : ∀ p ∈ shortEscapes, (p.1 = '\\' ∨ p.1 = '"') ∨ Belongs .basic '"' p.1 := by decide
  have hhex : ∀ p ∈ hexEscapes, Belongs .basic '"' p.1 := by decide
  have hdigit : ∀ p ∈ hexDigits, Belongs .basic '"' p.1 := by decide
  cases h with
  | short hletter =>
    rcases hshort _ hletter with hcovered | hplain
    · exact .inl ⟨_, rfl, hcovered⟩
    · exact .inr fun d hd => List.mem_singleton.1 hd ▸ hplain
  | hex hletter hdigits =>
    obtain ⟨valued, hvalued, rfl, -⟩ := hdigits
    refine .inr fun d hd => ?_
    rcases List.mem_cons.1 hd with rfl | hd
    · exact hhex _ hletter
    · obtain ⟨digit, hmem, rfl⟩ := List.mem_map.1 hd
      exact hdigit _ (hvalued hmem)

/-- **An escape is replaced**, whatever stands behind it.  How many characters belong to it is
settled by its letter. -/
theorem Escape.escape_eq {e : List Char} {c : Char} (h : Escape e c) (rest : List Char) :
    escape (e ++ rest) = some (c, rest) := by
  have hshort : ∀ p ∈ shortEscapes, shortEscape? p.1 = some p.2 := by decide
  have hhex : ∀ p ∈ hexEscapes, shortEscape? p.1 = none ∧ escapeWidth? p.1 = some p.2 := by decide
  cases h with
  | short hletter =>
    rw [List.singleton_append, escape, hshort _ hletter]
  | hex hletter hdigits =>
    obtain ⟨hnone, hwidth⟩ := hhex _ hletter
    rw [List.cons_append, escape, hnone, hwidth]
    simp only [List.take_left, List.drop_left, if_true, hdigits.hexChar?_eq]
    rfl

/-! ## Basic strings -/

/-- No part of a line break is plain. -/
theorem ne_of_isPlain {c : Char} (h : isPlain c = true) : c ≠ '\n' ∧ c ≠ '\r' := by
  constructor <;>
  · rintro rfl
    cases h

/-- Whether a character stands for itself in a basic string. -/
def isUnescaped (c : Char) : Bool := isPlain c && c ≠ '"' && c ≠ '\\'

theorem isUnescaped_iff {c : Char} :
    isUnescaped c = true ↔ isPlain c = true ∧ c ≠ '"' ∧ c ≠ '\\' := by
  simp [isUnescaped, and_assoc]

/-- **What stands between the quotes of a basic string**, and the text that it says. -/
inductive Says : List Char → List Char → Prop
  | nil : Says [] []
  | plain {c : Char} {body text : List Char} : isUnescaped c = true → Says body text →
    Says (c :: body) (c :: text)
  | escape {e body text : List Char} {c : Char} : Escape e c → Says body text →
    Says ('\\' :: (e ++ body)) (c :: text)

/-- Text without quotes, backslashes and control characters says itself. -/
theorem Says.unescaped {cs : List Char} (h : ∀ c ∈ cs, isUnescaped c = true) : Says cs cs := by
  induction cs with
  | nil => exact .nil
  | cons c cs ih =>
    obtain ⟨hc, hcs⟩ := List.forall_mem_cons.1 h
    exact .plain hc (ih hcs)

/-- A character that does not stand for itself has an escape.  It is a quote or a backslash, or else
a control character, for which two digits are enough. -/
theorem exists_escape {c : Char} (h : ¬ isUnescaped c = true) : ∃ e, Escape e c := by
  rw [isUnescaped_iff] at h
  by_cases hquote : c = '"'
  · exact ⟨[c], .short (by subst hquote; decide)⟩
  by_cases hslash : c = '\\'
  · exact ⟨[c], .short (by subst hslash; decide)⟩
  have hlt : c.toNat < 128 := by
    have hplain : ¬ isPlain c = true := fun hplain => h ⟨hplain, hquote, hslash⟩
    simp only [isPlain, Bool.or_eq_true, Bool.and_eq_true, decide_eq_true_eq, not_or, not_and,
      ne_eq, not_not] at hplain
    omega
  have hdigit : ∀ i < 16, i ∈ hexDigits.map Prod.snd := by decide
  obtain ⟨high, hhigh, hhighValue⟩ := List.mem_map.1 (hdigit (c.toNat / 16) (by omega))
  obtain ⟨low, hlow, hlowValue⟩ := List.mem_map.1 (hdigit (c.toNat % 16) (by omega))
  refine ⟨'x' :: [high.1, low.1], .hex ?_ ⟨[high, low], by simp [hhigh, hlow], rfl, ?_⟩⟩
  · exact (by decide : ('x', 2) ∈ hexEscapes)
  · simp only [List.foldl_cons, List.foldl_nil, hhighValue, hlowValue]
    omega

/-- **Every text is said by a basic string.**  Each character that cannot stand for itself is
escaped. -/
theorem exists_basicString (text : List Char) : ∃ body, Says body text := by
  induction text with
  | nil => exact ⟨[], .nil⟩
  | cons c text ih =>
    obtain ⟨body, hbody⟩ := ih
    by_cases hc : isUnescaped c = true
    · exact ⟨_, .plain hc hbody⟩
    · obtain ⟨e, he⟩ := exists_escape hc
      exact ⟨_, .escape he hbody⟩

/-- **A basic string is read as what it says.**  By induction on what it says, character by
character. -/
theorem Says.unescape_eq {body text : List Char} (h : Says body text) :
    unescape body = some text := by
  induction h with
  | nil => rw [unescape]
  | @plain c body text hc _ ih =>
    obtain ⟨hc, -, hslash⟩ := isUnescaped_iff.1 hc
    have hreturn := (ne_of_isPlain hc).2
    rw [unescape, if_pos (.inl hc), ih]
    · rfl
    · exact hslash
    · exact fun _ heq _ => hreturn heq
  | @escape e body text c he _ ih =>
    obtain ⟨letter, rest, hletter, hgap, hfeed, hreturn⟩ := he.exists_cons
    have hbreak : lineBreak? ((e ++ body).dropWhile isGap) = none := by
      rw [hletter, List.cons_append, List.dropWhile_cons_of_neg (by simp [hgap]), lineBreak?]
      · exact fun _ heq => hfeed (List.cons.inj heq).1
      · exact fun _ heq => hreturn (List.cons.inj heq).1
    rw [unescape, hbreak, if_neg (by simp)]
    split
    · next hescape =>
      rw [he.escape_eq] at hescape
      cases hescape
    · next hescape =>
      rw [he.escape_eq] at hescape
      cases hescape
      rw [ih]
      rfl

/-! ## Finding the end

Where a string ends is found before its escapes are replaced, so it must not be looked for inside of
an escape.  This is why the scan passes over what follows a backslash. -/

section Piece

variable {form : Form} {quote : Char} {cs : List Char}

/-- Ordinary characters belong to the piece. -/
theorem shortPiece_cons {c : Char} (h : Belongs form quote c) (soFar cs : List Char) :
    shortPiece form quote soFar (c :: cs) = shortPiece form quote (c :: soFar) cs := by
  obtain ⟨hfeed, hquote, hslash⟩ := h
  by_cases hc : c = '\\'
  · subst hc
    have hform : form.hasEscapes = false := by simpa using hslash
    cases cs with
    | nil => simp [shortPiece, hquote]
    | cons d cs => rw [shortPiece, hform, Bool.false_and, if_neg Bool.false_ne_true]
  · rw [shortPiece, if_neg hquote]
    · exact hfeed
    · exact fun _ _ heq _ => hc heq

theorem shortPiece_append (h : ∀ c ∈ cs, Belongs form quote c) (soFar rest : List Char) :
    shortPiece form quote soFar (cs ++ rest)
      = shortPiece form quote (cs.reverse ++ soFar) rest := by
  induction cs generalizing soFar with
  | nil => rfl
  | cons c cs ih =>
    obtain ⟨hc, hcs⟩ := List.forall_mem_cons.1 h
    rw [List.cons_append, shortPiece_cons hc, ih hcs, List.reverse_cons, List.append_assoc,
      List.singleton_append]

/-- A piece ends at its quote. -/
theorem shortPiece_quote (hfeed : quote ≠ '\n') (hslash : quote ≠ '\\') (soFar rest : List Char) :
    shortPiece form quote soFar (quote :: rest)
      = ({ form, text := soFar.reverse, isClosed := true }, rest) := by
  rw [shortPiece, if_pos rfl]
  · exact hfeed
  · exact fun _ _ heq _ => hslash heq

end Piece

/-- **An escape is passed over as a whole**: what it covers is no end of the string. -/
theorem Escape.shortPiece_eq {e : List Char} {c : Char} (h : Escape e c) (soFar rest : List Char) :
    shortPiece .basic '"' soFar ('\\' :: (e ++ rest))
      = shortPiece .basic '"' (e.reverse ++ '\\' :: soFar) rest := by
  obtain ⟨letter, rfl, hletter⟩ | hbelongs := h.isCovered_or_belongs
  · rcases hletter with rfl | rfl <;> rfl
  · obtain ⟨letter, digits, rfl, -⟩ := h.exists_cons
    obtain ⟨-, hquote, hslash⟩ := hbelongs letter List.mem_cons_self
    have huncovered : ¬ (Form.basic.hasEscapes && (letter = '\\' || letter = '"')) = true := by
      simp [hslash rfl, hquote]
    rw [List.cons_append, shortPiece, if_neg huncovered, ← List.cons_append,
      shortPiece_append hbelongs]

/-- **A basic string ends at its last quote.**  No quote in it is bare, and none that is escaped
ends it. -/
theorem Says.shortPiece_eq {body text : List Char} (h : Says body text) (soFar rest : List Char) :
    shortPiece .basic '"' soFar (body ++ '"' :: rest)
      = ({ form := .basic, text := soFar.reverse ++ body, isClosed := true }, rest) := by
  induction h generalizing soFar with
  | nil => rw [List.nil_append, shortPiece_quote (by decide) (by decide), List.append_nil]
  | @plain c body text hc _ ih =>
    obtain ⟨hc, hquote, hslash⟩ := isUnescaped_iff.1 hc
    have hbelongs : Belongs .basic '"' c := ⟨(ne_of_isPlain hc).1, hquote, fun _ => hslash⟩
    rw [List.cons_append, shortPiece_cons hbelongs, ih, List.reverse_cons,
      List.append_assoc, List.singleton_append]
  | @escape e body text c he _ ih =>
    rw [List.cons_append, List.append_assoc, he.shortPiece_eq, ih]
    simp

end RunRecord.Toml
