import RunRecord.Json.Printer
import RunRecord.Proofs.Json.Lexeme
import RunRecord.Proofs.Text.Digits

/-!
# Proofs/Json/Spelling — strings and numbers are written as JSON has them

What is written of a string stays between its quotes and is unescaped to the string
(`scalar?_string`); what is written of a number has no superfluous zero and is read as that number
(`scalar?_number`).  Either is cut off the front of a text as one lexeme (`lexemes?_quoted`,
`lexemes?_word`).

The bodies of strings and the texts of numbers are taken apart here to the character, so that the
reader's functions are not opened again anywhere else.  For strings the argument goes one character
at a time: each is written in one of three ways, and any of them is cut and unescaped alone,
whatever comes after it.
-/

namespace RunRecord.Json

open Digits

/-! ## Characters of strings

The three ways are the constructors of `Written`.  A quote and a backslash are written with a
backslash before them, which is why a quote never ends a string too early. -/

/-- A character that is neither a quote nor a backslash is taken over. -/
theorem stringBody?_plain {c : Char} (hquote : c ≠ '"') (hslash : c ≠ '\\') (r : List Char) :
    stringBody? (c :: r) = (stringBody? r).map fun p => (c :: p.1, p.2) := by
  rw [stringBody?]
  · exact hquote
  · exact fun _ _ h _ => hslash h

/-- A character that needs no escape stands for itself. -/
theorem unescaped?_plain {c : Char} (hquote : c ≠ '"') (hslash : c ≠ '\\')
    (hcontrol : ¬ c.toNat < 0x20) (r : List Char) :
    unescaped? (c :: r) = (unescaped? r).map (c :: ·) := by
  rw [unescaped?, if_neg (by simp [hquote, hslash, hcontrol])]
  · exact fun _ _ _ _ _ h _ => hslash h
  · exact fun _ _ h _ => hslash h

/-- A hexadecimal digit that was written is read. -/
theorem hexDigit?_hexDigit (n : Nat) : hexDigit? (hexDigit n) = some (n % 16) := by
  have h : n % 16 < 16 := Nat.mod_lt _ (by decide)
  unfold hexDigit
  generalize n % 16 = k at h
  revert k
  decide

/-- No hexadecimal digit is a quote or a backslash. -/
theorem hexDigit_ne (n : Nat) : hexDigit n ≠ '"' ∧ hexDigit n ≠ '\\' := by
  have h : n % 16 < 16 := Nat.mod_lt _ (by decide)
  unfold hexDigit
  generalize n % 16 = k at h
  revert k
  decide

/-- The digits of a control character are read as its code point. -/
theorem hexCode?_control {n : Nat} (h : n < 0x20) :
    hexCode? '0' '0' (hexDigit (n / 16)) (hexDigit n) = some n := by
  have hzero : hexDigit? '0' = some 0 := by decide
  simp only [hexCode?, hzero, hexDigit?_hexDigit, Option.bind_eq_bind, Option.bind_some]
  exact congrArg some (by omega)

/-- A character as it may stand in the body of a string: by a letter behind a backslash, by its code
point or as itself. -/
inductive Written (c : Char) : List Char → Prop where
  | letter {d : Char} (h : letterEscape? d = some c) : Written c ['\\', d]
  | code (h : c.toNat < 0x20) :
    Written c ['\\', 'u', '0', '0', hexDigit (c.toNat / 16), hexDigit c.toNat]
  | plain (hquote : c ≠ '"') (hslash : c ≠ '\\') (hcontrol : ¬ c.toNat < 0x20) : Written c [c]

/-- Every character is written in one of these ways. -/
theorem written_escapeChar (c : Char) : Written c (escapeChar c) := by
  unfold escapeChar
  split
  · next h => subst h; exact .letter rfl
  split
  · next h => subst h; exact .letter rfl
  split
  · next h => subst h; exact .letter rfl
  split
  · next h => subst h; exact .letter rfl
  split
  · next h => subst h; exact .letter rfl
  split
  · next h => subst h; exact .letter rfl
  split
  · next h => subst h; exact .letter rfl
  split
  · next h => exact .code h
  · next hquote hslash _ _ _ _ _ hcontrol => exact .plain hquote hslash hcontrol

namespace Written

variable {c : Char} {cs : List Char}

/-- No part of a character ends the string. -/
theorem stringBody?_append (h : Written c cs) (r : List Char) :
    stringBody? (cs ++ r) = (stringBody? r).map fun p => (cs ++ p.1, p.2) := by
  cases h with
  | letter =>
    rw [List.cons_append, List.cons_append, List.nil_append, stringBody?]
    rfl
  | code =>
    simp only [List.cons_append, List.nil_append]
    rw [stringBody?, stringBody?_plain (by decide) (by decide),
      stringBody?_plain (by decide) (by decide),
      stringBody?_plain (hexDigit_ne _).1 (hexDigit_ne _).2,
      stringBody?_plain (hexDigit_ne _).1 (hexDigit_ne _).2]
    cases stringBody? r <;> rfl
  | plain hquote hslash => exact stringBody?_plain hquote hslash r

/-- A character is read for what it is. -/
theorem unescaped?_append (h : Written c cs) (r : List Char) :
    unescaped? (cs ++ r) = (unescaped? r).map (c :: ·) := by
  cases h with
  | @letter d h =>
    have hd : d ≠ 'u' := by
      rintro rfl
      cases h
    rw [List.cons_append, List.cons_append, List.nil_append, unescaped?, h, Option.bind_some]
    exact fun _ _ _ _ _ h _ => hd h
  | code h =>
    have hfirst : isFirstHalf c.toNat = false := by
      simp only [isFirstHalf, Bool.and_eq_false_iff, decide_eq_false_iff_not]
      omega
    have hsecond : isSecondHalf c.toNat = false := by
      simp only [isSecondHalf, Bool.and_eq_false_iff, decide_eq_false_iff_not]
      omega
    simp only [List.cons_append, List.nil_append]
    rw [unescaped?, hexCode?_control h, Option.bind_some, hfirst, hsecond]
    simp only [Bool.false_eq_true, if_false, Char.ofNat_toNat]
  | plain hquote hslash hcontrol => exact unescaped?_plain hquote hslash hcontrol r

end Written

/-! ## Strings -/

/-- What stands between the quotes of a string. -/
def escaped (s : String) : List Char := s.toList.flatMap escapeChar

/-- The body of a string ends at its closing quote. -/
theorem stringBody?_escaped (cs r : List Char) :
    stringBody? (cs.flatMap escapeChar ++ '"' :: r) = some (cs.flatMap escapeChar, r) := by
  induction cs with
  | nil => rw [List.flatMap_nil, List.nil_append, stringBody?]
  | cons c cs ih =>
    rw [List.flatMap_cons, List.append_assoc, (written_escapeChar c).stringBody?_append, ih,
      Option.map_some]

/-- The characters of a string are unescaped to it. -/
theorem unescaped?_escaped (cs : List Char) : unescaped? (cs.flatMap escapeChar) = some cs := by
  induction cs with
  | nil => rw [List.flatMap_nil, unescaped?]
  | cons c cs ih =>
    rw [List.flatMap_cons, (written_escapeChar c).unescaped?_append, ih, Option.map_some]

/-- **A string is read for what it is.**  It is cut at its closing quote, and what is between the
quotes is unescaped to it. -/
theorem scalar?_string (s : String) : scalar? (.string (escaped s)) = some (.string s) := by
  rw [scalar?, escaped, unescaped?_escaped, Option.map_some, String.ofList_toList]

/-! ## Numbers

A number is written by its significand and its exponent, and no point is ever written.  So there is
only one place where its digits end. -/

/-- Digits end where something else begins. -/
def EndsDigits (r : List Char) : Prop := ∀ c ∈ r.head?, Digits.isDigit c = false

/-- The digits of a number are all taken. -/
theorem takeWhile_isDigit (n : Nat) {r : List Char} (hr : EndsDigits r) :
    (digits n ++ r).takeWhile Digits.isDigit = digits n := by
  rw [List.takeWhile_append_of_pos fun _ => isDigit_of_mem_digits]
  cases r with
  | nil => simp
  | cons c r => simp [hr c rfl]

/-- What stands behind them is left. -/
theorem dropWhile_isDigit (n : Nat) {r : List Char} (hr : EndsDigits r) :
    (digits n ++ r).dropWhile Digits.isDigit = r := by
  rw [List.dropWhile_append_of_pos fun _ => isDigit_of_mem_digits]
  cases r with
  | nil => rfl
  | cons c r => simp [hr c rfl]

/-- The digits of a number are read as the number. -/
theorem natural?_digits (n : Nat) : natural? (digits n) = some n := by
  rw [natural?, if_pos ⟨digits_ne_nil n, List.all_eq_true.2 fun _ => isDigit_of_mem_digits⟩,
    value_digits]

/-- A number starts with a digit. -/
theorem exists_digits_eq_cons (n : Nat) :
    ∃ c cs, digits n = c :: cs ∧ Digits.isDigit c = true := by
  obtain ⟨c, cs, h⟩ := List.exists_cons_of_ne_nil (digits_ne_nil n)
  exact ⟨c, cs, h, isDigit_of_mem_digits (h ▸ List.mem_cons_self)⟩

/-- An exponent is read for what it is. -/
theorem exponent?_integerText (n : Int) : exponent? ('e' :: integerText n) = some n := by
  rw [integerText]
  split
  · next h =>
    rw [exponent?, if_pos (.inl rfl), natural?_digits, Option.map_some]
    exact congrArg some (by omega)
  · next h =>
    obtain ⟨c, cs, hcs, hc⟩ := exists_digits_eq_cons n.natAbs
    have hn := natural?_digits n.natAbs
    rw [hcs] at hn ⊢
    rw [exponent?, if_pos (.inl rfl), hn, Option.map_some]
    · exact congrArg some (Int.natAbs_of_nonneg (Int.not_lt.1 h))
    · rintro _ ⟨⟩
      cases hc
    · rintro _ ⟨⟩
      cases hc

/-- Digits without superfluous zeros are read as the significand they are.  What follows them is
left to the exponent. -/
theorem magnitude?_digits (n : Nat) {r : List Char} (hr : EndsDigits r)
    (hpoint : r.head? ≠ some '.') :
    magnitude? (digits n ++ r) = (exponent? r).map fun e => (n, e) := by
  have hzero : ¬ (digits n = [] ∨ (digits n).head? = some '0' ∧ digits n ≠ ['0']) := by
    rintro (h | ⟨hhead, hne⟩)
    · exact digits_ne_nil n h
    · obtain ⟨cs, hcs⟩ := List.head?_eq_some_iff.1 hhead
      exact hne ((eq_zero_of_digits_eq hcs).2 ▸ hcs)
  have hfraction : fraction? r = some ([], r) := by
    unfold fraction?
    split
    · exact absurd rfl hpoint
    · rfl
  rw [magnitude?, takeWhile_isDigit n hr, dropWhile_isDigit n hr]
  simp only [if_neg hzero, hfraction, Option.bind_eq_bind, Option.bind_some]
  cases exponent? r with
  | none => rfl
  | some e => simp

/-- An exponent as it is written, if it is not zero. -/
def exponentText (n : Int) : List Char := if n = 0 then [] else 'e' :: integerText n

/-- The text of a number is its significand and then its exponent, if that is not zero. -/
theorem numberText_eq (significand exponent : Int) :
    numberText significand exponent = integerText significand ++ exponentText exponent := by
  unfold numberText exponentText
  split
  · rw [List.append_nil]
  · rfl

/-- An exponent that is not written is zero. -/
theorem exponent?_exponentText (n : Int) : exponent? (exponentText n) = some n := by
  unfold exponentText
  split
  · next h => rw [h, exponent?]
  · exact exponent?_integerText n

/-- A significand and its exponent are read for what they are. -/
theorem magnitude?_exponentText (n : Nat) (e : Int) :
    magnitude? (digits n ++ exponentText e) = some (n, e) := by
  have hhead : ∀ c ∈ (exponentText e).head?, c = 'e' := by
    unfold exponentText
    split
    · rintro c ⟨⟩
    · rintro c ⟨⟩
      rfl
  rw [magnitude?_digits n (fun c hc => hhead c hc ▸ rfl)
    (fun h => absurd (hhead '.' h) (by decide)), exponent?_exponentText, Option.map_some]

/-- **A number is read for what it is**, with its sign.  The value is that of the significand and
the exponent exactly, and not a rounded one. -/
theorem number?_numberText (significand exponent : Int) :
    number? (numberText significand exponent) = some (.number significand exponent) := by
  have hmagnitude := magnitude?_exponentText significand.natAbs exponent
  rw [numberText_eq, integerText]
  split
  · next h =>
    rw [List.cons_append, number?, hmagnitude, Option.map_some]
    exact congrArg some (congrArg (Json.number · exponent) (by simp only; omega))
  · next h =>
    obtain ⟨c, cs, hcs, hc⟩ := exists_digits_eq_cons significand.natAbs
    rw [hcs, List.cons_append] at hmagnitude ⊢
    rw [number?]
    · rw [hmagnitude, Option.map_some]
      exact congrArg some (congrArg (Json.number · exponent) (by simp only; omega))
    · rintro _ ⟨⟩
      cases hc

/-- A number starts with its sign or with a digit. -/
theorem exists_numberText_eq_cons (significand exponent : Int) :
    ∃ c cs, numberText significand exponent = c :: cs ∧ (c = '-' ∨ Digits.isDigit c = true) := by
  rw [numberText_eq, integerText]
  split
  · exact ⟨'-', _, rfl, .inl rfl⟩
  · obtain ⟨c, cs, hcs, hc⟩ := exists_digits_eq_cons significand.natAbs
    exact ⟨c, cs ++ exponentText exponent, by rw [hcs, List.cons_append], .inr hc⟩

/-- What is written for a number is a word, and not a literal. -/
theorem scalar?_number (significand exponent : Int) :
    scalar? (.word (numberText significand exponent)) = some (.number significand exponent) := by
  have hword : ∀ {c : Char} {cs : List Char}, c ≠ '-' → Digits.isDigit c = false →
      numberText significand exponent ≠ c :: cs := by
    intro c cs hsign hdigit h
    obtain ⟨d, ds, hds, hd⟩ := exists_numberText_eq_cons significand exponent
    cases h.symm.trans hds
    rcases hd with hd | hd
    · exact hsign hd
    · rw [hdigit] at hd
      cases hd
  rw [scalar?, word?, if_neg (hword (by decide) rfl), if_neg (hword (by decide) rfl),
    if_neg (hword (by decide) rfl), number?_numberText]

/-! ## Cutting a text

A lexeme is cut off without a look at what stands behind it, except that a word goes on until
something that is no word begins. -/

/-- A word ends where something else begins. -/
def EndsWord (r : List Char) : Prop := ∀ c ∈ r.head?, isWordChar c = false

/-- What is no part of a word ends one. -/
theorem endsWord_cons {c : Char} (h : isWordChar c = false) (r : List Char) : EndsWord (c :: r) :=
  fun _ hd => Option.some.inj hd ▸ h

/-- No text has no lexemes. -/
theorem lexemes?_nil : lexemes? [] = some [] := by rw [lexemes?]

/-- White space is no lexeme. -/
theorem lexemes?_gap {c : Char} (h : isGap c = true) (r : List Char) :
    lexemes? (c :: r) = lexemes? r := by
  rw [lexemes?, if_pos h]

/-- Nor is any amount of it. -/
theorem lexemes?_gaps {w : List Char} (h : ∀ c ∈ w, isGap c = true) (r : List Char) :
    lexemes? (w ++ r) = lexemes? r := by
  induction w with
  | nil => rfl
  | cons c w ih =>
    rw [List.cons_append, lexemes?_gap (h c List.mem_cons_self),
      ih fun d hd => h d (List.mem_cons_of_mem _ hd)]

/-- A structural character is a lexeme. -/
theorem lexemes?_mark {c : Char} (h : c ∈ marks) (r : List Char) :
    lexemes? (c :: r) = (lexemes? r).map (.mark c :: ·) := by
  have hmarks : marks.all (fun c => !isGap c) = true := rfl
  have hgap : isGap c = false := by simpa using List.all_eq_true.1 hmarks c h
  rw [lexemes?, if_neg (by simp [hgap]), if_pos (by simp [h])]

/-- A quoted string is a lexeme. -/
theorem lexemes?_quoted (s : String) (r : List Char) :
    lexemes? (quoted s ++ r) = (lexemes? r).map (.string (escaped s) :: ·) := by
  have hbody : stringBody? (s.toList.flatMap escapeChar ++ ['"'] ++ r)
      = some (escaped s, r) := by
    rw [List.append_assoc]
    exact stringBody?_escaped s.toList r
  rw [quoted, List.cons_append, lexemes?, if_neg (by decide), if_neg (by decide), if_pos rfl]
  split
  · next h => rw [hbody] at h; cases h
  · next h => rw [hbody] at h; cases h; rfl

/-- A word is a lexeme, if it ends there. -/
theorem lexemes?_word {text r : List Char} (hne : text ≠ [])
    (h : ∀ c ∈ text, isWordChar c = true) (hr : EndsWord r) :
    lexemes? (text ++ r) = (lexemes? r).map (.word text :: ·) := by
  obtain ⟨c, cs, rfl⟩ := List.exists_cons_of_ne_nil hne
  have hc : isGap c = false ∧ marks.contains c = false ∧ c ≠ '"' := by
    simpa [isWordChar, and_assoc] using h c List.mem_cons_self
  have hcs : ∀ d ∈ cs, isWordChar d = true := fun d hd => h d (List.mem_cons_of_mem _ hd)
  have hr' : r.takeWhile isWordChar = [] ∧ r.dropWhile isWordChar = r := by
    cases r with
    | nil => exact ⟨rfl, rfl⟩
    | cons d r => simp [hr d rfl]
  rw [List.cons_append, lexemes?, if_neg (by simp [hc.1]), if_neg (by simp only [hc.2.1]; simp),
    if_neg hc.2.2, List.dropWhile_append_of_pos hcs, List.takeWhile_append_of_pos hcs, hr'.1, hr'.2,
    List.append_nil]

/-- A digit is part of a word. -/
theorem isWordChar_of_isDigit {c : Char} (h : Digits.isDigit c = true) : isWordChar c = true := by
  simp only [Digits.isDigit, Bool.and_eq_true, decide_eq_true_eq] at h
  have hne : ∀ d : Char, d.toNat < 0x30 ∨ 0x39 < d.toNat → c ≠ d := by
    rintro d hd rfl
    omega
  simp [isWordChar, isGap, marks, hne ' ' (by decide), hne '\t' (by decide), hne '\n' (by decide),
    hne '\r' (by decide), hne '"' (by decide), hne '[' (by decide), hne ']' (by decide),
    hne '\x7b' (by decide), hne '\x7d' (by decide), hne ':' (by decide), hne ',' (by decide)]

/-- So is every character of an integer. -/
theorem isWordChar_of_mem_integerText {n : Int} {c : Char} (h : c ∈ integerText n) :
    isWordChar c = true := by
  unfold integerText at h
  split at h
  · rcases List.mem_cons.1 h with rfl | h
    · decide
    · exact isWordChar_of_isDigit (isDigit_of_mem_digits h)
  · exact isWordChar_of_isDigit (isDigit_of_mem_digits h)

/-- So is every character of a number. -/
theorem isWordChar_of_mem_numberText {significand exponent : Int} {c : Char}
    (h : c ∈ numberText significand exponent) : isWordChar c = true := by
  unfold numberText at h
  split at h
  · exact isWordChar_of_mem_integerText h
  · rcases List.mem_append.1 h with h | h
    · exact isWordChar_of_mem_integerText h
    · rcases List.mem_cons.1 h with rfl | h
      · decide
      · exact isWordChar_of_mem_integerText h

end RunRecord.Json
