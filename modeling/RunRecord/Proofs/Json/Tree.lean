import RunRecord.Proofs.Json.Reads

/-!
# Proofs/Json/Tree — the grammar of values

A **tree** is a value as a document presents it: numbers and strings keep their spelling, objects
keep their members in order, repeated ones too; only white space between tokens is gone.  `Spells`
is the grammar: it relates a piece of a tree to the bytes that begin with it and to those left
behind it.

The grammar is unambiguous (`Spells.unique`), as every token says by its first byte what it is and
a number goes as far as it can; and every tree has a text (`Tree.exists_spells`).

The grammar is looser than JSON's in one place, as the reader is: what stands in a string is not
decoded here, so it need not be UTF-8, and an escape is only looked at for its form.  A tree keeps
the spelling of its numbers and strings, and two documents have one tree exactly if they differ in
white space alone.  Readers are judged by trees afterwards, and no more by bytes.
-/

namespace RunRecord.Json

open Reader

/-! ## Strings

Only the form of an escape counts in a body.  Whether the escapes say a string is the business of
the readers, as a passed over string may hold half a surrogate pair. -/

/-- **What may stand between the quotes of a string**: plain bytes, and escapes of which only the
form counts, so that a surrogate may stand alone. -/
inductive IsBody : Bytes → Prop
  | nil : IsBody []
  | plain {b : UInt8} {s : Bytes} : IsPlain b → IsBody s → IsBody (b :: s)
  | short {b : UInt8} {s : Bytes} :
    (shortEscape? b).isSome → IsBody s → IsBody (backslash :: b :: s)
  | unicode {a b c d : UInt8} {s : Bytes} :
    (hexValue4? a b c d).isSome → IsBody s → IsBody (backslash :: 0x75 :: a :: b :: c :: d :: s)

/-- The bytes between the quotes of a string. -/
@[ext]
structure Body where
  bytes : Bytes
  isBody : IsBody bytes

/-- A quote ends a string, so it is none of its plain bytes. -/
theorem not_isPlain_quote : ¬ IsPlain quoteByte := fun h => h.1 rfl

/-- A backslash begins an escape, so it is no plain byte either. -/
theorem not_isPlain_backslash : ¬ IsPlain backslash := fun h => h.2.1 rfl

/-- **A string ends at its first quote that is not escaped.**  So the body of a string and what
stands behind it can be told apart in one way only. -/
theorem IsBody.unique {s s' r r' : Bytes} (h : IsBody s) (h' : IsBody s')
    (heq : s ++ quoteByte :: r = s' ++ quoteByte :: r') : s = s' ∧ r = r' := by
  induction h generalizing s' with
  | nil =>
    cases h' with
    | nil => exact ⟨rfl, List.tail_eq_of_cons_eq heq⟩
    | plain hb _ => exact absurd (List.head_eq_of_cons_eq heq ▸ hb) not_isPlain_quote
    | short => exact absurd (List.head_eq_of_cons_eq heq) (by decide)
    | unicode => exact absurd (List.head_eq_of_cons_eq heq) (by decide)
  | plain hb _ ih =>
    cases h' with
    | nil => exact absurd (List.head_eq_of_cons_eq heq ▸ hb) not_isPlain_quote
    | plain _ h' =>
      obtain ⟨rfl, hrest⟩ := List.cons_eq_cons.1 heq
      obtain ⟨rfl, hr⟩ := ih h' hrest
      exact ⟨rfl, hr⟩
    | short => exact absurd (List.head_eq_of_cons_eq heq ▸ hb) not_isPlain_backslash
    | unicode => exact absurd (List.head_eq_of_cons_eq heq ▸ hb) not_isPlain_backslash
  | short hshort _ ih =>
    cases h' with
    | nil => exact absurd (List.head_eq_of_cons_eq heq) (by decide)
    | plain hb _ => exact absurd ((List.head_eq_of_cons_eq heq).symm ▸ hb) not_isPlain_backslash
    | short _ h' =>
      obtain ⟨rfl, hrest⟩ := List.cons_eq_cons.1 (List.tail_eq_of_cons_eq heq)
      obtain ⟨rfl, hr⟩ := ih h' hrest
      exact ⟨rfl, hr⟩
    | unicode =>
      obtain ⟨rfl, -⟩ := List.cons_eq_cons.1 (List.tail_eq_of_cons_eq heq)
      exact absurd hshort (by decide)
  | unicode _ _ ih =>
    cases h' with
    | nil => exact absurd (List.head_eq_of_cons_eq heq) (by decide)
    | plain hb _ => exact absurd ((List.head_eq_of_cons_eq heq).symm ▸ hb) not_isPlain_backslash
    | short hshort _ =>
      obtain ⟨rfl, -⟩ := List.cons_eq_cons.1 (List.tail_eq_of_cons_eq heq)
      exact absurd hshort (by decide)
    | unicode _ h' =>
      simp only [List.cons_append, List.cons_eq_cons, true_and] at heq
      obtain ⟨rfl, rfl, rfl, rfl, hrest⟩ := heq
      obtain ⟨rfl, hr⟩ := ih h' hrest
      exact ⟨rfl, hr⟩

/-! ## Numbers

A number has no closing token.  It ends where nothing more of it can follow, so the statements about
it all ask what stands behind. -/

/-- Only digits, and at least one. -/
structure IsDigits (s : Bytes) : Prop where
  ne_nil : s ≠ []
  all : ∀ b ∈ s, isDigit b = true

/-- A digit in front of digits leaves digits. -/
theorem IsDigits.cons {b : UInt8} {ds : Bytes} (hb : Json.isDigit b = true)
    (h : ∀ c ∈ ds, Json.isDigit c = true) : IsDigits (b :: ds) :=
  ⟨List.cons_ne_nil b ds, List.forall_mem_cons.2 ⟨hb, h⟩⟩

/-- The integer digits of a number: no zero stands before other digits. -/
structure IsWhole (s : Bytes) : Prop extends IsDigits s where
  zero : s.head? = some 0x30 → s = [0x30]

/-- The fraction of a number, if it has one. -/
inductive IsFraction : Bytes → Prop
  | none : IsFraction []
  | some {ds : Bytes} : IsDigits ds → IsFraction (0x2E :: ds)

/-- The exponent of a number, if it has one. -/
inductive IsExponent : Bytes → Prop
  | none : IsExponent []
  | some {letter : UInt8} {sign ds : Bytes} : letter = 0x65 ∨ letter = 0x45 →
    sign = [] ∨ sign = [0x2B] ∨ sign = [0x2D] → IsDigits ds → IsExponent (letter :: (sign ++ ds))

/-- **A number as it is written**, of any size and precision. -/
@[ext]
structure Numeral where
  sign : Bytes
  whole : Bytes
  fraction : Bytes
  exponent : Bytes
  isSign : sign = [] ∨ sign = [0x2D]
  isWhole : IsWhole whole
  isFraction : IsFraction fraction
  isExponent : IsExponent exponent

namespace Numeral

/-- The text of a number. -/
def bytes (n : Numeral) : Bytes := n.sign ++ (n.whole ++ (n.fraction ++ n.exponent))

/-- Nothing behind a number carries it on: no digit, and no point or exponent where the number has
none of its own yet. -/
def EndsAt (n : Numeral) (r : Bytes) : Prop :=
  ∀ b ∈ r.head?, isDigit b = false ∧ (n.exponent = [] → b ≠ 0x65 ∧ b ≠ 0x45) ∧
    (n.exponent = [] → n.fraction = [] → b ≠ 0x2E)

/-- A delimiter carries no number on. -/
theorem endsAt_of_delimited (n : Numeral) {r : Bytes} (h : Delimited r) : n.EndsAt r :=
  fun b hb => ⟨(h b hb).1, fun _ => ⟨(h b hb).2.2.1, (h b hb).2.2.2⟩, fun _ _ => (h b hb).2.1⟩

/-- Nothing carries on a number that ends in its integer digits. -/
theorem EndsAt.delimited {n : Numeral} {r : Bytes} (h : n.EndsAt r) (hfraction : n.fraction = [])
    (hexponent : n.exponent = []) : Delimited r := fun b hb =>
  ⟨(h b hb).1, (h b hb).2.2 hexponent hfraction, (h b hb).2.1 hexponent⟩

end Numeral

/-- No digit comes next. -/
def StopsDigits (r : Bytes) : Prop := ∀ b ∈ r.head?, isDigit b = false

/-- A byte that is no digit stops the digits in front of it. -/
theorem stopsDigits_cons {b : UInt8} (h : isDigit b = false) (r : Bytes) :
    StopsDigits (b :: r) := by
  rintro _ ⟨⟩
  exact h

/-- Behind a number that has ended no digit comes next, whichever of its parts came last. -/
theorem Numeral.EndsAt.stopsDigits {n : Numeral} {r : Bytes} (h : n.EndsAt r) : StopsDigits r :=
  fun b hb => (h b hb).1

/-- Digits are taken as far as they go, and what they stop at is left. -/
theorem takeWhile_digits {ds r : Bytes} (hd : ∀ b ∈ ds, isDigit b = true) (hr : StopsDigits r) :
    (ds ++ r).takeWhile isDigit = ds ∧ (ds ++ r).dropWhile isDigit = r := by
  rw [List.takeWhile_append_of_pos hd, List.dropWhile_append_of_pos hd]
  cases r with
  | nil => simp
  | cons b r =>
    have hb : ¬ isDigit b = true := by simp [hr b rfl]
    rw [List.takeWhile_cons_of_neg hb, List.dropWhile_cons_of_neg hb, List.append_nil]
    exact ⟨rfl, rfl⟩

/-- Where two runs of digits stop in one text, they are the same run. -/
theorem digits_unique {ds ds' r r' : Bytes} (hd : ∀ b ∈ ds, isDigit b = true)
    (hd' : ∀ b ∈ ds', isDigit b = true) (hr : StopsDigits r) (hr' : StopsDigits r')
    (heq : ds ++ r = ds' ++ r') : ds = ds' ∧ r = r' := by
  obtain ⟨htake, hdrop⟩ := takeWhile_digits hd hr
  obtain ⟨htake', hdrop'⟩ := takeWhile_digits hd' hr'
  rw [heq] at htake hdrop
  exact ⟨htake.symm.trans htake', hdrop.symm.trans hdrop'⟩

/-- Digits do not begin with a byte that is none. -/
theorem IsDigits.not_append_cons {ds r t : Bytes} {b : UInt8} (h : IsDigits ds)
    (hb : isDigit b = false) : ds ++ r ≠ b :: t := by
  obtain ⟨d, ds, rfl⟩ := List.exists_cons_of_ne_nil h.ne_nil
  rintro ⟨⟩
  rw [h.all b List.mem_cons_self] at hb
  cases hb

/-- An exponent stops the digits in front of it, whether it is there or not. -/
theorem IsExponent.stopsDigits {e r : Bytes} (h : IsExponent e) (hr : StopsDigits r) :
    StopsDigits (e ++ r) := by
  cases h with
  | none => exact hr
  | some hletter =>
    refine stopsDigits_cons ?_ _
    rcases hletter with rfl | rfl <;> decide

/-- A fraction stops the digits in front of it, whether it is there or not. -/
theorem IsFraction.stopsDigits {f r : Bytes} (h : IsFraction f) (hr : StopsDigits r) :
    StopsDigits (f ++ r) := by
  cases h with
  | none => exact hr
  | some => exact stopsDigits_cons (by decide) _

/-- An exponent goes as far as it can.  A missing exponent counts as one of no bytes, which is why
what stands behind it may not look like the start of another. -/
theorem IsExponent.unique {e e' r r' : Bytes} (h : IsExponent e) (h' : IsExponent e')
    (hr : StopsDigits r) (hr' : StopsDigits r')
    (hends : e = [] → ∀ b ∈ r.head?, b ≠ 0x65 ∧ b ≠ 0x45)
    (hends' : e' = [] → ∀ b ∈ r'.head?, b ≠ 0x65 ∧ b ≠ 0x45)
    (heq : e ++ r = e' ++ r') : e = e' ∧ r = r' := by
  have hletter : ∀ {b : UInt8}, b = 0x65 ∨ b = 0x45 → ¬ (b ≠ 0x65 ∧ b ≠ 0x45) := fun h h' =>
    h.elim h'.1 h'.2
  cases h with
  | none =>
    cases h' with
    | none => exact ⟨rfl, heq⟩
    | some hl => exact absurd (hends rfl _ (by rw [← List.nil_append r, heq]; rfl)) (hletter hl)
  | some hl hs hd =>
    cases h' with
    | none => exact absurd (hends' rfl _ (by rw [← List.nil_append r', ← heq]; rfl)) (hletter hl)
    | some _ hs' hd' =>
      simp only [List.cons_append, List.append_assoc, List.cons_eq_cons] at heq
      obtain ⟨rfl, heq⟩ := heq
      rcases hs with rfl | rfl | rfl <;> rcases hs' with rfl | rfl | rfl
      case inl.inl | inr.inl.inr.inl | inr.inr.inr.inr =>
        simp only [List.nil_append, List.cons_append, List.cons_eq_cons, true_and] at heq
        obtain ⟨rfl, rfl⟩ := digits_unique hd.all hd'.all hr hr' heq
        exact ⟨rfl, rfl⟩
      case inl.inr.inl | inl.inr.inr => exact absurd heq (hd.not_append_cons (by decide))
      case inr.inl.inl | inr.inr.inl => exact absurd heq.symm (hd'.not_append_cons (by decide))
      case inr.inl.inr.inr | inr.inr.inr.inl =>
        exact absurd (List.head_eq_of_cons_eq heq) (by decide)

/-- A fraction goes as far as it can.  As with exponents, a missing one is a fraction of no bytes
with no point behind it. -/
theorem IsFraction.unique {f f' r r' : Bytes} (h : IsFraction f) (h' : IsFraction f')
    (hr : StopsDigits r) (hr' : StopsDigits r')
    (hends : f = [] → ∀ b ∈ r.head?, b ≠ 0x2E) (hends' : f' = [] → ∀ b ∈ r'.head?, b ≠ 0x2E)
    (heq : f ++ r = f' ++ r') : f = f' ∧ r = r' := by
  cases h with
  | none =>
    cases h' with
    | none => exact ⟨rfl, heq⟩
    | some => exact absurd rfl (hends rfl _ (by rw [← List.nil_append r, heq]; rfl))
  | some hd =>
    cases h' with
    | none => exact absurd rfl (hends' rfl _ (by rw [← List.nil_append r', ← heq]; rfl))
    | some hd' =>
      obtain ⟨rfl, rfl⟩ :=
        digits_unique hd.all hd'.all hr hr' (List.tail_eq_of_cons_eq heq)
      exact ⟨rfl, rfl⟩

/-- Where a number without a fraction ends, its exponent is not behind a point.  So the missing
fraction goes as far as it can, too. -/
theorem Numeral.EndsAt.not_point {n : Numeral} {r : Bytes} (h : n.EndsAt r) (hf : n.fraction = []) :
    ∀ b ∈ (n.exponent ++ r).head?, b ≠ 0x2E := by
  intro b hb
  have hexponent := n.isExponent
  rcases he : n.exponent with _ | ⟨letter, e⟩
  · rw [he] at hb
    exact (h b hb).2.2 he hf
  · rw [he] at hb hexponent
    cases hb
    cases hexponent with
    | some hletter => rcases hletter with rfl | rfl <;> decide

/-- **A number goes as far as it can.**  Its four parts are unique one after the other: each stops
where the next begins. -/
theorem Numeral.unique {n n' : Numeral} {r r' : Bytes} (h : n.EndsAt r) (h' : n'.EndsAt r')
    (heq : n.bytes ++ r = n'.bytes ++ r') : n = n' ∧ r = r' := by
  simp only [bytes, List.append_assoc] at heq
  have hsign : n.sign = n'.sign ∧
      n.whole ++ (n.fraction ++ (n.exponent ++ r)) =
        n'.whole ++ (n'.fraction ++ (n'.exponent ++ r')) := by
    rcases n.isSign with hs | hs <;> rcases n'.isSign with hs' | hs' <;> rw [hs, hs'] at heq
    · exact ⟨hs.trans hs'.symm, heq⟩
    · exact absurd heq (n.isWhole.not_append_cons (by decide))
    · exact absurd heq.symm (n'.isWhole.not_append_cons (by decide))
    · exact ⟨hs.trans hs'.symm, List.tail_eq_of_cons_eq heq⟩
  have hstop := n.isExponent.stopsDigits h.stopsDigits
  have hstop' := n'.isExponent.stopsDigits h'.stopsDigits
  obtain ⟨hwhole, hrest⟩ := digits_unique n.isWhole.all n'.isWhole.all
    (n.isFraction.stopsDigits hstop) (n'.isFraction.stopsDigits hstop') hsign.2
  obtain ⟨hfraction, hrest⟩ := n.isFraction.unique n'.isFraction hstop hstop' h.not_point
    h'.not_point hrest
  obtain ⟨hexponent, hr⟩ := n.isExponent.unique n'.isExponent h.stopsDigits h'.stopsDigits
    (fun he b hb => (h b hb).2.1 he) (fun he b hb => (h' b hb).2.1 he) hrest
  exact ⟨Numeral.ext hsign.1 hwhole hfraction hexponent, hr⟩

/-! ## Trees

A piece is what the grammar has rules for: besides values, what stands behind an element or a
member, which is a comma and the next one or the closing bracket. -/

/-- **A value as a document presents it.**  Numbers and strings are kept as they are written, and an
object keeps its members in order, those with one key in common too. -/
inductive Tree where
  | null
  | boolean (value : Bool)
  | number (n : Numeral)
  | string (body : Body)
  | array (elements : List Tree)
  | object (members : List (Body × Tree))

/-- Numbers, strings, booleans and `null` are scalars. -/
def Tree.IsScalar : Tree → Prop
  | .array _ | .object _ => False
  | _ => True

/-- What is spelled: a value, what follows an element of an array, a member of an object, or what
follows one. -/
inductive Piece where
  | value (v : Tree)
  | elements (vs : List Tree)
  | member (m : Body × Tree)
  | members (ms : List (Body × Tree))

/-- White space, then a byte that is none, then the rest. -/
def Token (s : Bytes) (b : UInt8) (t : Bytes) : Prop := s.dropWhile isSpace = b :: t

/-- The text of a boolean. -/
def booleanBytes : Bool → Bytes
  | true => 0x74 :: restOfTrue
  | false => 0x66 :: restOfFalse

/-- **The grammar**: `Spells p s r` if the bytes `s` begin with a text of `p` and `r` is left.  What
is left is part of the relation, as only a number's surroundings say where it ends. -/
inductive Spells : Piece → Bytes → Bytes → Prop
  | null {r : Bytes} : Spells (.value .null) (0x6E :: (restOfNull ++ r)) r
  | boolean {value : Bool} {s r : Bytes} :
    s = booleanBytes value ++ r → Spells (.value (.boolean value)) s r
  | number {n : Numeral} {s r : Bytes} :
    s = n.bytes ++ r → n.EndsAt r → Spells (.value (.number n)) s r
  | string {body : Body} {s r : Bytes} :
    s = quoteByte :: (body.bytes ++ quoteByte :: r) → Spells (.value (.string body)) s r
  | emptyArray {s r : Bytes} : Token s 0x5D r → Spells (.value (.array [])) (0x5B :: s) r
  | array {v : Tree} {vs : List Tree} {s t r : Bytes} :
    Spells (.value v) (s.dropWhile isSpace) t → Spells (.elements vs) t r →
      Spells (.value (.array (v :: vs))) (0x5B :: s) r
  | emptyObject {s r : Bytes} : Token s 0x7D r → Spells (.value (.object [])) (0x7B :: s) r
  | object {m : Body × Tree} {ms : List (Body × Tree)} {s t r : Bytes} :
    Spells (.member m) s t → Spells (.members ms) t r →
      Spells (.value (.object (m :: ms))) (0x7B :: s) r
  | noElement {s r : Bytes} : Token s 0x5D r → Spells (.elements []) s r
  | element {v : Tree} {vs : List Tree} {s t u r : Bytes} :
    Token s 0x2C t → Spells (.value v) (t.dropWhile isSpace) u → Spells (.elements vs) u r →
      Spells (.elements (v :: vs)) s r
  | member {key : Body} {v : Tree} {s t u r : Bytes} :
    Token s quoteByte (key.bytes ++ quoteByte :: t) → Token t 0x3A u →
      Spells (.value v) (u.dropWhile isSpace) r → Spells (.member (key, v)) s r
  | noMember {s r : Bytes} : Token s 0x7D r → Spells (.members []) s r
  | another {m : Body × Tree} {ms : List (Body × Tree)} {s t u r : Bytes} :
    Token s 0x2C t → Spells (.member m) t u → Spells (.members ms) u r →
      Spells (.members (m :: ms)) s r

/-- **A document of a value**: its text, with white space before and behind it. -/
def Presents (document : Bytes) (v : Tree) : Prop :=
  ∃ r, Spells (.value v) (document.dropWhile isSpace) r ∧ r.dropWhile isSpace = []

/-! ## How a value starts -/

/-- What a value is, as its first byte tells. -/
inductive Start where
  | null
  | boolean (value : Bool)
  | number
  | string
  | array
  | object
deriving DecidableEq

/-- What a value is.  Its first byte says no more than this, so this is what two values with one
text share at once. -/
def Tree.start : Tree → Start
  | .null => .null
  | .boolean value => .boolean value
  | .number _ => .number
  | .string _ => .string
  | .array _ => .array
  | .object _ => .object

/-- What the value is that starts with a byte. -/
def startOf? (b : UInt8) : Option Start :=
  if b = 0x6E then some .null
  else if b = 0x74 then some (.boolean true)
  else if b = 0x66 then some (.boolean false)
  else if b = 0x2D ∨ isDigit b then some .number
  else if b = quoteByte then some .string
  else if b = 0x5B then some .array
  else if b = 0x7B then some .object
  else none

/-- A digit starts a number. -/
theorem startOf?_digit {b : UInt8} (h : isDigit b = true) : startOf? b = some .number := by
  have hne : ∀ c : UInt8, isDigit c = false → b ≠ c := by
    rintro c hc rfl
    rw [h] at hc
    cases hc
  rw [startOf?, if_neg (hne _ rfl), if_neg (hne _ rfl), if_neg (hne _ rfl), if_pos (.inr h)]

/-- **A value says by its first byte what it is.**  This is what makes the grammar one that can be
read from left to right. -/
theorem Spells.start {v : Tree} {s r : Bytes} (h : Spells (.value v) s r) :
    ∃ b t, s = b :: t ∧ startOf? b = some v.start := by
  cases h with
  | null => exact ⟨_, _, rfl, rfl⟩
  | @boolean value _ _ hs =>
    subst hs
    cases value with
    | true => exact ⟨_, _, rfl, rfl⟩
    | false => exact ⟨_, _, rfl, rfl⟩
  | @number n _ _ hs =>
    subst hs
    obtain ⟨b, ds, hds⟩ := List.exists_cons_of_ne_nil n.isWhole.ne_nil
    have hb : Json.isDigit b = true := n.isWhole.all b (hds ▸ List.mem_cons_self)
    rcases n.isSign with hsign | hsign
    · refine ⟨b, ds ++ (n.fraction ++ n.exponent) ++ r, ?_, startOf?_digit hb⟩
      simp only [Numeral.bytes, hsign, hds, List.nil_append, List.cons_append, List.append_assoc]
    · refine ⟨0x2D, n.whole ++ (n.fraction ++ n.exponent) ++ r, ?_, rfl⟩
      simp only [Numeral.bytes, hsign, List.cons_append, List.nil_append, List.append_assoc]
  | string hs => exact ⟨_, _, hs, rfl⟩
  | emptyArray => exact ⟨_, _, rfl, rfl⟩
  | array => exact ⟨_, _, rfl, rfl⟩
  | emptyObject => exact ⟨_, _, rfl, rfl⟩
  | object => exact ⟨_, _, rfl, rfl⟩

/-- No value starts with white space. -/
theorem isSpace_of_startOf? {b : UInt8} {start : Start} (h : startOf? b = some start) :
    isSpace b = false := by
  refine Bool.eq_false_iff.2 fun hspace => ?_
  simp only [isSpace, Bool.or_eq_true, beq_iff_eq] at hspace
  rcases hspace with ((rfl | rfl) | rfl) | rfl <;> cases h

/-- No white space stands before the first byte of a value. -/
theorem Spells.dropWhile_eq {v : Tree} {s r : Bytes} (h : Spells (.value v) s r) :
    s.dropWhile isSpace = s := by
  obtain ⟨b, t, rfl, hb⟩ := h.start
  rw [List.dropWhile_cons_of_neg (by simp [isSpace_of_startOf? hb])]

/-- A value starts with a token that closes no array.  So an array that is not empty cannot be taken
for an empty one. -/
theorem Spells.exists_token {v : Tree} {s r : Bytes}
    (h : Spells (.value v) (s.dropWhile isSpace) r) : ∃ b t, Token s b t ∧ b ≠ 0x5D := by
  obtain ⟨b, t, hb, hstart⟩ := h.start
  refine ⟨b, t, hb, ?_⟩
  rintro rfl
  cases hstart

/-- A value starts with none of the bytes that stand between values. -/
theorem Spells.not_token {v : Tree} {s t r : Bytes} {b : UInt8}
    (h : Spells (.value v) (s.dropWhile isSpace) r) (hb : startOf? b = none) : ¬ Token s b t := by
  obtain ⟨c, u, hs, hc⟩ := h.start
  intro htoken
  rw [Token, hs, List.cons_eq_cons] at htoken
  rw [htoken.1, hb] at hc
  cases hc

/-! ## The grammar is unambiguous

By induction on the derivation: the first bytes decide which rule it ends in, and its parts are
unique by what has been shown of strings, numbers and shorter derivations. -/

/-- White space ends at the first byte that is none, so the next token of a text is one byte only.
-/
theorem Token.unique {s t t' : Bytes} {b b' : UInt8} (h : Token s b t) (h' : Token s b' t') :
    b = b' ∧ t = t' := List.cons_eq_cons.1 (Eq.trans (Eq.symm h) h')

/-- Nothing else of the same sort begins with these bytes, and nothing else is left. -/
def Piece.IsOnly (s r : Bytes) : Piece → Prop
  | .value v => ∀ v' r', Spells (.value v') s r' → v = v' ∧ r = r'
  | .elements vs => ∀ vs' r', Spells (.elements vs') s r' → vs = vs' ∧ r = r'
  | .member m => ∀ m' r', Spells (.member m') s r' → m = m' ∧ r = r'
  | .members ms => ∀ ms' r', Spells (.members ms') s r' → ms = ms' ∧ r = r'

/-- Two values with one text are of one kind, as they have one first byte. -/
theorem Spells.start_eq {v v' : Tree} {s r r' : Bytes} (h : Spells (.value v) s r)
    (h' : Spells (.value v') s r') : v.start = v'.start := by
  obtain ⟨b, t, rfl, hb⟩ := h.start
  obtain ⟨_, _, heq, hb'⟩ := h'.start
  obtain ⟨rfl, rfl⟩ := List.cons_eq_cons.1 heq
  exact Option.some.inj (hb.symm.trans hb')

/-- A text of a scalar has one tree and one end.  A literal is known by its first byte, a string and
a number by the lemmas on their bodies. -/
theorem Spells.isOnly_scalar {v : Tree} {s r : Bytes} (h : Spells (.value v) s r)
    (hv : v.IsScalar) : (Piece.value v).IsOnly s r := by
  intro v' r' h'
  have hstart := h.start_eq h'
  cases h with
  | null =>
    generalize hs : 0x6E :: (restOfNull ++ r) = s at h'
    cases h' with
    | null => exact ⟨rfl, List.append_cancel_left (List.tail_eq_of_cons_eq hs)⟩
    | _ => cases hstart
  | boolean hs =>
    cases h' with
    | boolean hs' =>
      cases hstart
      exact ⟨rfl, List.append_cancel_left (hs.symm.trans hs')⟩
    | _ => cases hstart
  | number hs hr =>
    cases h' with
    | number hs' hr' =>
      obtain ⟨rfl, rfl⟩ := Numeral.unique hr hr' (hs.symm.trans hs')
      exact ⟨rfl, rfl⟩
    | _ => cases hstart
  | @string body _ _ hs =>
    cases h' with
    | string hs' =>
      obtain ⟨hbody, rfl⟩ := body.isBody.unique (Body.isBody _)
        (List.tail_eq_of_cons_eq (hs.symm.trans hs'))
      exact ⟨congrArg _ (Body.ext hbody), rfl⟩
    | _ => cases hstart
  | emptyArray | array | emptyObject | object => cases hv

/-- **A text has one tree and one end.**  By induction on how the piece is spelled. -/
theorem Spells.isOnly {p : Piece} {s r : Bytes} (h : Spells p s r) : p.IsOnly s r := by
  induction h with
  | null => exact Spells.null.isOnly_scalar trivial
  | boolean hs => exact (Spells.boolean hs).isOnly_scalar trivial
  | number hs hr => exact (Spells.number hs hr).isOnly_scalar trivial
  | string hs => exact (Spells.string hs).isOnly_scalar trivial
  | emptyArray hclose =>
    intro v' r' h'
    have hstart := (Spells.emptyArray hclose).start_eq h'
    cases h' with
    | emptyArray hclose' => exact ⟨rfl, (hclose.unique hclose').2⟩
    | array hfirst => exact absurd hclose (hfirst.not_token (by decide))
    | _ => cases hstart
  | array hfirst hrest ihfirst ihrest =>
    intro v' r' h'
    have hstart := (Spells.array hfirst hrest).start_eq h'
    cases h' with
    | emptyArray hclose => exact absurd hclose (hfirst.not_token (by decide))
    | array hfirst' hrest' =>
      obtain ⟨rfl, rfl⟩ := ihfirst _ _ hfirst'
      obtain ⟨rfl, rfl⟩ := ihrest _ _ hrest'
      exact ⟨rfl, rfl⟩
    | _ => cases hstart
  | emptyObject hclose =>
    intro v' r' h'
    have hstart := (Spells.emptyObject hclose).start_eq h'
    cases h' with
    | emptyObject hclose' => exact ⟨rfl, (hclose.unique hclose').2⟩
    | object hfirst =>
      cases hfirst with
      | member hquote => exact absurd (hclose.unique hquote).1 (by decide)
    | _ => cases hstart
  | object hfirst hrest ihfirst ihrest =>
    intro v' r' h'
    have hstart := (Spells.object hfirst hrest).start_eq h'
    cases h' with
    | emptyObject hclose =>
      cases hfirst with
      | member hquote => exact absurd (hclose.unique hquote).1 (by decide)
    | object hfirst' hrest' =>
      obtain ⟨rfl, rfl⟩ := ihfirst _ _ hfirst'
      obtain ⟨rfl, rfl⟩ := ihrest _ _ hrest'
      exact ⟨rfl, rfl⟩
    | _ => cases hstart
  | noElement hclose =>
    intro vs' r' h'
    cases h' with
    | noElement hclose' => exact ⟨rfl, (hclose.unique hclose').2⟩
    | element hcomma => exact absurd (hclose.unique hcomma).1 (by decide)
  | element hcomma _ _ ihfirst ihrest =>
    intro vs' r' h'
    cases h' with
    | noElement hclose => exact absurd (hclose.unique hcomma).1 (by decide)
    | element hcomma' hfirst' hrest' =>
      obtain ⟨-, rfl⟩ := hcomma.unique hcomma'
      obtain ⟨rfl, rfl⟩ := ihfirst _ _ hfirst'
      obtain ⟨rfl, rfl⟩ := ihrest _ _ hrest'
      exact ⟨rfl, rfl⟩
  | @member key _ _ _ _ _ hquote hcolon _ ihvalue =>
    intro m' r' h'
    cases h' with
    | member hquote' hcolon' hvalue' =>
      obtain ⟨hkey, rfl⟩ := key.isBody.unique (Body.isBody _) (hquote.unique hquote').2
      obtain ⟨-, rfl⟩ := hcolon.unique hcolon'
      obtain ⟨rfl, rfl⟩ := ihvalue _ _ hvalue'
      exact ⟨congrArg (·, _) (Body.ext hkey), rfl⟩
  | noMember hclose =>
    intro ms' r' h'
    cases h' with
    | noMember hclose' => exact ⟨rfl, (hclose.unique hclose').2⟩
    | another hcomma => exact absurd (hclose.unique hcomma).1 (by decide)
  | another hcomma _ _ ihfirst ihrest =>
    intro ms' r' h'
    cases h' with
    | noMember hclose => exact absurd (hclose.unique hcomma).1 (by decide)
    | another hcomma' hfirst' hrest' =>
      obtain ⟨-, rfl⟩ := hcomma.unique hcomma'
      obtain ⟨rfl, rfl⟩ := ihfirst _ _ hfirst'
      obtain ⟨rfl, rfl⟩ := ihrest _ _ hrest'
      exact ⟨rfl, rfl⟩

/-- A value is read off its text in one way only. -/
theorem Spells.unique {v v' : Tree} {s r r' : Bytes} (h : Spells (.value v) s r)
    (h' : Spells (.value v') s r') : v = v' ∧ r = r' := h.isOnly v' r' h'

/-! ## Every tree has a text

A text is built from its end, since what a number may stand in front of is settled only by what
follows it. -/

/-- A byte that is no white space is the next token. -/
theorem token_cons {b : UInt8} (hb : isSpace b = false) (t : Bytes) : Token (b :: t) b t :=
  List.dropWhile_cons_of_neg (by simp [hb])

/-- White space in front of a value may be dropped. -/
theorem Spells.behind_token {v : Tree} {s r : Bytes} (h : Spells (.value v) s r) :
    Spells (.value v) (s.dropWhile isSpace) r := by
  rwa [h.dropWhile_eq]

mutual

/-- A value has a text in front of anything that carries no number on.  The three statements are
proved by recursion on the tree together. -/
theorem Tree.exists_spells : ∀ (v : Tree) {r : Bytes}, Delimited r → ∃ s, Spells (.value v) s r
  | .null, _, _ => ⟨_, .null⟩
  | .boolean _, _, _ => ⟨_, .boolean rfl⟩
  | .number n, _, hr => ⟨_, .number rfl (n.endsAt_of_delimited hr)⟩
  | .string _, _, _ => ⟨_, .string rfl⟩
  | .array [], r, _ => ⟨0x5B :: 0x5D :: r, .emptyArray (token_cons (by decide) _)⟩
  | .array (v :: vs), r, _ => by
    obtain ⟨t, hrest, ht⟩ := exists_spells_elements vs r
    obtain ⟨s, hfirst⟩ := v.exists_spells ht
    exact ⟨0x5B :: s, .array hfirst.behind_token hrest⟩
  | .object [], r, _ => ⟨0x7B :: 0x7D :: r, .emptyObject (token_cons (by decide) _)⟩
  | .object ((key, v) :: ms), r, _ => by
    obtain ⟨t, hrest, ht⟩ := exists_spells_members ms r
    obtain ⟨s, hvalue⟩ := v.exists_spells ht
    exact ⟨_, .object (.member (token_cons (by decide) _) (token_cons (by decide) s)
      hvalue.behind_token) hrest⟩

/-- So has what follows an element. -/
theorem exists_spells_elements :
    ∀ (vs : List Tree) (r : Bytes), ∃ s, Spells (.elements vs) s r ∧ Delimited s
  | [], r =>
    ⟨0x5D :: r, .noElement (token_cons (by decide) _), delimited_cons isDelimiter_bracket r⟩
  | v :: vs, r => by
    obtain ⟨t, hrest, ht⟩ := exists_spells_elements vs r
    obtain ⟨s, hfirst⟩ := v.exists_spells ht
    exact ⟨0x2C :: s, .element (token_cons (by decide) s) hfirst.behind_token hrest,
      delimited_cons isDelimiter_comma s⟩

/-- So has what follows a member. -/
theorem exists_spells_members :
    ∀ (ms : List (Body × Tree)) (r : Bytes), ∃ s, Spells (.members ms) s r ∧ Delimited s
  | [], r => ⟨0x7D :: r, .noMember (token_cons (by decide) _), delimited_cons isDelimiter_brace r⟩
  | (key, v) :: ms, r => by
    obtain ⟨t, hrest, ht⟩ := exists_spells_members ms r
    obtain ⟨s, hvalue⟩ := v.exists_spells ht
    exact ⟨_, .another (token_cons (by decide) _) (.member (token_cons (by decide) _)
      (token_cons (by decide) s) hvalue.behind_token) hrest, delimited_cons isDelimiter_comma _⟩

end

/-- **Every tree has a document.**  White space around it is allowed, and none is needed. -/
theorem Tree.exists_presents (v : Tree) : ∃ document, Presents document v := by
  obtain ⟨s, hs⟩ := v.exists_spells delimited_nil
  exact ⟨s, [], hs.behind_token, rfl⟩

/-- A document has one tree. -/
theorem Presents.unique {document : Bytes} {v v' : Tree} (h : Presents document v)
    (h' : Presents document v') : v = v' := by
  obtain ⟨r, hspells, -⟩ := h
  obtain ⟨r', hspells', -⟩ := h'
  exact (hspells.unique hspells').1

/-! ## What stands behind a text

What is cut off or appended behind a text changes nothing in front of it, with one exception: digits
behind a number belong to it. -/

/-- A text goes on with a token, or there is nothing but white space.  There is no third case,
however much white space it is. -/
theorem token_or_end (s : Bytes) : s.dropWhile isSpace = [] ∨ ∃ b t, Token s b t := by
  rcases hs : s.dropWhile isSpace with _ | ⟨b, t⟩
  · exact .inl rfl
  · exact .inr ⟨b, t, hs⟩

/-- A token is the next one whatever follows. -/
theorem Token.append {s t : Bytes} {b : UInt8} (h : Token s b t) (q : Bytes) :
    Token (s ++ q) b (t ++ q) := by
  rw [Token] at h ⊢
  rw [List.dropWhile_append, h]
  rfl

/-- The next token of a text stands in its first part, if that is more than white space. -/
theorem Token.eq_of_append {s t u q : Bytes} {b c : UInt8} (h : Token s b t)
    (h' : Token (s ++ q) c u) : b = c ∧ u = t ++ q := by
  obtain ⟨rfl, rfl⟩ := (h.append q).unique h'
  exact ⟨rfl, rfl⟩

/-- Where a value follows, its first byte is where the white space ends, and stays so whatever is
appended. -/
theorem Spells.dropWhile_append {v : Tree} {s r : Bytes}
    (h : Spells (.value v) (s.dropWhile isSpace) r) (q : Bytes) :
    (s ++ q).dropWhile isSpace = s.dropWhile isSpace ++ q := by
  obtain ⟨b, t, htoken, -⟩ := h.start
  rw [htoken, (Token.append htoken q : _ = _)]
  rfl

/-- There is no token where there are no bytes. -/
theorem Token.ne_nil {s t : Bytes} {b : UInt8} (h : Token s b t) : s ≠ [] := by
  rintro rfl
  cases h

/-- What follows an element is never nothing, as at least a bracket closes the array. -/
theorem Spells.elements_ne_nil {vs : List Tree} {s r : Bytes} (h : Spells (.elements vs) s r) :
    s ≠ [] := by
  cases h with
  | noElement h => exact h.ne_nil
  | element h => exact h.ne_nil

/-- What follows a member is never nothing, as at least a brace closes the object. -/
theorem Spells.members_ne_nil {ms : List (Body × Tree)} {s r : Bytes}
    (h : Spells (.members ms) s r) : s ≠ [] := by
  cases h with
  | noMember h => exact h.ne_nil
  | another h => exact h.ne_nil

/-- Whether the last token of a piece is a number, which what follows may carry on. -/
def Piece.endsInNumber : Piece → Bool
  | .value (.number _) => true
  | .member (_, .number _) => true
  | _ => false

/-- **A text stays one whatever follows**, if it does not end in a number.  White space, other
values or anything else may be appended. -/
theorem Spells.append {piece : Piece} {s r : Bytes} (h : Spells piece s r) (q : Bytes)
    (hr : piece.endsInNumber = true → r ≠ []) : Spells piece (s ++ q) (r ++ q) := by
  induction h with
  | null => exact .null
  | boolean hs => exact .boolean (by rw [hs, List.append_assoc])
  | @number n s r hs hends =>
    refine .number (by rw [hs, List.append_assoc]) fun b hb => ?_
    obtain ⟨c, t, rfl⟩ := List.exists_cons_of_ne_nil (hr rfl)
    exact hends b hb
  | string hs => exact .string (by rw [hs, List.cons_append, List.append_assoc, List.cons_append])
  | emptyArray hclose => exact .emptyArray (hclose.append q)
  | array hv hvs ih ih' =>
    exact .array (hv.dropWhile_append q ▸ ih fun _ => hvs.elements_ne_nil) (ih' nofun)
  | emptyObject hclose => exact .emptyObject (hclose.append q)
  | object hm hms ih ih' => exact .object (ih fun _ => hms.members_ne_nil) (ih' nofun)
  | noElement hclose => exact .noElement (hclose.append q)
  | element hcomma hv hvs ih ih' =>
    exact .element (hcomma.append q) (hv.dropWhile_append q ▸ ih fun _ => hvs.elements_ne_nil)
      (ih' nofun)
  | @member key v s t u r hquote hcolon hv ih =>
    have hquote := hquote.append q
    rw [List.append_assoc, List.cons_append] at hquote
    refine .member hquote (hcolon.append q) (hv.dropWhile_append q ▸ ih fun hnumber => hr ?_)
    cases v <;> exact hnumber
  | noMember hclose => exact .noMember (hclose.append q)
  | another hcomma hm hms ih ih' =>
    exact .another (hcomma.append q) (ih fun _ => hms.members_ne_nil) (ih' nofun)

end RunRecord.Json
