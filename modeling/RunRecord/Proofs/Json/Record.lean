import RunRecord.Proofs.Json.Number
import RunRecord.Report.Json

/-!
# Proofs/Json/Record — lists and records are read back

A list is read from an array whose elements are read from its own (`reads_listValue`).  For records
the two sides meet in `Spells`: a list of members **spells** a record if it goes through the
declared members in order, each either written with a value its reader reads or, where that is
allowed, left out.  What spells a record is read as that record (`reads_reader`), since in such a
list no name comes twice and no required one is missing.

Unlike a reader of JSON, the reader of a record never has the whole value before it.  So what is
assumed of its parts is that they read their values wherever these stand, and what is shown is that
it goes from one member to the next as they were written.  The two layouts are treated at once:
between tokens there is white space of some kind, and the reader does not look at it.
-/

namespace RunRecord.Json

open Reader Utf8

variable {α : Type}

/-! ## The first byte of a value

A list has to know whether another element comes, and an optional value whether it is there.  Both
look at one byte, so the first byte of every value matters. -/

/-- What the text of a value starts with: a byte that is neither white space nor a closing bracket,
and the letter `n` only for `null`. -/
def StartsAs (v : Json) (s : Bytes) : Prop :=
  ∃ b t, s = b :: t ∧ isSpace b = false ∧ b ≠ 0x5D ∧ (b = 0x6E → v = .null)

/-- What starts with another byte than these starts as it should. -/
theorem startsAs_cons {v : Json} {b : UInt8} (hspace : isSpace b = false) (hclose : b ≠ 0x5D)
    (hnull : b ≠ 0x6E) (t : Bytes) : StartsAs v (b :: t) :=
  ⟨b, t, rfl, hspace, hclose, fun h => absurd h hnull⟩

/-- A digit starts no other token. -/
theorem startsAs_digit {v : Json} {b : UInt8} (h : isDigit b = true) (t : Bytes) :
    StartsAs v (b :: t) := by
  have hne : ∀ c : UInt8, isDigit c = false → b ≠ c := by
    rintro c hc rfl
    rw [h] at hc
    cases hc
  refine startsAs_cons (Bool.eq_false_iff.2 fun hspace => ?_) (hne _ rfl) (hne _ rfl) t
  rw [(isDelimiter_of_isSpace hspace).1] at h
  cases h

/-- An integer starts as it should, with its sign or with a digit. -/
theorem startsAs_integerText (v : Json) (n : Int) (cs : List Char) :
    StartsAs v (encode (integerText n ++ cs)) := by
  unfold integerText
  split
  · exact startsAs_cons (b := 0x2D) (by decide) (by decide) (by decide) _
  · obtain ⟨c, ds, hds⟩ := List.exists_cons_of_ne_nil (Digits.digits_ne_nil n.natAbs)
    have hc : Digits.isDigit c = true := Digits.isDigit_of_mem_digits (hds ▸ List.mem_cons_self)
    obtain ⟨hchar, hdigit, -⟩ := isDigit_byte hc
    rw [hds, List.cons_append, encode_cons, hchar, List.singleton_append]
    exact startsAs_digit hdigit _

/-- **A value starts with a byte of its own.**  In particular none looks like the end of a list, and
only `null` looks like `null`. -/
theorem startsAs_write (layout : Layout) (depth : Nat) (v : Json) :
    StartsAs v (encode (write layout depth v)) := by
  cases v with
  | null => exact ⟨0x6E, _, rfl, by decide, by decide, fun _ => rfl⟩
  | boolean b =>
    cases b with
    | true => exact startsAs_cons (b := 0x74) (by decide) (by decide) (by decide) _
    | false => exact startsAs_cons (b := 0x66) (by decide) (by decide) (by decide) _
  | number significand exponent =>
    rw [write, numberText]
    split
    · simpa using startsAs_integerText (.number significand exponent) significand []
    · exact startsAs_integerText _ significand _
  | string s =>
    rw [write, encode_quoted]
    exact startsAs_cons (by decide) (by decide) (by decide) _
  | array vs =>
    cases vs with
    | nil => exact startsAs_cons (b := 0x5B) (by decide) (by decide) (by decide) _
    | cons v vs =>
      rw [write]
      exact startsAs_cons (b := 0x5B) (by decide) (by decide) (by decide) _
  | object ms =>
    cases ms with
    | nil => exact startsAs_cons (b := 0x7B) (by decide) (by decide) (by decide) _
    | cons m ms =>
      rw [write]
      exact startsAs_cons (b := 0x7B) (by decide) (by decide) (by decide) _

/-- An optional value is read from the value, if that is not `null`. -/
theorem reads_optional {x : Reader α} {v : Json} {a : α} (hv : v ≠ .null) (h : x.Reads v a) :
    (optional x).Reads v (some a) := by
  intro layout depth w r hw hr
  obtain ⟨b, s, hb, hspace, -, hnull⟩ := startsAs_write layout depth v
  have hrun := h layout depth [] r spaces_nil hr
  rw [hb, List.cons_append] at hrun ⊢
  rw [optional, run_lookAhead hw hspace, if_neg fun h => hv (hnull (Option.some.inj h))]
  exact run_bind_ok hrun

/-! ## Lists -/

section Elements

variable {item : Reader α} {s w r : Bytes} {a : α}

/-- An element that cannot be read fails the list. -/
theorem elementsRun_error {e : Fault} (h : item.run s = .error e) :
    elementsRun item s = .error e := by
  rw [elementsRun]
  split
  · next h' => rw [h] at h'; cases h'; rfl
  · next h' => rw [h] at h'; cases h'

/-- Behind an element, the next token says how the list goes on. -/
theorem elementsRun_ok (h : item.run s = .ok (a, r)) :
    elementsRun item s = match r.dropWhile isSpace with
      | [] => .error { cause := .cut .array, unread := 0 }
      | b :: t =>
        if b = 0x5D then .ok ([a], t)
        else if b = 0x2C then
          match t.dropWhile isSpace with
          | [] => .error { cause := .cut .value, unread := 0 }
          | c :: u =>
            if c = 0x5D then .error { cause := .malformed .trailingComma, unread := u.length }
            else (elementsRun item (c :: u)).map fun p => (a :: p.1, p.2)
        else .error { cause := .malformed .noCommaOrBracket, unread := t.length } := by
  rw [elementsRun]
  split
  · next h' => rw [h] at h'; cases h'
  next h' =>
  rw [h] at h'
  cases h'
  split
  · next hr => rw [hr]
  next hr =>
  rw [hr]
  dsimp only
  split
  · rfl
  split
  · split <;> next ht => rw [ht]
  · rfl

/-- An element with the closing bracket behind it is the last. -/
theorem elementsRun_last (h : item.run s = .ok (a, w ++ 0x5D :: r)) (hw : Spaces w) :
    elementsRun item s = .ok ([a], r) := by
  rw [elementsRun_ok h, dropWhile_spaces hw (by decide)]
  exact if_pos rfl

/-- An element with a comma behind it is followed by the next. -/
theorem elementsRun_more {w' : Bytes} {b : UInt8}
    (h : item.run s = .ok (a, w ++ 0x2C :: (w' ++ b :: r))) (hw : Spaces w) (hw' : Spaces w')
    (hb : isSpace b = false) (hclose : b ≠ 0x5D) :
    elementsRun item s = (elementsRun item (b :: r)).map fun p => (a :: p.1, p.2) := by
  rw [elementsRun_ok h, dropWhile_spaces hw (by decide)]
  dsimp only
  rw [if_neg (by decide), if_pos rfl, dropWhile_spaces hw' hb]
  exact if_neg hclose

end Elements

/-- The elements of an array, up to and with its closing bracket. -/
theorem elementsRun_write {item : Reader α} {f : α → Json} (layout : Layout) (depth : Nat)
    {w : Bytes} (hw : Spaces w) (r : Bytes) {a : α} {as : List α}
    (h : ∀ b ∈ a :: as, item.Reads (f b) b) :
    elementsRun item (encode (write layout depth (f a)) ++
      (encode (writeElements layout depth (as.map f)) ++ (w ++ 0x5D :: r))) = .ok (a :: as, r) := by
  induction as generalizing a with
  | nil =>
    rw [List.map_nil, writeElements, encode_nil, List.nil_append]
    exact elementsRun_last (h a List.mem_cons_self layout depth [] _ spaces_nil
      (delimited_spaces hw isDelimiter_bracket r)) hw
  | cons b as ih =>
    obtain ⟨c, s, hc, hspace, hclose, -⟩ := startsAs_write layout depth (f b)
    have hrest := ih fun d hd => h d (List.mem_cons_of_mem _ hd)
    have hcomma : encode (writeElements layout depth ((b :: as).map f)) ++ (w ++ 0x5D :: r)
        = [] ++ 0x2C :: (encode (layout.newline depth) ++ c ::
            (s ++ (encode (writeElements layout depth (as.map f)) ++ (w ++ 0x5D :: r)))) := by
      rw [List.map_cons, writeElements, encode_cons, encode_append, encode_append, hc]
      simp only [List.append_assoc, List.cons_append, List.nil_append]
      rfl
    have hitem : ∀ r', Delimited r' →
        item.run (encode (write layout depth (f a)) ++ r') = .ok (a, r') := fun r' hr' =>
      h a List.mem_cons_self layout depth [] r' spaces_nil hr'
    rw [hc, List.cons_append] at hrest
    rw [hcomma, elementsRun_more (hitem _ (delimited_cons isDelimiter_comma _)) spaces_nil
      (spaces_newline layout depth) hspace hclose, hrest]
    rfl

/-- **A list is read from an array of what its elements are read from.**  The empty list is a case
of its own, since no element is tried there. -/
theorem reads_listValue {item : Reader α} (f : α → Json) (as : List α)
    (h : ∀ a ∈ as, item.Reads (f a) a) : (listValue item).Reads (.array (as.map f)) as := by
  intro layout depth w r hw _
  cases as with
  | nil =>
    have hempty : encode (write layout depth (.array (List.map f []))) ++ r
        = 0x5B :: ([] ++ 0x5D :: r) := by
      rw [List.map_nil, write]
      rfl
    rw [hempty, listValue, run_value hw (by decide), if_pos rfl, run_drop_bind,
      run_lookAhead spaces_nil (by decide)]
    rfl
  | cons a as =>
    obtain ⟨c, s, hc, hspace, hclose, -⟩ := startsAs_write layout (depth + 1) (f a)
    have hrun := elementsRun_write layout (depth + 1) (spaces_newline layout depth) r h
    have hbracket : encode (write layout depth (.array ((a :: as).map f))) ++ r
        = 0x5B :: (encode (layout.newline (depth + 1)) ++ c ::
            (s ++ (encode (writeElements layout (depth + 1) (as.map f)) ++
              (encode (layout.newline depth) ++ 0x5D :: r)))) := by
      rw [List.map_cons, write, encode_cons, encode_append, encode_append, encode_append,
        encode_append, hc]
      simp only [List.append_assoc, List.cons_append]
      rfl
    rw [hc, List.cons_append] at hrun
    rw [hbracket, listValue, run_value hw (by decide), if_pos rfl, run_drop_bind,
      run_lookAhead (spaces_newline layout (depth + 1)) hspace]
    simp only [hclose, if_false]
    exact hrun

/-! ## Members -/

/-- Between a key and its value stands a colon, then white space. -/
theorem encode_colon (layout : Layout) :
    ∃ w, encode layout.colon = 0x3A :: w ∧ Spaces w := by
  cases layout with
  | compact => exact ⟨[], rfl, spaces_nil⟩
  | indented =>
    refine ⟨[0x20], rfl, ?_⟩
    rintro b hb
    obtain rfl := List.mem_singleton.1 hb
    rfl

/-- The bytes of a member are those of its key, of the colon and of its value. -/
theorem encode_writeMember (layout : Layout) (depth : Nat) (key : String) (v : Json) (r : Bytes) :
    encode (writeMember layout depth (key, v)) ++ r
      = quoteByte ::
          (closed key ++ (encode layout.colon ++ (encode (write layout depth v) ++ r))) := by
  rw [writeMember, encode_append, encode_append, encode_quoted]
  simp only [List.append_assoc, List.cons_append]

namespace Shape

variable {shape : Shape α}

/-- The member found under a name has that name. -/
theorem name_of_member? {key : String} {m : Member α} (h : shape.member? key = some m) :
    m.name = key := by
  simpa using List.find?_some h

/-- **An entry whose name has not been seen is stored.**  What it is stored as is up to the member;
its name is among those seen from here on. -/
theorem run_entry {key : String} {m : Member α} (hm : shape.member? key = some m)
    {seen : List String} (hseen : key ∉ seen) {v : Json} {f : α → α} (hv : m.read.Reads v f)
    (a : α) (layout : Layout) (depth : Nat) {r : Bytes} (hr : Delimited r) :
    (shape.entry a seen).run
        (closed key ++ (encode layout.colon ++ (encode (write layout depth v) ++ r)))
      = .ok (.stored (f a) (key :: seen), r) := by
  obtain ⟨w, hcolon, hw⟩ := encode_colon layout
  have hname := name_of_member? hm
  have hrun : colon.run (encode layout.colon ++ (encode (write layout depth v) ++ r))
      = .ok ((), w ++ (encode (write layout depth v) ++ r)) := by
    rw [hcolon, List.cons_append]
    exact run_lookAhead spaces_nil (show isSpace 0x3A = false by decide) _ _
  have hnot : seen.contains m.name = false := by simpa [hname] using hseen
  rw [entry, run_bind_ok (run_text_closed key _)]
  simp only [hm, hnot]
  rw [if_neg (by decide), run_bind_ok hrun, run_bind_ok (hv layout depth w r hw hr), hname]
  rfl

/-- Where no name is declared twice, a member is found under its name.  The shapes of the report are
checked for this once, by computation. -/
theorem find?_eq_some_of_nodup {members : List (Member α)} (hn : (members.map (·.name)).Nodup)
    {m : Member α} (hm : m ∈ members) : members.find? (·.name == m.name) = some m := by
  induction members with
  | nil => cases hm
  | cons m' members ih =>
    rw [List.map_cons, List.nodup_cons] at hn
    rcases List.mem_cons.1 hm with rfl | hm
    · rw [List.find?_cons_of_pos (by simp)]
    · have hne : m'.name ≠ m.name := by
        intro h
        exact hn.1 (h ▸ List.mem_map_of_mem hm)
      rw [List.find?_cons_of_neg (by simpa using hne), ih hn.2 hm]

/-! ## Objects

A key counts as seen before its value is read.  So the loop carries the record so far and the seen
names, and the members still to come must be new to it. -/

section Entries

variable {s w r : Bytes} {a b : α} {seen seen' : List String}

/-- An entry that cannot be read fails the object. -/
theorem entriesRun_error {e : Fault} (h : (shape.entry a seen).run s = .error e) :
    shape.entriesRun a seen s = .error e := by
  rw [entriesRun]
  split
  · next h' => rw [h] at h'; cases h'; rfl
  · next h' => rw [h] at h'; cases h'
  · next h' => rw [h] at h'; cases h'

/-- A name that comes up again fails the object. -/
theorem entriesRun_repeated {name : String}
    (h : (shape.entry a seen).run s = .ok (.repeated name, r)) :
    shape.entriesRun a seen s = .ok (.error (.repeatedMember name), r) := by
  rw [entriesRun]
  split
  · next h' => rw [h] at h'; cases h'
  · next h' => rw [h] at h'; cases h'; rfl
  · next h' => rw [h] at h'; cases h'

/-- Behind an entry, the next token says how the object goes on. -/
theorem entriesRun_stored (h : (shape.entry a seen).run s = .ok (.stored b seen', r)) :
    shape.entriesRun a seen s = match r.dropWhile isSpace with
      | [] => .error { cause := .cut .object, unread := 0 }
      | c :: t =>
        if c = 0x7D then .ok (.ok (b, seen'), c :: t)
        else if c = 0x2C then
          match t.dropWhile isSpace with
          | [] => .error { cause := .cut .value, unread := 0 }
          | d :: u =>
            if d = quoteByte then shape.entriesRun b seen' u
            else if d = 0x7D then .error { cause := .malformed .trailingComma, unread := u.length }
            else .error { cause := .malformed .keyNotText, unread := u.length }
        else .error { cause := .malformed .noCommaOrBrace, unread := t.length } := by
  rw [entriesRun]
  split
  · next h' => rw [h] at h'; cases h'
  · next h' => rw [h] at h'; cases h'
  next h' =>
  rw [h] at h'
  cases h'
  split
  · next hr => rw [hr]
  next hr =>
  rw [hr]
  dsimp only
  split
  · rfl
  split
  · split <;> next ht => rw [ht]
  · rfl

/-- An entry with the closing brace behind it is the last. -/
theorem entriesRun_last (h : (shape.entry a seen).run s = .ok (.stored b seen', w ++ 0x7D :: r))
    (hw : Spaces w) : shape.entriesRun a seen s = .ok (.ok (b, seen'), 0x7D :: r) := by
  rw [entriesRun_stored h, dropWhile_spaces hw (by decide)]
  exact if_pos rfl

/-- An entry with a comma and a quote behind it is followed by the next. -/
theorem entriesRun_more {w' : Bytes}
    (h : (shape.entry a seen).run s
      = .ok (.stored b seen', w ++ 0x2C :: (w' ++ quoteByte :: r)))
    (hw : Spaces w) (hw' : Spaces w') :
    shape.entriesRun a seen s = shape.entriesRun b seen' r := by
  rw [entriesRun_stored h, dropWhile_spaces hw (by decide)]
  dsimp only
  rw [if_neg (by decide), if_pos rfl, dropWhile_spaces hw' (by decide)]
  exact if_pos rfl

end Entries

/-- **What the members of an object make of a record**, stored one after another.  Here every member
is declared, as the writer has no others. -/
inductive Fills (shape : Shape α) : List (String × Json) → α → α → Prop
  | nil {a : α} : Fills shape [] a a
  | cons {key : String} {v : Json} {ms : List (String × Json)} {m : Member α} {f : α → α}
      {a b : α} :
    shape.member? key = some m → m.read.Reads v f → Fills shape ms (f a) b →
      Fills shape ((key, v) :: ms) a b

/-- The entries of an object, from behind the opening quote of the first key up to the closing
brace. -/
theorem entriesRun_write (layout : Layout) (depth : Nat) {w : Bytes} (hw : Spaces w) (r : Bytes)
    {key : String} {v : Json} {ms : List (String × Json)} {a b : α} {seen : List String}
    (h : shape.Fills ((key, v) :: ms) a b) (hn : (((key, v) :: ms).map Prod.fst).Nodup)
    (hseen : ∀ k ∈ ((key, v) :: ms).map Prod.fst, k ∉ seen) :
    shape.entriesRun a seen
        (closed key ++ (encode layout.colon ++ (encode (write layout depth v) ++
          (encode (writeMembers layout depth ms) ++ (w ++ 0x7D :: r)))))
      = .ok (.ok (b, (((key, v) :: ms).map Prod.fst).reverse ++ seen), 0x7D :: r) := by
  induction ms generalizing key v a seen with
  | nil =>
    obtain _ | ⟨hm, hv, ⟨⟩⟩ := h
    rw [writeMembers, encode_nil, List.nil_append]
    exact entriesRun_last (run_entry hm (hseen key List.mem_cons_self) hv a layout depth
      (delimited_spaces hw isDelimiter_brace r)) hw
  | cons m' ms ih =>
    obtain ⟨key', v'⟩ := m'
    obtain _ | ⟨hm, hv, hrest⟩ := h
    rw [List.map_cons, List.nodup_cons] at hn
    have hcomma : encode (writeMembers layout depth ((key', v') :: ms)) ++ (w ++ 0x7D :: r)
        = [] ++ 0x2C :: (encode (layout.newline depth) ++ quoteByte :: (closed key' ++
            (encode layout.colon ++ (encode (write layout depth v') ++
              (encode (writeMembers layout depth ms) ++ (w ++ 0x7D :: r)))))) := by
      rw [writeMembers, encode_cons, encode_append, encode_append, List.append_assoc,
        List.append_assoc, List.append_assoc, encode_writeMember]
      rfl
    have hkeys : ∀ k ∈ ((key', v') :: ms).map Prod.fst, k ∉ key :: seen := fun k hk => by
      rw [List.mem_cons, not_or]
      refine ⟨?_, hseen k (List.mem_cons_of_mem _ hk)⟩
      rintro rfl
      exact hn.1 hk
    rw [hcomma, entriesRun_more (run_entry hm (hseen key List.mem_cons_self) hv a layout depth
      (delimited_cons isDelimiter_comma _)) spaces_nil (spaces_newline layout depth),
      ih hrest hn.2 hkeys]
    simp

/-- Nothing is missing where every required name has been seen.  The names that may be missing are
not looked at. -/
theorem missing?_eq_none {seen : List String}
    (h : ∀ m ∈ shape.members, m.required = true → m.name ∈ seen) : shape.missing? seen = none := by
  rw [missing?, Option.map_eq_none_iff, List.find?_eq_none]
  intro m hm
  simp only [Bool.and_eq_true, Bool.not_eq_true', not_and, Bool.not_eq_false]
  intro hrequired
  simpa using h m hm hrequired

/-- A record is read from an object that fills it, names no member twice and none too few.  In which
order it names them does not matter here. -/
theorem reads_object {ms : List (String × Json)} {a : α} (h : shape.Fills ms shape.blank a)
    (hn : (ms.map Prod.fst).Nodup)
    (hrequired : ∀ m ∈ shape.members, m.required = true → m.name ∈ ms.map Prod.fst) :
    shape.reader.Reads (.object ms) a := by
  intro layout depth w r hw _
  have hcomplete : ∀ seen, (∀ n ∈ ms.map Prod.fst, n ∈ seen) →
      (shape.complete a seen).run r = .ok (a, r) := fun seen hall => by
    rw [complete, missing?_eq_none fun m hm hr => hall _ (hrequired m hm hr)]
    rfl
  cases ms with
  | nil =>
    obtain ⟨⟩ := h
    have hempty : encode (write layout depth (.object [])) ++ r = 0x7B :: ([] ++ 0x7D :: r) := by
      rw [write]
      rfl
    rw [hempty, reader, run_value hw (by decide), if_pos rfl, run_drop_bind,
      fromObject, run_lookAhead spaces_nil (by decide)]
    simp only [if_true]
    rw [run_drop_bind]
    exact hcomplete [] fun _ hn => absurd hn List.not_mem_nil
  | cons m ms =>
    obtain ⟨key, v⟩ := m
    have hentries : shape.entries.run _ = _ :=
      entriesRun_write layout (depth + 1) (spaces_newline layout depth) r h hn
        fun _ _ hk => absurd hk List.not_mem_nil
    have hbrace : encode (write layout depth (.object ((key, v) :: ms))) ++ r
        = 0x7B :: (encode (layout.newline (depth + 1)) ++ quoteByte :: (closed key ++
            (encode layout.colon ++ (encode (write layout (depth + 1) v) ++
              (encode (writeMembers layout (depth + 1) ms) ++
                (encode (layout.newline depth) ++ 0x7D :: r)))))) := by
      rw [write, encode_cons, encode_append, encode_append, encode_append, encode_append,
        List.append_assoc, List.append_assoc, List.append_assoc, List.append_assoc,
        List.append_assoc, encode_writeMember]
      rfl
    have hclosing : closingBrace.run (0x7D :: r) = .ok ((), r) := by
      rw [closingBrace]
      exact run_lookAhead spaces_nil (show isSpace 0x7D = false by decide) _ _
    rw [hbrace, reader, run_value hw (by decide), if_pos rfl, run_drop_bind,
      fromObject, run_lookAhead (spaces_newline layout (depth + 1)) (by decide)]
    simp only [show quoteByte ≠ 0x7D by decide, if_false, if_true]
    rw [run_drop_bind, run_bind_ok hentries, run_bind_ok hclosing]
    exact hcomplete _ fun n hn => List.mem_append_left _ (List.mem_reverse.2 hn)

/-! ## Records written in order

The writer goes through the fields of a record in declared order, so it is enough to walk down the
two lists, of what is declared and of what is written, in step. -/

/-- **Members that spell a record**: each declared member in turn is written with a value that is
read, or left out if it may be. -/
inductive Spells : List (Member α) → List (String × Json) → α → α → Prop
  | nil {a : α} : Spells [] [] a a
  | written {m : Member α} {members : List (Member α)} {v : Json} {ms : List (String × Json)}
      {f : α → α} {a b : α} :
    m.read.Reads v f → Spells members ms (f a) b → Spells (m :: members) ((m.name, v) :: ms) a b
  | omitted {m : Member α} {members : List (Member α)} {ms : List (String × Json)} {a b : α} :
    m.required = false → Spells members ms a b → Spells (m :: members) ms a b

namespace Spells

variable {members : List (Member α)} {ms : List (String × Json)} {a b : α}

/-- What is written are some of the declared names, in their order. -/
theorem keys_sublist (h : Spells members ms a b) :
    (ms.map Prod.fst).Sublist (members.map (·.name)) := by
  induction h with
  | nil => exact List.Sublist.refl _
  | written _ _ ih => exact ih.cons_cons _
  | omitted _ _ ih => exact ih.cons _

/-- No required name is left out. -/
theorem required_mem (h : Spells members ms a b) {m : Member α} (hm : m ∈ members)
    (hrequired : m.required = true) : m.name ∈ ms.map Prod.fst := by
  induction h with
  | nil => cases hm
  | written _ _ ih =>
    rcases List.mem_cons.1 hm with rfl | hm
    · exact List.mem_cons_self
    · exact List.mem_cons_of_mem _ (ih hm)
  | omitted hoptional _ ih =>
    rcases List.mem_cons.1 hm with rfl | hm
    · rw [hrequired] at hoptional
      cases hoptional
    · exact ih hm

/-- What spells a record fills it, if the shape finds the members under their names. -/
theorem fills (h : Spells members ms a b)
    (hfind : ∀ m ∈ members, shape.member? m.name = some m) : shape.Fills ms a b := by
  induction h with
  | nil => exact .nil
  | written hread _ ih =>
    exact .cons (hfind _ List.mem_cons_self) hread
      (ih fun m hm => hfind m (List.mem_cons_of_mem _ hm))
  | omitted _ _ ih => exact ih fun m hm => hfind m (List.mem_cons_of_mem _ hm)

/-! ### Ways to write a member

Each way in which the report writes a member has its lemma.  To show that a type is read back is
then to name the ways of its members, in order. -/

variable {β : Type} {name : String} {x : Reader β} {store : β → α → α}

/-- A member that is always written. -/
theorem required {v : Json} {y : β} (hv : x.Reads v y) (h : Spells members ms (store y a) b) :
    Spells (Json.required name x store :: members) ([(name, v)] ++ ms) a b :=
  written (hv.map store) h

/-- A member that may be left out but is always written. -/
theorem always {v : Json} {y : β} (hv : x.Reads v y) (h : Spells members ms (store y a) b) :
    Spells (defaulted name x store :: members) ([(name, v)] ++ ms) a b :=
  written (hv.map store) h

/-- A member that is left out where it would change nothing.  The condition under which it is left
out is the writer's; that it changes nothing is asked of the store. -/
theorem writtenUnless (absent : Bool) {v : Json} {y : β} (hv : x.Reads v y)
    (hdefault : absent = true → store y a = a) (h : Spells members ms (store y a) b) :
    Spells (defaulted name x store :: members) (memberUnless absent name v ++ ms) a b := by
  cases absent with
  | true =>
    rw [hdefault rfl] at h
    exact omitted rfl h
  | false => exact always hv h

/-- A string that is left out where it is empty. -/
theorem textUnlessEmpty {store : String → α → α} (s : String) (hdefault : store "" a = a)
    (h : Spells members ms (store s a) b) :
    Spells (defaulted name textValue store :: members)
      (memberUnless (s == "") name (.string s) ++ ms) a b := by
  refine writtenUnless _ (reads_textValue s) (fun hempty => ?_) h
  rw [eq_of_beq hempty, hdefault]

/-- A flag that is left out where it is false. -/
theorem flag {store : Bool → α → α} (flag : Bool) (hdefault : store false a = a)
    (h : Spells members ms (store flag a) b) :
    Spells (defaulted name booleanValue store :: members)
      (memberUnless (!flag) name (.boolean flag) ++ ms) a b := by
  refine writtenUnless _ (reads_booleanValue flag) (fun hfalse => ?_) h
  rw [Bool.not_eq_true'] at hfalse
  rw [hfalse, hdefault]

/-- A list that is left out where it is empty. -/
theorem listUnlessEmpty {store : List β → α → α} (f : β → Json) (ys : List β)
    (hf : ∀ y ∈ ys, x.Reads (f y) y) (hdefault : store [] a = a)
    (h : Spells members ms (store ys a) b) :
    Spells (defaulted name (listValue x) store :: members)
      (memberUnless ys.isEmpty name (.array (ys.map f)) ++ ms) a b := by
  refine writtenUnless _ (reads_listValue f ys hf) (fun hempty => ?_) h
  rw [List.isEmpty_iff.1 hempty, hdefault]

/-- A member that is written if there is a value for it. -/
theorem ofOption {store : Option β → α → α} (value : β → Json) (y : Option β)
    (hv : ∀ z, x.Reads (value z) z) (hnull : ∀ z, value z ≠ .null) (hdefault : store none a = a)
    (h : Spells members ms (store y a) b) :
    Spells (defaulted name (optional x) store :: members) (memberOf? name value y ++ ms) a b := by
  cases y with
  | none =>
    rw [hdefault] at h
    exact omitted rfl h
  | some z => exact always (reads_optional (hnull z) (hv z)) h

end Spells

/-- **A record is read from what spells it**, whatever the layout and wherever it stands. -/
theorem reads_reader {ms : List (String × Json)} {a : α}
    (hnodup : (shape.members.map (·.name)).Nodup) (h : Spells shape.members ms shape.blank a) :
    shape.reader.Reads (.object ms) a := by
  have hfind : ∀ m ∈ shape.members, shape.member? m.name = some m := fun m hm =>
    find?_eq_some_of_nodup hnodup hm
  exact reads_object (h.fills hfind) (hnodup.sublist h.keys_sublist) fun m hm hr =>
    h.required_mem hm hr

end Shape

/-! ## Documents -/

/-- **A document is decoded to what its value is read as.**  Behind the value there is nothing, so
nothing is left over. -/
theorem decode_render {x : Reader α} {v : Json} {a : α} (h : x.Reads v a) (layout : Layout) :
    decode x (encode (v.render layout)) = .ok a := by
  have hrun : x.run (encode (v.render layout)) = .ok (a, []) := by
    rw [render]
    simpa using h layout 0 [] [] spaces_nil delimited_nil
  have hwhole : (whole x).run (encode (v.render layout)) = .ok (a, []) := by
    rw [whole, run_bind_ok hrun]
    rfl
  rw [decode, hwhole]

end RunRecord.Json
