import RunRecord.Proofs.Json.Skip

/-!
# Proofs/Json/Escape — what a string says

A string **says** a text if its bytes, with the escapes replaced, are the UTF-8 of that text.  Not
every string of the grammar says something: surrogates have to come in pairs.  A string is read as
what it says (`Body.Says.run_text`), and whatever is read as a string is said by one
(`exists_of_run_text`).

The readers of strings come in two kinds.  The one that passes over strings looks at the form of an
escape only; the one that keeps them has to make characters of it, and refuses what makes none.
What is said here is therefore narrower than `IsBody`: every string that says something is a body,
but not the other way round.
-/

namespace RunRecord.Json

open Reader

/-! ## What a string says

Two relations and not a function, since what a string says depends on where it ends and whether its
bytes are UTF-8 at all, and a reader gives up at different places for different reasons. -/

/-- What may stand behind a backslash, and the bytes it stands for: a letter, a code unit of its
own, or two that make a pair. -/
inductive Escape : Bytes → Bytes → Prop
  | short {b c : UInt8} : shortEscape? b = some c → Escape [b] [c]
  | unicode {a b c d : UInt8} {n : Nat} : hexValue4? a b c d = some n → isTrailing n = false →
    isLeading n = false → Escape [0x75, a, b, c, d] (Utf8.encodeCode n)
  | pair {a b c d a' b' c' d' : UInt8} {n m : Nat} : hexValue4? a b c d = some n →
    isLeading n = true → hexValue4? a' b' c' d' = some m → isTrailing m = true →
    Escape [0x75, a, b, c, d, backslash, 0x75, a', b', c', d']
      (Utf8.encodeCode (joinSurrogates n m))

/-- The bytes of a string with its escapes replaced. -/
inductive Unescapes : Bytes → Bytes → Prop
  | nil : Unescapes [] []
  | plain {b : UInt8} {s t : Bytes} : IsPlain b → Unescapes s t → Unescapes (b :: s) (b :: t)
  | escape {e bytes s t : Bytes} :
    Escape e bytes → Unescapes s t → Unescapes (backslash :: (e ++ s)) (bytes ++ t)

/-- **What the body of a string says**: the characters of its bytes with the escapes replaced.  A
body whose bytes are no UTF-8 then says nothing. -/
def Body.Says (body : Body) (s : String) : Prop :=
  ∃ bytes, Unescapes body.bytes bytes ∧ Utf8.decode bytes = (s.toList, [])

/-! ## Escapes -/

/-- An escape has the form the grammar asks for. -/
theorem Escape.isBody {e bytes s : Bytes} (h : Escape e bytes) (hs : IsBody s) :
    IsBody (backslash :: (e ++ s)) := by
  cases h with
  | short hb => exact .short (by rw [hb]; rfl) hs
  | unicode hn => exact .unicode (by rw [hn]; rfl) hs
  | pair hn _ hm => exact .unicode (by rw [hn]; rfl) (.unicode (by rw [hm]; rfl) hs)

/-- What can be unescaped has the form the grammar asks for. -/
theorem Unescapes.isBody {s t : Bytes} (h : Unescapes s t) : IsBody s := by
  induction h with
  | nil => exact .nil
  | plain hb _ ih => exact .plain hb ih
  | escape he _ ih => exact he.isBody ih

/-- Four hexadecimal digits are read as their number. -/
theorem run_hex4 {a b c d : UInt8} {n : Nat} (h : hexValue4? a b c d = some n) (r : Bytes) :
    hex4.run (a :: b :: c :: d :: r) = .ok (n, r) := by
  simp only [hex4, h]

/-- No code unit both opens and closes a pair. -/
theorem isTrailing_of_isLeading {n : Nat} (h : isLeading n = true) : isTrailing n = false := by
  simp only [isLeading, Bool.and_eq_true, decide_eq_true_eq] at h
  simp only [isTrailing, Bool.and_eq_false_iff, decide_eq_false_iff_not]
  omega

/-- **An escape is read.**  The three kinds of escape are told apart by the reader as they are in
the relation. -/
theorem Escape.run {e bytes : Bytes} (h : Escape e bytes) (r : Bytes) :
    escape.run (e ++ r) = .ok (bytes, r) := by
  cases h with
  | @short b c hb =>
    have hne : b ≠ 0x75 := by
      rintro rfl
      cases hb
    rw [List.singleton_append, escape, run_bind_ok (run_take b r)]
    simp only [hne, if_false, hb]
    rfl
  | unicode hn htrailing hleading =>
    rw [escape]
    simp only [List.cons_append, List.nil_append]
    rw [run_bind_ok (run_take 0x75 _)]
    simp only [if_true]
    rw [unicodeEscape, run_bind_ok (run_hex4 hn r), htrailing, hleading]
    rfl
  | pair hn hleading hm htrailing =>
    rw [escape]
    simp only [List.cons_append, List.nil_append]
    rw [run_bind_ok (run_take 0x75 _)]
    simp only [if_true]
    rw [unicodeEscape, run_bind_ok (run_hex4 hn _), isTrailing_of_isLeading hleading, hleading]
    simp only [if_true]
    rw [if_neg (by decide)]
    have hslash : ∀ t, (pairByte backslash).run (backslash :: t) = .ok ((), t) := fun _ => rfl
    have hu : ∀ t, (pairByte 0x75).run (0x75 :: t) = .ok ((), t) := fun _ => rfl
    rw [run_bind_ok (hslash _), run_bind_ok (hu _), run_bind_ok (run_hex4 hm r), htrailing]
    rfl

/-- Nothing but the byte asked for is passed over within a pair. -/
theorem eq_of_run_pairByte {b : UInt8} {s r : Bytes} {u : Unit}
    (h : (pairByte b).run s = .ok (u, r)) : s = b :: r := by
  obtain h | ⟨c, t, hs, h⟩ := exists_of_run_take_bind h
  · cases h
  · dsimp only at h
    split at h
    · next hc =>
      cases h
      rw [hs, hc]
    · cases h

/-- **What is read as an escape is one.**  Of the code units only the first halves want another
behind them. -/
theorem exists_of_run_escape {s r bytes : Bytes} (h : escape.run s = .ok (bytes, r)) :
    ∃ e, s = e ++ r ∧ Escape e bytes := by
  obtain h | ⟨b, t, hs, h⟩ := exists_of_run_take_bind h
  · cases h
  dsimp only at h
  split at h
  · next hb =>
    obtain ⟨n, t', hn, h⟩ := exists_of_run_bind_eq_ok h
    obtain ⟨a, b', c, d, ht, hvalue⟩ := exists_of_run_hex4 hn
    split at h
    · cases h
    next htrailing =>
    split at h
    · next hleading =>
      obtain ⟨_, t₁, hslash, h⟩ := exists_of_run_bind_eq_ok h
      obtain ⟨_, t₂, hu, h⟩ := exists_of_run_bind_eq_ok h
      obtain ⟨m, t₃, hm, h⟩ := exists_of_run_bind_eq_ok h
      obtain ⟨e, f, g, i, ht', hvalue'⟩ := exists_of_run_hex4 hm
      split at h
      · next htrailing' =>
        rw [run_pure, Except.ok.injEq, Prod.mk.injEq] at h
        obtain ⟨rfl, rfl⟩ := h
        refine ⟨_, ?_, .pair hvalue hleading hvalue' htrailing'⟩
        rw [hs, hb, ht, eq_of_run_pairByte hslash, eq_of_run_pairByte hu, ht']
        rfl
      · cases h
    · next hleading =>
      cases h
      refine ⟨_, ?_, .unicode hvalue (Bool.eq_false_iff.2 htrailing) (Bool.eq_false_iff.2 hleading)⟩
      rw [hs, hb, ht]
      rfl
  · split at h
    · next hshort =>
      cases h
      exact ⟨_, hs, .short hshort⟩
    · cases h

/-! ## Strings -/

/-- The bytes of a string are read up to its closing quote, with the escapes replaced. -/
theorem textRun_unescapes {body bytes : Bytes} (h : Unescapes body bytes) (r : Bytes) :
    textRun (body ++ quoteByte :: r) = .ok (bytes, r) := by
  induction h with
  | nil => exact textRun_quote r
  | plain hb _ ih =>
    rw [List.cons_append, textRun_plain hb, ih]
    rfl
  | escape he _ ih =>
    rw [List.cons_append, List.append_assoc, textRun_escape (he.run _), ih]
    rfl

/-- What is read as the bytes of a string are those of one, up to its closing quote. -/
theorem exists_of_textRun {s r bytes : Bytes} (h : textRun s = .ok (bytes, r)) :
    ∃ body, s = body ++ quoteByte :: r ∧ Unescapes body bytes := by
  fun_induction textRun s generalizing bytes r with
  | case1 => cases h
  | case2 =>
    cases h
    exact ⟨[], rfl, .nil⟩
  | case3 => cases h
  | case4 _ _ _ he _ ih =>
    obtain ⟨_, ht, hp⟩ := exists_of_map_eq_ok h
    cases hp
    obtain ⟨e, rfl, hescape⟩ := exists_of_run_escape he
    obtain ⟨body, rfl, hbody⟩ := ih ht
    exact ⟨backslash :: (e ++ body), by rw [List.cons_append, List.append_assoc],
      .escape hescape hbody⟩
  | case5 => cases h
  | case6 b _ hquote hslash hcontrol ih =>
    obtain ⟨_, ht, hp⟩ := exists_of_map_eq_ok h
    cases hp
    obtain ⟨body, rfl, hbody⟩ := ih ht
    exact ⟨b :: body, rfl, .plain ⟨hquote, hslash, by simpa using hcontrol⟩ hbody⟩

/-- **A string is read as what it says**, from behind its opening quote.  The bytes are put together
first and are read as UTF-8 then, which they are. -/
theorem Body.Says.run_text {body : Body} {s : String} (h : body.Says s) (r : Bytes) :
    text.run (body.bytes ++ quoteByte :: r) = .ok (s, r) := by
  obtain ⟨bytes, hbytes, hdecode⟩ := h
  have htext : textBytes.run (body.bytes ++ quoteByte :: r) = .ok (bytes, r) :=
    textRun_unescapes hbytes r
  rw [text, run_bind_ok htext, hdecode]
  exact congrArg (fun u => Except.ok (u, r)) String.ofList_toList

/-- **What is read as a string is said by one.**  So the reader makes up nothing: its string is the
one that the bytes up to the quote say. -/
theorem exists_of_run_text {s r : Bytes} {string : String} (h : text.run s = .ok (string, r)) :
    ∃ body : Body, s = body.bytes ++ quoteByte :: r ∧ body.Says string := by
  obtain ⟨bytes, t, htext, h⟩ := exists_of_run_bind_eq_ok h
  obtain ⟨body, hs, hbody⟩ := exists_of_textRun htext
  split at h
  · next cs hdecode =>
    cases h
    exact ⟨⟨body, hbody.isBody⟩, hs, bytes, hbody, by rw [hdecode, String.toList_ofList]⟩
  · cases h

/-- A string says one thing, since it is read as what it says. -/
theorem Body.Says.unique {body : Body} {s s' : String} (h : body.Says s) (h' : body.Says s') :
    s = s' := by
  have hrun := h.run_text []
  rw [h'.run_text []] at hrun
  cases hrun
  rfl

end RunRecord.Json
