import RunRecord.Json.Scalar

/-!
# Json/Skip — passing over a value of any kind

A value nobody asked for still has to be grammatical.  Its numbers may be of any size and its
strings may hold anything that is escaped or quoted properly.  Open arrays and objects are kept on a
list, so values may be nested to any depth.

That the list is kept by hand, and no recursion is used, is what lets values be nested without a
limit here, while the values that a report knows are nested as deep as a report is.
-/

namespace RunRecord.Json

open Reader

/-! ## Strings -/

/-- Passes over what follows a backslash. -/
def skipEscape : Reader Unit := do
  match ← take with
  | none => fail (.cut .text)
  | some b =>
    if b = 0x75 then do
      let _ ← hex4
    else if (shortEscape? b).isSome then pure ()
    else fail (.malformed .badEscape)

/-- Passes over a string up to its closing quote. -/
def skipTextRun (s : Bytes) : Except Fault (Unit × Bytes) :=
  match s with
  | [] => .error { cause := .cut .text, unread := 0 }
  | b :: r =>
    if b = quoteByte then .ok ((), r)
    else if b = backslash then
      match _h : skipEscape.run r with
      | .error e => .error e
      | .ok (_, t) => skipTextRun t
    else if isControl b then
      .error { cause := .malformed .controlCharacter, unread := r.length + 1 }
    else skipTextRun r
termination_by s.length
decreasing_by
  · have := skipEscape.length_le _h
    simp only [List.length_cons]
    omega
  · simp

theorem skipTextRun_suffix {s r : Bytes} {u : Unit} (h : skipTextRun s = .ok (u, r)) : r <:+ s := by
  fun_induction skipTextRun s with
  | case1 => cases h
  | case2 => cases h; exact List.suffix_cons _ _
  | case3 => cases h
  | case4 _ _ _ he _ ih => exact (ih h).trans ((skipEscape.suffix he).trans (List.suffix_cons _ _))
  | case5 => cases h
  | case6 b s _ _ _ ih => exact (ih h).trans (List.suffix_cons _ _)

/-- Passes over a string, from behind its opening quote. -/
def skipText : Reader Unit where
  run := skipTextRun
  suffix := skipTextRun_suffix

/-! ## Numbers -/

/-- Passes over an exponent, from its letter on. -/
def skipExponent : Reader Unit := do
  drop
  look fun b => if b = some 0x2B ∨ b = some 0x2D then drop else pure ()
  let b ← take
  if b.any isDigit then do
    let _ ← takeWhile isDigit
  else fail (.malformed .badNumber)

/-- Passes over an exponent, if there is one. -/
def skipOptionalExponent : Reader Unit :=
  look fun b => if b = some 0x65 ∨ b = some 0x45 then skipExponent else pure ()

/-- Passes over what follows the integer digits. -/
def skipAfterInteger : Reader Unit :=
  look fun b =>
    if b = some 0x2E then do
      drop
      let fraction ← takeWhile isDigit
      if fraction = [] then failAtNext (.malformed .badNumber) else skipOptionalExponent
    else skipOptionalExponent

/-- Passes over a number, from behind its sign. -/
def skipNumber : Reader Unit := do
  match ← take with
  | none => fail (.malformed .badNumber)
  | some b =>
    if b = 0x30 then
      look fun next =>
        if next.any isDigit then failAtNext (.malformed .badNumber) else skipAfterInteger
    else if isDigit b then do
      let _ ← takeWhile isDigit
      skipAfterInteger
    else fail (.malformed .badNumber)

/-! ## Values -/

/-- Passes over a scalar that starts with `b`. -/
def skipScalar (b : UInt8) : Reader Unit := do
  if b = 0x6E then do
    drop
    literal restOfNull
  else if b = 0x74 then do
    drop
    literal restOfTrue
  else if b = 0x66 then do
    drop
    literal restOfFalse
  else if b = 0x2D then do
    drop
    skipNumber
  else if isDigit b then skipNumber
  else if b = quoteByte then do
    drop
    skipText
  else failAtNext (.malformed .noValue)

/-- An array or an object that is still open.  It is all that has to be remembered of an array or
object while its values are passed over. -/
inductive Frame where
  | array
  | object
deriving DecidableEq

/-- What a document that ends inside a frame breaks off in. -/
def Frame.cut : Frame → Cut
  | array => .array
  | object => .object

/-- The byte that closes a frame. -/
def Frame.closing : Frame → UInt8
  | array => 0x5D
  | object => 0x7D

/-- What is missing where a frame neither goes on nor ends. -/
def Frame.noComma : Frame → Malformed
  | array => .noCommaOrBracket
  | object => .noCommaOrBrace

/-- Passes over a key and its colon. -/
def skipKey : Reader Unit :=
  lookAhead fun
    | none => failAtNext (.cut .object)
    | some b =>
      if b = quoteByte then do
        drop
        skipText
        colon
      else failAtNext (.malformed .keyNotText)

/-- Passes over what stands before a value within a frame: a key in an object. -/
def skipToValue : Frame → Reader Unit
  | .array => pure ()
  | .object => skipKey

/-- The frame that a byte opens. -/
def Frame.opened? (b : UInt8) : Option Frame :=
  if b = 0x5B then some .array else if b = 0x7B then some .object else none

/-- Passes over the rest of a value within `frames`, the innermost first.  If `done`, a value of the
innermost frame has just ended; else one is to begin. -/
def skipRun (frames : List Frame) (done : Bool) (s : Bytes) : Except Fault (Unit × Bytes) :=
  match done, frames with
  | true, [] => .ok ((), s)
  | true, frame :: outer =>
    match _h : s.dropWhile isSpace with
    | [] => .error { cause := .cut frame.cut, unread := 0 }
    | b :: t =>
      if b = frame.closing then skipRun outer true t
      else if b = 0x2C then
        match _h' : (skipToValue frame).run t with
        | .error e => .error e
        | .ok (_, r) => skipRun (frame :: outer) false r
      else .error { cause := .malformed frame.noComma, unread := t.length }
  | false, frames =>
    match _h : s.dropWhile isSpace with
    | [] => .error { cause := .cut .value, unread := 0 }
    | b :: t =>
      match Frame.opened? b with
      | none =>
        match _h' : (skipScalar b).run (b :: t) with
        | .error e => .error e
        | .ok (_, r) => skipRun frames true r
      | some frame =>
        match _h' : t.dropWhile isSpace with
        | [] => .error { cause := .cut frame.cut, unread := 0 }
        | c :: u =>
          if c = frame.closing then skipRun frames true u
          else
            match _h'' : (skipToValue frame).run (c :: u) with
            | .error e => .error e
            | .ok (_, r) => skipRun (frame :: frames) false r
termination_by (s.length, if done then 0 else 1)
decreasing_by
  all_goals
    have hs := (List.dropWhile_suffix (l := s) isSpace).length_le
    simp only [_h, List.length_cons] at hs
  · exact Prod.Lex.left _ _ (by omega)
  · have := (skipToValue frame).length_le _h'
    exact Prod.Lex.left _ _ (by omega)
  · have := (skipScalar b).length_le _h'
    simp only [List.length_cons] at this
    simp only [Prod.lex_def]
    simp
    omega
  · have ht := (List.dropWhile_suffix (l := t) isSpace).length_le
    simp only [_h', List.length_cons] at ht
    exact Prod.Lex.left _ _ (by omega)
  · have ht := (List.dropWhile_suffix (l := t) isSpace).length_le
    have := (skipToValue frame).length_le _h''
    simp only [_h', List.length_cons] at ht this
    exact Prod.Lex.left _ _ (by omega)

/-- What stands behind the first byte that is not white space is an end of the whole. -/
theorem suffix_of_dropWhile_eq {p : UInt8 → Bool} {s t : Bytes} {b : UInt8}
    (h : s.dropWhile p = b :: t) : t <:+ s :=
  (List.suffix_cons b t).trans (h ▸ List.dropWhile_suffix p)

theorem skipRun_suffix {frames : List Frame} {done : Bool} {s r : Bytes} {u : Unit}
    (h : skipRun frames done s = .ok (u, r)) : r <:+ s := by
  fun_induction skipRun frames done s with
  | case1 => cases h; exact List.suffix_rfl
  | case3 _ _ _ _ hs ih => exact (ih h).trans (suffix_of_dropWhile_eq hs)
  | case5 _ frame _ _ _ _ hr hs _ ih =>
    exact (ih h).trans (((skipToValue frame).suffix hr).trans (suffix_of_dropWhile_eq hs))
  | case9 _ _ b _ hs _ _ _ hr ih =>
    exact (ih h).trans (((skipScalar b).suffix hr).trans (hs ▸ List.dropWhile_suffix _))
  | case11 _ _ _ _ hs _ _ _ ht ih =>
    exact (ih h).trans ((suffix_of_dropWhile_eq ht).trans (suffix_of_dropWhile_eq hs))
  | case13 _ _ _ _ hs frame _ _ _ ht _ _ _ hr ih =>
    exact (ih h).trans (((skipToValue frame).suffix hr).trans
      ((ht ▸ List.dropWhile_suffix _).trans (suffix_of_dropWhile_eq hs)))
  | _ => cases h

/-- Passes over a value of any kind.  Nothing of it is kept, but a fault in it is a fault of the
document. -/
def skipValue : Reader Unit where
  run := skipRun [] false
  suffix := skipRun_suffix

end RunRecord.Json
