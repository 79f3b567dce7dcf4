import RunRecord.Proofs.Toml.Text
import RunRecord.Toml.Document

/-!
# Proofs/Toml/Layout — lines that set keys to basic strings

A **setting** is a key, an equals sign and a basic string on one line; gaps may stand around each of
them, and a comment behind them.  Two inputs.

**Gaps do not count** (`apply_tokens_gap`).  However long it is, and whatever stands behind it, a
gap is at most one token, and what looks for a key, a value or the end of a line passes over it.

**Pieces are told one by one** (`KeySays.exists_tokens`, `Says.tokens_eq`).  A key and a string are
one token each, since what may stand behind them cannot carry them on.

So a line adds its setting to those before it, and the next one starts behind it
(`LineSets.exists_pairs`).
-/

namespace RunRecord.Toml

/-! ## What is written

These relations say which texts are meant, in the way a grammar does: by what may stand where, from
left to right.  The other forms that a value may have are left out, as all settings are strings. -/

/-- Spaces and tabs, or nothing. -/
def IsGap (cs : List Char) : Prop := ∀ c ∈ cs, isGap c = true

/-- Whether a text is a gap is found character by character. -/
instance (cs : List Char) : Decidable (IsGap cs) := List.decidableBAll _ cs

/-- A comment, or nothing. -/
inductive IsRemark : List Char → Prop
  | none : IsRemark []
  | comment {text : List Char} : (∀ c ∈ text, isPlain c = true) → IsRemark ('#' :: text)

/-- A line break. -/
inductive IsBreak : List Char → Prop
  | lineFeed : IsBreak ['\n']
  | returned : IsBreak ['\r', '\n']

/-- Whether a character may stand in a key without quotes. -/
def isKeyChar (c : Char) : Bool := c.isAlphanum || c = '_' || c = '-'

/-- **How a key of one part is written**, and the name that it says: a word, or a string on one
line.  The same name may be written in several ways. -/
inductive KeySays : List Char → String → Prop
  | bare {cs : List Char} : cs ≠ [] → (∀ c ∈ cs, isKeyChar c = true) →
    KeySays cs (String.ofList cs)
  | basic {body text : List Char} : Says body text →
    KeySays ('"' :: (body ++ ['"'])) (String.ofList text)
  | literal {cs : List Char} : (∀ c ∈ cs, isPlain c = true ∧ c ≠ '\'') →
    KeySays ('\'' :: (cs ++ ['\''])) (String.ofList cs)

/-- **A line, and what it sets**: nothing, or one key to the text of a basic string.  Gaps may be
anywhere between its parts. -/
inductive LineSets : List Char → List (String × String) → Prop
  | blank {gap remark : List Char} : IsGap gap → IsRemark remark → LineSets (gap ++ remark) []
  | setting {gap₁ key gap₂ gap₃ body text gap₄ remark : List Char} {name : String} : IsGap gap₁ →
    KeySays key name → IsGap gap₂ → IsGap gap₃ → Says body text → IsGap gap₄ → IsRemark remark →
    LineSets (gap₁ ++ (key ++ (gap₂ ++ '=' :: (gap₃ ++ '"' :: (body ++ '"' :: (gap₄ ++ remark))))))
      [(name, String.ofList text)]

/-- **Lines with line breaks between them**, and what they set.  Each line may set something or
nothing, and no line break is needed behind the last. -/
inductive LinesSet : List Char → List (String × String) → Prop
  | last {line : List Char} {entries : List (String × String)} : LineSets line entries →
    LinesSet line entries
  | more {line br rest : List Char} {entries others : List (String × String)} :
    LineSets line entries → IsBreak br → LinesSet rest others →
    LinesSet (line ++ (br ++ rest)) (entries ++ others)

/-! ## What text starts with -/

/-- A text behind which a run of characters ends. -/
def Stops (p : Char → Bool) (rest : List Char) : Prop := ∀ c ∈ rest.head?, p c = false

theorem Stops.head?_ne {p : Char → Bool} {rest : List Char} (h : Stops p rest) {c : Char}
    (hc : p c = true) : rest.head? ≠ some c := by
  intro hhead
  rw [h c hhead] at hc
  cases hc

theorem head?_append_ne {c : Char} {cs rest : List Char} (hcs : cs.head? ≠ some c)
    (hrest : rest.head? ≠ some c) : (cs ++ rest).head? ≠ some c := by
  cases cs with
  | nil => exact hrest
  | cons => exact hcs

theorem IsGap.head?_ne {gap : List Char} (h : IsGap gap) {c : Char} (hc : isGap c = false) :
    gap.head? ≠ some c := by
  intro hhead
  rw [h c (List.mem_of_head? hhead)] at hc
  cases hc

theorem IsRemark.head?_ne {remark : List Char} (h : IsRemark remark) {c : Char} (hc : '#' ≠ c) :
    remark.head? ≠ some c := by
  cases h with
  | none => simp
  | comment => simpa using hc

theorem IsBreak.stops {br : List Char} (h : IsBreak br) (rest : List Char) :
    Stops isInLine (br ++ rest) := by
  cases h <;>
  · rintro c hc
    cases hc
    rfl

theorem IsBreak.head?_ne {br : List Char} (h : IsBreak br) {c : Char} (hc : isInLine c = true) :
    br.head? ≠ some c := by
  have hstops := h.stops []
  rw [List.append_nil] at hstops
  exact hstops.head?_ne hc

theorem KeySays.head?_ne {key : List Char} {name : String} (h : KeySays key name) {c : Char}
    (hc : isKeyChar c = false) (hbasic : '"' ≠ c) (hliteral : '\'' ≠ c) : key.head? ≠ some c := by
  cases h with
  | bare _ hkey =>
    intro hhead
    rw [hkey c (List.mem_of_head? hhead)] at hc
    cases hc
  | basic => simpa using hbasic
  | literal => simpa using hliteral

/-- No line starts with a byte order mark. -/
theorem LineSets.head?_ne {cs : List Char} {entries : List (String × String)}
    (h : LineSets cs entries) : cs.head? ≠ some '\uFEFF' := by
  cases h with
  | blank hgap hremark => exact head?_append_ne (hgap.head?_ne rfl) (hremark.head?_ne (by decide))
  | setting hgap₁ hkey hgap₂ =>
    refine head?_append_ne (hgap₁.head?_ne rfl) (head?_append_ne ?_ ?_)
    · exact hkey.head?_ne rfl (by decide) (by decide)
    · exact head?_append_ne (hgap₂.head?_ne rfl) (by simp)

theorem LinesSet.head?_ne {cs : List Char} {entries : List (String × String)}
    (h : LinesSet cs entries) : cs.head? ≠ some '\uFEFF' := by
  induction h with
  | last hline => exact hline.head?_ne
  | more hline hbr _ ih =>
    exact head?_append_ne hline.head?_ne (head?_append_ne (hbr.head?_ne rfl) ih)

/-! ## Tokens

A text is cut into tokens without a look at what they mean, so what stands in front of a token and
what stands behind it can be treated apart. -/

/-- The tokens behind others do not depend on them.  The induction is on the length of the text,
since any part of it may be behind its first token. -/
theorem tokensFrom_eq (soFar : List Token) (cs : List Char) :
    tokensFrom soFar cs = soFar.reverse ++ tokens cs := by
  induction hn : cs.length using Nat.strongRecOn generalizing soFar cs with
  | ind n ih =>
    cases cs with
    | nil => simp [tokens, tokensFrom]
    | cons c cs =>
      have hlt : (token c cs).2.length < n := by
        have := token_rest_le c cs
        simp only [List.length_cons] at hn
        omega
      rw [tokens, tokensFrom, tokensFrom, ih _ hlt _ _ rfl, ih _ hlt [_] _ rfl, List.reverse_cons,
        List.append_assoc]
      rfl

@[simp] theorem tokens_nil : tokens [] = [] := by rw [tokens, tokensFrom, List.reverse_nil]

theorem tokens_cons (c : Char) (cs : List Char) :
    tokens (c :: cs) = (token c cs).1 :: tokens (token c cs).2 := by
  rw [tokens, tokensFrom, tokensFrom_eq]
  rfl

@[simp] theorem tokens_equals (cs : List Char) : tokens ('=' :: cs) = .equals :: tokens cs :=
  tokens_cons '=' cs

theorem IsBreak.tokens_eq {br : List Char} (h : IsBreak br) (cs : List Char) :
    tokens (br ++ cs) = .lineBreak true :: tokens cs := by
  cases h with
  | lineFeed => exact tokens_cons '\n' cs
  | returned => exact tokens_cons '\r' ('\n' :: cs)

section Run

variable {p : Char → Bool} {cs rest : List Char}

theorem takeWhile_append_of_stops (hcs : ∀ c ∈ cs, p c = true) (hrest : Stops p rest) :
    (cs ++ rest).takeWhile p = cs := by
  rw [List.takeWhile_append_of_pos hcs]
  cases rest with
  | nil => simp
  | cons c rest => rw [List.takeWhile_cons_of_neg (by simp [hrest c rfl]), List.append_nil]

theorem dropWhile_append_of_stops (hcs : ∀ c ∈ cs, p c = true) (hrest : Stops p rest) :
    (cs ++ rest).dropWhile p = rest := by
  rw [List.dropWhile_append_of_pos hcs]
  cases rest with
  | nil => rfl
  | cons c rest => rw [List.dropWhile_cons_of_neg (by simp [hrest c rfl])]

end Run

theorem tokens_of_isGap {c : Char} (h : isGap c = true) (cs : List Char) :
    tokens (c :: cs) = .gap (c :: cs.takeWhile isGap) :: tokens (cs.dropWhile isGap) := by
  have hc : c = ' ' ∨ c = '\t' := by simpa [isGap] using h
  rw [tokens_cons]
  rcases hc with rfl | rfl <;> rfl

/-- **A gap is at most one token**: what passes over gaps does not see it.  This is the only lemma
on gaps that the lines need. -/
theorem apply_tokens_gap {α : Type} (f : List Token → α)
    (hf : ∀ text ts, f (.gap text :: ts) = f ts) {gap : List Char} (hgap : IsGap gap)
    (cs : List Char) : f (tokens (gap ++ cs)) = f (tokens cs) := by
  have hdrop : ∀ cs, f (tokens (cs.dropWhile isGap)) = f (tokens cs) := by
    intro cs
    cases cs with
    | nil => rfl
    | cons c cs =>
      by_cases hc : isGap c = true
      · rw [List.dropWhile_cons_of_pos hc, tokens_of_isGap hc, hf]
      · rw [List.dropWhile_cons_of_neg hc]
  rw [← hdrop (gap ++ cs), List.dropWhile_append_of_pos hgap, hdrop]

/-! ## Pieces

A piece is a word or a quoted text.  Three quotes open another kind of string, which is why a string
on one line may not be followed by a quote. -/

/-- A piece that has its quotes, if it needs any. -/
def Piece.closed (form : Form) (text : List Char) : Piece := { form, text, isClosed := true }

/-- Two quotes stand in front only if there is nothing between them and a third behind them. -/
theorem take_two_ne {quote : Char} {cs rest : List Char} (hcs : cs.head? ≠ some quote)
    (hrest : rest.head? ≠ some quote) : (cs ++ quote :: rest).take 2 ≠ [quote, quote] := by
  intro h
  cases cs with
  | nil =>
    cases rest with
    | nil => cases h
    | cons c rest => exact hrest (congrArg some (List.cons.inj (List.cons.inj h).2).1)
  | cons c cs => exact hcs (congrArg some (List.cons.inj h).1)

/-- A quoted piece on one line, unless a quote stands directly behind it. -/
theorem quotedToken_eq {short long : Form} {quote : Char} {cs rest : List Char}
    (hcs : cs.head? ≠ some quote) (hrest : rest.head? ≠ some quote)
    (hend : shortPiece short quote [] (cs ++ quote :: rest) = (.closed short cs, rest)) :
    quotedToken short long quote (cs ++ quote :: rest) = (.piece (.closed short cs), rest) := by
  rw [quotedToken, quotedPiece, if_neg (take_two_ne hcs hrest), hend]

theorem Says.head?_ne {body text : List Char} (h : Says body text) : body.head? ≠ some '"' := by
  cases h with
  | nil => simp
  | plain hc => simpa using (isUnescaped_iff.1 hc).2.1
  | escape => simp

/-- **A basic string is one token.**  What stands behind it is cut as if nothing stood before. -/
theorem Says.tokens_eq {body text : List Char} (h : Says body text) {rest : List Char}
    (hrest : rest.head? ≠ some '"') :
    tokens ('"' :: (body ++ '"' :: rest)) = .piece (.closed .basic body) :: tokens rest := by
  have htoken : token '"' (body ++ '"' :: rest) = (.piece (.closed .basic body), rest) :=
    quotedToken_eq h.head?_ne hrest (h.shortPiece_eq [] rest)
  rw [tokens_cons, htoken]

/-- A basic string as a value. -/
theorem Says.value?_eq {body text : List Char} (h : Says body text) :
    (Piece.closed .basic body).value? = some (.string (String.ofList text)) := by
  have hstring : (Piece.closed .basic body).string? = (unescape body).map String.ofList := rfl
  rw [Piece.value?, if_neg (fun h => nomatch h), hstring, h.unescape_eq]
  rfl

/-- **A literal string is one token.**  It stands for itself, so there is nothing to be passed over
inside. -/
theorem tokens_literal {cs : List Char} (h : ∀ c ∈ cs, isPlain c = true ∧ c ≠ '\'')
    {rest : List Char} (hrest : rest.head? ≠ some '\'') :
    tokens ('\'' :: (cs ++ '\'' :: rest)) = .piece (.closed .literal cs) :: tokens rest := by
  have hbelongs : ∀ c ∈ cs, Belongs .literal '\'' c := by
    intro c hc
    obtain ⟨hplain, hquote⟩ := h c hc
    exact ⟨(ne_of_isPlain hplain).1, hquote, nofun⟩
  have hhead : cs.head? ≠ some '\'' := fun hhead => (h _ (List.mem_of_head? hhead)).2 rfl
  have hend : shortPiece .literal '\'' [] (cs ++ '\'' :: rest) = (.closed .literal cs, rest) := by
    rw [shortPiece_append hbelongs, shortPiece_quote (by decide) (by decide), List.append_nil,
      List.reverse_reverse]
    rfl
  have htoken : token '\'' (cs ++ '\'' :: rest) = (.piece (.closed .literal cs), rest) :=
    quotedToken_eq hhead hrest hend
  rw [tokens_cons, htoken]

theorem isLiteral_of_isPlain {cs : List Char} (h : ∀ c ∈ cs, isPlain c = true) :
    isLiteral cs = true := by
  induction cs with
  | nil => rfl
  | cons c cs ih =>
    obtain ⟨hc, hcs⟩ := List.forall_mem_cons.1 h
    rw [isLiteral, hc, ih hcs]
    · rfl
    · exact fun _ heq => absurd heq (ne_of_isPlain hc).2

/-- The characters that end a word, and the quotes. -/
def marks : List Char :=
  ['.', '=', ',', '[', ']', '\x7b', '\x7d', '\n', '\r', ' ', '\t', '#', '"', '\'']

theorem ne_of_isKeyChar {c : Char} (h : isKeyChar c = true) : ∀ d ∈ marks, c ≠ d := by
  have hmarks : marks.all (!isKeyChar ·) = true := by decide
  rintro d hd rfl
  have hmark := List.all_eq_true.1 hmarks _ hd
  rw [h] at hmark
  cases hmark

theorem single?_of_isKeyChar {c : Char} (h : isKeyChar c = true) : single? c = none := by
  have hne := ne_of_isKeyChar h
  simp only [marks, List.forall_mem_cons] at hne
  simp [single?, hne]

theorem isBare_of_isKeyChar {c : Char} (h : isKeyChar c = true) : isBare c = true := by
  have hne := ne_of_isKeyChar h
  simp only [marks, List.forall_mem_cons] at hne
  simp [isBare, single?_of_isKeyChar h, isInLine, isGap, hne]

/-- **A word is one token.**  It ends where something begins that is no part of a word. -/
theorem tokens_word {cs rest : List Char} (hne : cs ≠ []) (hcs : ∀ c ∈ cs, isKeyChar c = true)
    (hrest : Stops isBare rest) :
    tokens (cs ++ rest) = .piece (.closed .bare cs) :: tokens rest := by
  cases cs with
  | nil => exact absurd rfl hne
  | cons c cs =>
    obtain ⟨hc, hcs⟩ := List.forall_mem_cons.1 hcs
    have hmarks := ne_of_isKeyChar hc
    simp only [marks, List.forall_mem_cons] at hmarks
    have hbare : ∀ d ∈ cs, isBare d = true := fun d hd => isBare_of_isKeyChar (hcs d hd)
    have htoken : token c (cs ++ rest) = (.piece (.closed .bare (c :: cs)), rest) := by
      simp [token, Piece.closed, single?_of_isKeyChar hc, isGap, hmarks,
        takeWhile_append_of_stops hbare hrest, dropWhile_append_of_stops hbare hrest]
    rw [List.cons_append, tokens_cons, htoken]

/-- A word ends at a gap and at an equals sign. -/
theorem stops_isBare {gap : List Char} (hgap : IsGap gap) (rest : List Char) :
    Stops isBare (gap ++ '=' :: rest) := by
  rintro c hc
  cases gap with
  | nil =>
    cases hc
    rfl
  | cons d gap =>
    cases hc
    simp [isBare, hgap c List.mem_cons_self]

/-- **A key is one token**, and it gives the name that it says.  In front of it a gap is passed
over, and behind it there is one or the equals sign. -/
theorem KeySays.exists_tokens {key : List Char} {name : String} (h : KeySays key name) :
    ∃ piece : Piece, piece.name? = some name ∧ ∀ gap rest, IsGap gap →
      tokens (key ++ (gap ++ '=' :: rest)) = .piece piece :: tokens (gap ++ '=' :: rest) := by
  cases h with
  | bare hne hkey =>
    refine ⟨.closed .bare key, ?_, fun gap rest hgap => tokens_word hne hkey (stops_isBare hgap _)⟩
    exact if_pos ⟨hne, List.all_eq_true.2 hkey⟩
  | @basic body text hbody =>
    refine ⟨.closed .basic body, ?_, fun gap rest hgap => ?_⟩
    · change (unescape body).map String.ofList = _
      rw [hbody.unescape_eq]
      rfl
    · have hrest : (gap ++ '=' :: rest).head? ≠ some '"' :=
        head?_append_ne (hgap.head?_ne rfl) (by simp)
      rw [List.cons_append, List.append_assoc]
      exact hbody.tokens_eq hrest
  | @literal cs hcs =>
    refine ⟨.closed .literal cs, ?_, fun gap rest hgap => ?_⟩
    · exact if_pos (isLiteral_of_isPlain fun c hc => (hcs c hc).1)
    · have hrest : (gap ++ '=' :: rest).head? ≠ some '\'' :=
        head?_append_ne (hgap.head?_ne rfl) (by simp)
      rw [List.cons_append, List.append_assoc]
      exact tokens_literal hcs hrest

/-! ## Lines

Lines are read with fuel, for which the number of tokens is taken.  An equals sign is in every line
that sets something, so their number bounds the lines. -/

/-- **A comment in front of the end of a line is passed over.** -/
theorem IsRemark.lineEnd_eq {remark rest : List Char} (h : IsRemark remark)
    (hrest : Stops isInLine rest) : lineEnd (tokens (remark ++ rest)) = lineEnd (tokens rest) := by
  cases h with
  | none => rfl
  | @comment text htext =>
    have hinLine : ∀ c ∈ text, isInLine c = true := fun c hc => by
      simp [isInLine, ne_of_isPlain (htext c hc)]
    have htoken : token '#' (text ++ rest)
        = (.comment ((text ++ rest).takeWhile isInLine), (text ++ rest).dropWhile isInLine) := rfl
    rw [takeWhile_append_of_stops hinLine hrest, dropWhile_append_of_stops hinLine hrest] at htoken
    rw [List.cons_append, tokens_cons, htoken]
    exact if_pos (List.all_eq_true.2 htext)

/-- Behind its last token a line may have a gap and a comment. -/
theorem lineEnd_blank {gap remark rest : List Char} (hgap : IsGap gap) (hremark : IsRemark remark)
    (hrest : Stops isInLine rest) :
    lineEnd (tokens (gap ++ (remark ++ rest))) = lineEnd (tokens rest) := by
  rw [apply_tokens_gap lineEnd (fun _ _ => rfl) hgap, hremark.lineEnd_eq hrest]

/-- Between two lines there is nothing that counts. -/
theorem trivia_eq_of_lineEnd {ts after : List Token} (h : lineEnd ts = some after) :
    trivia ts = trivia after ∧ after <:+ ts := by
  fun_induction lineEnd ts with
  | case1 =>
    cases h
    exact ⟨rfl, List.suffix_refl _⟩
  | case2 text ts ih =>
    obtain ⟨htrivia, hsuffix⟩ := ih h
    exact ⟨htrivia, hsuffix.trans (List.suffix_cons _ _)⟩
  | case3 text ts htext ih =>
    obtain ⟨htrivia, hsuffix⟩ := ih h
    exact ⟨(if_pos htext).trans htrivia, hsuffix.trans (List.suffix_cons _ _)⟩
  | case5 =>
    cases h
    exact ⟨rfl, List.suffix_cons _ _⟩
  | _ => cases h

/-- Lines are the same if they start at the same token. -/
theorem linesFrom_congr {ts others : List Token} (h : trivia ts = trivia others) (fuel : Nat)
    (soFar : List Line) : linesFrom fuel soFar ts = linesFrom fuel soFar others := by
  cases fuel with
  | zero => rfl
  | succ fuel => rw [linesFrom, linesFrom, h]

/-- A line that starts with a piece is read from there. -/
theorem linesFrom_piece {piece : Piece} {ts after : List Token} {l : Line}
    (h : line (.piece piece :: ts) = some (l, after)) (fuel : Nat) (soFar : List Line) :
    linesFrom (fuel + 1) soFar (.piece piece :: ts) = linesFrom fuel (l :: soFar) after := by
  have hstart : trivia (.piece piece :: ts) = some (.piece piece :: ts) := by
    rw [trivia] <;> exact fun _ _ heq => nomatch heq
  rw [linesFrom, hstart]
  simp only [Option.bind_eq_bind, Option.bind_some, h]

/-- A pair that stands for an entry. -/
def Pair.Gives (pair : Pair) (entry : String × String) : Prop :=
  ∃ key value : Piece, pair = .mk { first := key, more := [] } (.plain value) ∧
    key.name? = some entry.1 ∧ value.value? = some (.string entry.2)

/-- The number of equals signs among tokens: there is one in each setting. -/
def equalsIn (ts : List Token) : Nat := ts.count .equals

theorem equalsIn_gap (text : List Char) (ts : List Token) :
    equalsIn (.gap text :: ts) = equalsIn ts := by
  simp [equalsIn]

theorem equalsIn_piece (piece : Piece) (ts : List Token) :
    equalsIn (.piece piece :: ts) = equalsIn ts := by
  simp [equalsIn]

section Setting

variable {gap₂ gap₃ body text rest : List Char}

/-- **A setting is a pair**, from its key to the end of its line.  What is behind it is the end of
the line, which a comment may stand before. -/
theorem line_eq (key : Piece) (hgap₂ : IsGap gap₂) (hgap₃ : IsGap gap₃) (hbody : Says body text)
    (hrest : rest.head? ≠ some '"') {after : List Token}
    (hafter : lineEnd (tokens rest) = some after) :
    line (.piece key :: tokens (gap₂ ++ '=' :: (gap₃ ++ '"' :: (body ++ '"' :: rest))))
      = some (.pair (.mk { first := key, more := [] } (.plain (.closed .basic body))), after) := by
  have hkey : ∀ cs, keyLayout (.piece key :: tokens (gap₂ ++ '=' :: cs))
      = ({ first := key, more := [] }, .equals :: tokens cs) := by
    intro cs
    have hparts := apply_tokens_gap (keyParts false) (fun _ _ => by rw [keyParts]) hgap₂ ('=' :: cs)
    rw [tokens_equals] at hparts
    rw [keyLayout, keyParts, hparts]
    rfl
  have hvalue : lineValue (tokens (gap₃ ++ '"' :: (body ++ '"' :: rest)))
      = some (.plain (.closed .basic body), tokens rest) := by
    rw [apply_tokens_gap lineValue (fun _ _ => rfl) hgap₃, hbody.tokens_eq hrest]
    rfl
  rw [line]
  · simp only [hkey, hvalue, hafter, Option.bind_eq_bind, Option.bind_some]
  · exact fun _ heq => nomatch heq
  · exact fun _ heq => nomatch heq

theorem equalsIn_setting (hgap₂ : IsGap gap₂) (hgap₃ : IsGap gap₃) (hbody : Says body text)
    (hrest : rest.head? ≠ some '"') :
    equalsIn (tokens (gap₂ ++ '=' :: (gap₃ ++ '"' :: (body ++ '"' :: rest))))
      = 1 + equalsIn (tokens rest) := by
  have hequals : ∀ ts, equalsIn (.equals :: ts) = 1 + equalsIn ts := fun ts =>
    List.count_cons_self.trans (Nat.add_comm _ _)
  rw [apply_tokens_gap equalsIn equalsIn_gap hgap₂, tokens_equals, hequals,
    apply_tokens_gap equalsIn equalsIn_gap hgap₃, hbody.tokens_eq hrest, equalsIn_piece]

end Setting

/-- **What a line adds to the lines before it**, and where the next one starts.  No quote stands
behind the string of a setting, so an empty one is not taken for three quotes.  Lines that set
nothing add nothing. -/
theorem LineSets.exists_pairs {cs : List Char} {entries : List (String × String)}
    (h : LineSets cs entries) :
    ∃ pairs, List.Forall₂ Pair.Gives pairs entries ∧
      ∀ rest after, Stops isInLine rest → lineEnd (tokens rest) = some after →
        entries.length + equalsIn after ≤ equalsIn (tokens (cs ++ rest)) ∧
        ∀ fuel soFar, linesFrom (fuel + entries.length) soFar (tokens (cs ++ rest))
          = linesFrom fuel ((pairs.map Line.pair).reverse ++ soFar) after := by
  cases h with
  | @blank gap remark hgap hremark =>
    refine ⟨[], .nil, fun rest after hrest hafter => ?_⟩
    have hend : lineEnd (tokens (gap ++ remark ++ rest)) = some after := by
      rw [List.append_assoc, lineEnd_blank hgap hremark hrest, hafter]
    obtain ⟨htrivia, hsuffix⟩ := trivia_eq_of_lineEnd hend
    refine ⟨?_, fun fuel soFar => linesFrom_congr htrivia fuel soFar⟩
    rw [List.length_nil, Nat.zero_add]
    exact hsuffix.sublist.count_le _
  | @setting gap₁ key gap₂ gap₃ body text gap₄ remark name hgap₁ hkey hgap₂ hgap₃ hbody hgap₄
      hremark =>
    obtain ⟨piece, hname, hpiece⟩ := hkey.exists_tokens
    let pair : Pair := .mk { first := piece, more := [] } (.plain (.closed .basic body))
    have hgives : pair.Gives (name, String.ofList text) := ⟨piece, _, rfl, hname, hbody.value?_eq⟩
    refine ⟨[pair], .cons hgives .nil, fun rest after hrest hafter => ?_⟩
    simp only [List.append_assoc, List.cons_append]
    have htail : (gap₄ ++ (remark ++ rest)).head? ≠ some '"' :=
      head?_append_ne (hgap₄.head?_ne rfl)
        (head?_append_ne (hremark.head?_ne (by decide)) (hrest.head?_ne rfl))
    have hend : lineEnd (tokens (gap₄ ++ (remark ++ rest))) = some after := by
      rw [lineEnd_blank hgap₄ hremark hrest, hafter]
    constructor
    · have hcount := equalsIn_setting hgap₂ hgap₃ hbody htail
      have hle : equalsIn after ≤ equalsIn (tokens (gap₄ ++ (remark ++ rest))) :=
        (trivia_eq_of_lineEnd hend).2.sublist.count_le _
      rw [apply_tokens_gap equalsIn equalsIn_gap hgap₁, hpiece _ _ hgap₂, equalsIn_piece, hcount]
      simpa using hle
    · intro fuel soFar
      have htrivia := apply_tokens_gap trivia (fun _ _ => by rw [trivia]) hgap₁
        (key ++ (gap₂ ++ '=' :: (gap₃ ++ '"' :: (body ++ '"' :: (gap₄ ++ (remark ++ rest))))))
      rw [linesFrom_congr htrivia, hpiece _ _ hgap₂]
      exact linesFrom_piece (line_eq piece hgap₂ hgap₃ hbody htail hend) fuel soFar

end RunRecord.Toml
