import RunRecord.Binary64
import RunRecord.Text.Digits
import RunRecord.Toml.Basic
import RunRecord.Toml.Text

/-!
# Toml/Scalar — values without quotes

Booleans, integers, floats, dates and times.  A single underscore may stand between two digits.
Numbers are read at any size, and the mark of a base even without digits; `Scalar.isInRange` says
whether they can be used: an integer has to have digits and to fit 128 bits, and a float has to
round to a finite double unless it says `inf`.

That numbers of any size are read first and refused afterwards is part of the order in which faults
are found: a number out of range counts only in a document that is otherwise sound.
-/

namespace RunRecord.Toml

open Digits

/-! ## Runs of digits -/

/-- The digits of a run in which single underscores may separate digits. -/
def separated? (isOk : Char → Bool) : List Char → Option (List Char)
  | [] => none
  | [c] => if isOk c then some [c] else none
  | c :: '_' :: cs => if isOk c then (separated? isOk cs).map (c :: ·) else none
  | c :: cs => if isOk c then (separated? isOk cs).map (c :: ·) else none

/-- A text without its sign, and whether that was a minus. -/
def signed (cs : List Char) : Bool × List Char :=
  match cs with
  | '+' :: cs => (false, cs)
  | '-' :: cs => (true, cs)
  | cs => (false, cs)

/-- The digits of a decimal number without superfluous zeros. -/
def decimal? (cs : List Char) : Option (List Char) := do
  let ds ← separated? isDigit cs
  if ds.length = 1 ∨ ds.head? ≠ some '0' then some ds else none

/-! ## Integers -/

/-- The number that digits to a base stand for. -/
def valueIn (base : Nat) (cs : List Char) : Nat :=
  cs.foldl (fun n c => n * base + (hexValue? c).getD 0) 0

/-- A number to a base other than ten, from behind its two-letter mark. -/
def based? (base : Nat) (cs : List Char) : Option Nat :=
  (separated? (fun c => (hexValue? c).any (· < base)) cs).map (valueIn base)

/-- An integer. -/
def integer? (cs : List Char) : Option Int :=
  match cs with
  | '0' :: 'x' :: r => (based? 16 r).map Int.ofNat
  | '0' :: 'o' :: r => (based? 8 r).map Int.ofNat
  | '0' :: 'b' :: r => (based? 2 r).map Int.ofNat
  | _ => do
    let (minus, r) := signed cs
    let n := value (← decimal? r)
    some (if minus then -n else n)

/-! ## Floats -/

/-- The exponent of a float, from behind its letter. -/
def exponent? (cs : List Char) : Option Int := do
  let (minus, r) := signed cs
  let n := value (← separated? isDigit r)
  some (if minus then -n else n)

/-- The fraction of a float, from its point on, and the exponent; a number with neither is none. -/
def fraction? (cs : List Char) : Option (List Char × Int) :=
  let isMark := fun c : Char => c = 'e' || c = 'E'
  match cs with
  | '.' :: r => do
    let ds ← separated? isDigit (r.takeWhile (!isMark ·))
    match r.dropWhile (!isMark ·) with
    | [] => some (ds, 0)
    | _ :: r => some (ds, ← exponent? r)
  | c :: r => if isMark c then do some ([], ← exponent? r) else none
  | [] => none

/-- A float. -/
def float? (cs : List Char) : Option Scalar :=
  let r := (signed cs).2
  if r = "inf".toList ∨ r = "nan".toList then some .notFinite
  else
    let isWhole := fun c : Char => isDigit c || c = '_'
    do
      let whole ← decimal? (r.takeWhile isWhole)
      let (fraction, exponent) ← fraction? (r.dropWhile isWhole)
      some (.float (value (whole ++ fraction)) (exponent - fraction.length))

/-! ## Dates and times -/

/-- A number of exactly two digits within bounds. -/
def pair? (least greatest : Nat) : List Char → Option (Nat × List Char)
  | a :: b :: r =>
    if isDigit a && isDigit b && least ≤ value [a, b] && value [a, b] ≤ greatest &&
        !r.head?.any isDigit then
      some (value [a, b], r)
    else none
  | _ => none

/-- A given character. -/
def mark? (c : Char) : List Char → Option (List Char)
  | d :: r => if d = c then some r else none
  | [] => none

/-- The number of days in a month of a year. -/
def daysIn (year month : Nat) : Nat :=
  if month = 2 then
    if year % 4 = 0 ∧ (year % 100 ≠ 0 ∨ year % 400 = 0) then 29 else 28
  else if month = 4 ∨ month = 6 ∨ month = 9 ∨ month = 11 then 30
  else 31

/-- Passes over a date. -/
def date? (cs : List Char) : Option (List Char) := do
  let year := cs.takeWhile isDigit
  if year.length ≠ 4 then none
  let (month, r) ← pair? 1 12 (← mark? '-' (cs.drop 4))
  let (_, r) ← pair? 1 (daysIn (value year) month) (← mark? '-' r)
  some r

/-- Passes over a time of day; the seconds, and their fraction, may be left out. -/
def time? (cs : List Char) : Option (List Char) := do
  let (_, r) ← pair? 0 23 cs
  let (_, r) ← pair? 0 59 (← mark? ':' r)
  match r with
  | ':' :: r =>
    let (_, r) ← pair? 0 60 r
    match r with
    | '.' :: r => if r.head?.any isDigit then some (r.dropWhile isDigit) else none
    | r => some r
  | r => some r

/-- Passes over an offset from universal time, if there is one. -/
def offset? (cs : List Char) : Option (List Char) :=
  match cs with
  | [] => some []
  | c :: r =>
    if c = 'Z' ∨ c = 'z' then some r
    else if c = '+' ∨ c = '-' then do
      let (_, r) ← pair? 0 23 r
      let (_, r) ← pair? 0 59 (← mark? ':' r)
      some r
    else none

/-- Whether a text is a date, a time, or a date and a time with or without an offset. -/
def isTime (cs : List Char) : Bool :=
  let rest :=
    match date? cs with
    | none => time? cs
    | some [] => some []
    | some (c :: r) => if c = 'T' ∨ c = 't' ∨ c = ' ' then (time? r).bind offset? else none
  rest == some []

/-! ## Any of them -/

/-- The value that a text without quotes stands for. -/
def scalar? (cs : List Char) : Option Scalar :=
  if cs = "true".toList then some (.boolean true)
  else if cs = "false".toList then some (.boolean false)
  else if cs = "0x".toList ∨ cs = "0o".toList ∨ cs = "0b".toList then some .baseMark
  else
    match integer? cs with
    | some n => some (.integer n)
    | none =>
      match float? cs with
      | some x => some x
      | none => if isTime cs then some (.time (String.ofList cs)) else none

/-- The value that a piece stands for. -/
def Piece.value? (piece : Piece) : Option Scalar :=
  if piece.form = .bare then scalar? piece.text else piece.string?.map .string

/-! ## Ranges -/

/-- The least signed number of 128 bits, -2¹²⁷. -/
def leastInteger : Int := -170141183460469231731687303715884105728

/-- The greatest unsigned number of 128 bits, 2¹²⁸ - 1. -/
def greatestInteger : Int := 340282366920938463463374607431768211455

/-- Whether `digits * 10 ^ exponent` rounds to a double. -/
def isFiniteDecimal (digits : Nat) (exponent : Int) : Bool :=
  let size : Int := (Digits.digits digits).length
  if digits = 0 ∨ exponent + size < -400 then true
  else if 400 < exponent + size then false
  else Binary64.isFinite (Binary64.round (digits * (10 : Rat) ^ exponent))

/-- Whether a value lies in the range of its kind; there is no number without digits. -/
def Scalar.isInRange : Scalar → Bool
  | baseMark => false
  | integer n => leastInteger ≤ n && n ≤ greatestInteger
  | float digits exponent => isFiniteDecimal digits exponent
  | _ => true

end RunRecord.Toml
