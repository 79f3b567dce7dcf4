import RunRecord.Json.Fault

/-!
# Json/Reader — reading values off the front of a byte sequence

A **reader** takes a value off the front of a byte sequence, or fails.  Its law is that what it
leaves is an end of what it was given: it never looks back and never makes bytes up.  Readers are
put together with `do`; the law is carried along.

The law is what makes loops end: whatever reads at least one byte leaves less than there was.  A
failure tells its place by the number of bytes that are left there.
-/

namespace RunRecord.Json

/-- A step that takes a value off the front of a byte sequence. -/
structure Reader (α : Type) where
  run : Bytes → Except Fault (α × Bytes)
  suffix : ∀ {s r : Bytes} {a : α}, run s = .ok (a, r) → r <:+ s

namespace Reader

variable {α β : Type}

/-! ## Composition -/

/-- The reader that takes nothing. -/
protected def pure (a : α) : Reader α where
  run s := .ok (a, s)
  suffix h := by cases h; exact List.suffix_rfl

/-- One reader after another. -/
protected def bind (x : Reader α) (f : α → Reader β) : Reader β where
  run s :=
    match x.run s with
    | .ok (a, r) => (f a).run r
    | .error e => .error e
  suffix {s r b} h := by
    match hx : x.run s with
    | .ok (a, t) => exact (f a).suffix (by simpa [hx] using h) |>.trans (x.suffix hx)
    | .error e => simp [hx] at h

/-- Readers one after another: the second reads what the first has left, and a failure ends both. -/
instance : Monad Reader where
  pure := Reader.pure
  bind := Reader.bind

@[simp] theorem run_pure (a : α) (s : Bytes) : (pure a : Reader α).run s = .ok (a, s) := rfl

theorem run_bind (x : Reader α) (f : α → Reader β) (s : Bytes) :
    (x >>= f).run s =
      match x.run s with
      | .ok (a, r) => (f a).run r
      | .error e => .error e := rfl

theorem run_bind_ok {x : Reader α} {f : α → Reader β} {s r : Bytes} {a : α}
    (h : x.run s = .ok (a, r)) : (x >>= f).run s = (f a).run r := by
  rw [run_bind, h]

theorem run_bind_error {x : Reader α} {f : α → Reader β} {s : Bytes} {e : Fault}
    (h : x.run s = .error e) : (x >>= f).run s = .error e := by
  rw [run_bind, h]

/-- Where two readers succeed one after the other, each does. -/
theorem exists_of_run_bind_eq_ok {x : Reader α} {f : α → Reader β} {s r : Bytes} {b : β}
    (h : (x >>= f).run s = .ok (b, r)) :
    ∃ a t, x.run s = .ok (a, t) ∧ (f a).run t = .ok (b, r) := by
  rw [run_bind] at h
  split at h
  · next hx => exact ⟨_, _, hx, h⟩
  · cases h

theorem length_le (x : Reader α) {s r : Bytes} {a : α} (h : x.run s = .ok (a, r)) :
    r.length ≤ s.length := (x.suffix h).length_le

/-- A mapped result that succeeded comes from one that did. -/
theorem exists_of_map_eq_ok {ε : Type} {x : Except ε α} {f : α → β} {b : β}
    (h : x.map f = .ok b) : ∃ a, x = .ok a ∧ f a = b := by
  cases x with
  | error => cases h
  | ok a => cases h; exact ⟨a, rfl, rfl⟩

/-! ## Failing

A fault may be noticed behind the byte that is wrong or in front of it, and the column that is told
differs by one.  So there are two ways to fail. -/

/-- Fails at the place reached so far. -/
def fail (cause : Cause) : Reader α where
  run s := .error { cause, unread := s.length }
  suffix h := nomatch h

/-- Fails just behind the byte that is looked at, or at the end if there is none. -/
def failAtNext (cause : Cause) : Reader α where
  run s := .error { cause, unread := s.length - 1 }
  suffix h := nomatch h

/-- Fails a number of bytes before the place reached so far. -/
def failBack (count : Nat) (cause : Cause) : Reader α where
  run s := .error { cause, unread := s.length + count }
  suffix h := nomatch h

/-! ## Looking and taking

A byte is looked at before it is taken, since whether it belongs to a value is often known only
then. -/

/-- Goes on according to the next byte, which is not taken. -/
def look (f : Option UInt8 → Reader α) : Reader α where
  run s := (f s.head?).run s
  suffix h := (f _).suffix h

/-- Takes the next byte, if there is one. -/
def take : Reader (Option UInt8) where
  run s := .ok (s.head?, s.tail)
  suffix h := by cases h; exact List.tail_suffix _

/-- Passes over the next byte, if there is one. -/
def drop : Reader Unit where
  run s := .ok ((), s.tail)
  suffix h := by cases h; exact List.tail_suffix _

/-- Takes the bytes for which `p` holds. -/
def takeWhile (p : UInt8 → Bool) : Reader Bytes where
  run s := .ok (s.takeWhile p, s.dropWhile p)
  suffix h := by cases h; exact List.dropWhile_suffix p

/-! ## White space -/

/-- Space, tab, line feed and carriage return are the white space between tokens. -/
def isSpace (b : UInt8) : Bool := b == 0x20 || b == 0x09 || b == 0x0A || b == 0x0D

/-- Passes over white space. -/
def space : Reader Unit where
  run s := .ok ((), s.dropWhile isSpace)
  suffix h := by cases h; exact List.dropWhile_suffix _

/-- Goes on according to the next byte that is not white space, which is not taken. -/
def lookAhead (f : Option UInt8 → Reader α) : Reader α := do
  space
  look f

end Reader

end RunRecord.Json
