import RunRecord.Format

/-!
# Path — file names as text

A path is a text whose parts are separated by `/`.  Nothing is resolved or tidied up here: joining
puts two texts side by side, and the parent of a path is a beginning of its text.

So a path that leads nowhere is a path like any other, and two different paths may lead to one
place.  What a path leads to is a matter of the store that it is followed in.
-/

namespace RunRecord.Path

/-! ## Joining -/

/-- Whether a path starts at the root. -/
def isAbsolute (path : String) : Bool := path.toList.head? == some '/'

/-- The path of `name` as seen from the directory `dir`: one `/` goes between them unless `dir` is
empty or ends in one, and an absolute name stands alone. -/
def join (dir name : String) : String :=
  if isAbsolute name then name
  else if dir.toList = [] ∨ dir.toList.getLast? = some '/' then dir ++ name
  else dir ++ "/" ++ name

/-- The file a report goes to in a given format: the extension is appended, never substituted.  So
the name of a report may have points in it. -/
def report (base : String) (format : Format) : String := base ++ "." ++ format.extension

/-! ## The parent of a path

The text is taken apart from its end, so the functions here work on reversed texts.  A beginning
that says where the path starts, `/` or `.`, is kept apart as the **anchor**. -/

/-- The length of the beginning that says where a path starts: the root, or a leading `.`. -/
def anchorLength : List Char → Nat
  | '/' :: _ => 1
  | ['.'] => 1
  | '.' :: '/' :: _ => 1
  | _ => 0

/-- The last part of a reversed text, and the text before it without the separator. -/
def splitLast (reversed : List Char) : List Char × List Char :=
  (reversed.takeWhile (· != '/'), (reversed.dropWhile (· != '/')).drop 1)

theorem splitLast_length_lt (c : Char) (cs : List Char) :
    (splitLast (c :: cs)).2.length < (c :: cs).length := by
  simp only [splitLast, List.length_drop]
  have h := (List.dropWhile_suffix (l := c :: cs) (· != '/')).length_le
  simp only [List.length_cons] at h ⊢
  omega

/-- Removes what adds nothing at the end of a reversed text: separators and parts that are `.`. -/
def trim : List Char → List Char
  | [] => []
  | c :: cs =>
    let part := (splitLast (c :: cs)).1
    if part = [] ∨ part = ['.'] then trim (splitLast (c :: cs)).2 else c :: cs
termination_by reversed => reversed.length
decreasing_by exact splitLast_length_lt _ _

/-- The path without its last part; the root and the empty path have none.  What is left is a
beginning of the text, without the separators at its end. -/
def parent? (path : String) : Option String :=
  let cs := path.toList
  let anchor := cs.take (anchorLength cs)
  let reversed := trim (cs.drop (anchorLength cs)).reverse
  if reversed ≠ [] then
    some (String.ofList (anchor ++ (trim (splitLast reversed).2).reverse))
  else if anchor = ['.'] then some ""
  else none

theorem trim_length_le (reversed : List Char) : (trim reversed).length ≤ reversed.length := by
  fun_induction trim reversed with
  | case1 => exact Nat.le_refl _
  | case2 c cs _ _ ih => exact Nat.le_trans ih (Nat.le_of_lt (splitLast_length_lt _ _))
  | case3 => exact Nat.le_refl _

/-- A parent is shorter than the path. -/
theorem parent?_length_lt {path parent : String} (h : parent? path = some parent) :
    parent.toList.length < path.toList.length := by
  simp only [parent?] at h
  have hsplit := List.take_append_drop (anchorLength path.toList) path.toList
  have hlen := congrArg List.length hsplit
  have htrim := trim_length_le (path.toList.drop (anchorLength path.toList)).reverse
  simp only [List.length_append, List.length_reverse] at hlen htrim
  split at h
  · next hne =>
    cases h
    obtain ⟨c, cs, hc⟩ := List.exists_cons_of_ne_nil hne
    have hlast := trim_length_le (splitLast (c :: cs)).2
    have hlt := splitLast_length_lt c cs
    rw [hc] at htrim ⊢
    simp only [String.toList_ofList, List.length_append, List.length_reverse]
    omega
  · split at h
    · next ha =>
      cases h
      have := congrArg List.length ha
      simp only [List.length_singleton] at this
      simp only [String.toList_empty, List.length_nil]
      omega
    · cases h

/-- A path and the paths above it, the nearest first, down to the root or to the last that is not
empty.  These are the directories that may have to be made for a path. -/
def ancestors (path : String) : List String :=
  if path = "" then []
  else
    match _h : parent? path with
    | none => [path]
    | some parent => path :: ancestors parent
termination_by path.toList.length
decreasing_by exact parent?_length_lt _h

end RunRecord.Path
