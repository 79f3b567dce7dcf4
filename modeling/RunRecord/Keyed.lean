/-!
# Keyed — lists of values under keys

A keyed list holds each key at most once if it is only ever changed by `put`, which replaces what is
there.  What it holds is read by `List.lookup`.

The order of the entries is no part of what such a list means, and nothing here or elsewhere depends
on it.
-/

namespace RunRecord.Keyed

variable {κ α : Type} [BEq κ] [LawfulBEq κ]

/-- Puts a value under a key, in place of whatever is there. -/
def put (entries : List (κ × α)) (key : κ) (a : α) : List (κ × α) :=
  (key, a) :: entries.filter (·.1 != key)

theorem lookup_filter_of_ne {key other : κ} (h : other ≠ key) (entries : List (κ × α)) :
    (entries.filter (·.1 != key)).lookup other = entries.lookup other := by
  induction entries with
  | nil => rfl
  | cons entry entries ih =>
    obtain ⟨k, a⟩ := entry
    by_cases hk : k = key
    · subst hk
      have hne : (other == k) = false := by simpa using h
      simp [ih, List.lookup_cons, hne]
    · simp [hk, List.lookup_cons, ih]

@[simp] theorem lookup_put_self (entries : List (κ × α)) (key : κ) (a : α) :
    (put entries key a).lookup key = some a := by
  simp [put]

theorem lookup_put_of_ne {key other : κ} (h : other ≠ key) (entries : List (κ × α)) (a : α) :
    (put entries key a).lookup other = entries.lookup other := by
  have hne : (other == key) = false := by simpa using h
  simp [put, List.lookup_cons, hne, lookup_filter_of_ne h]

/-- Of two values put under one key the second is left. -/
theorem put_put_self (entries : List (κ × α)) (key : κ) (a b : α) :
    put (put entries key a) key b = put entries key b := by
  simp [put]

/-- What is no key leads nowhere. -/
theorem lookup_eq_none_iff {entries : List (κ × α)} {key : κ} :
    entries.lookup key = none ↔ key ∉ entries.map Prod.fst := by
  simp only [List.lookup_eq_none_iff, bne_iff_ne, List.mem_map, not_exists, not_and]
  exact forall₂_congr fun entry _ => ne_comm

end RunRecord.Keyed
