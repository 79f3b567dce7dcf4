/-!
# Xml/Character — the characters an XML 1.0 document may hold

`safe` puts U+FFFD in the place of every character that XML 1.0 has no way to write.

What is replaced cannot be written even as a reference, so there is no way to keep it; a reader sees
that something was there, though not what.  Tabs, line feeds and carriage returns are among the
characters that are kept.
-/

namespace RunRecord.Xml

/-- Whether a character is allowed in an XML 1.0 document. -/
def isAllowed (c : Char) : Bool :=
  let n := c.toNat
  n == 0x9 || n == 0xA || n == 0xD || (0x20 ≤ n && n ≤ 0xD7FF) || (0xE000 ≤ n && n ≤ 0xFFFD) ||
    0x10000 ≤ n

/-- What stands for a character that is not allowed. -/
def replacement : Char := '\uFFFD'

/-- The character itself if it is allowed, else its replacement. -/
def safeChar (c : Char) : Char := if isAllowed c then c else replacement

/-- A text with every character that is not allowed replaced. -/
def safe (s : String) : String := String.ofList (s.toList.map safeChar)

theorem isAllowed_safeChar (c : Char) : isAllowed (safeChar c) = true := by
  unfold safeChar
  split
  · assumption
  · decide

/-- A safe text holds allowed characters only. -/
theorem isAllowed_of_mem_safe {s : String} {c : Char} (h : c ∈ (safe s).toList) :
    isAllowed c = true := by
  rw [safe, String.toList_ofList, List.mem_map] at h
  obtain ⟨d, _, rfl⟩ := h
  exact isAllowed_safeChar d

/-- A text of allowed characters is left as it is. -/
theorem safe_of_isAllowed {s : String} (h : ∀ c ∈ s.toList, isAllowed c = true) : safe s = s := by
  have h' : s.toList.map safeChar = s.toList := by
    conv => rhs; rw [← List.map_id s.toList]
    exact List.map_congr_left fun c hc => if_pos (h c hc)
  rw [safe, h', String.ofList_toList]

end RunRecord.Xml
