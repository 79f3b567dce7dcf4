/-!
# Json/Basic — JSON values

Objects keep their members in order.

This is what is written; a value is never made of what is read, as readers go from bytes to records
without one.  Numbers are a significand and an exponent of ten, so that none is rounded on the way.
-/

namespace RunRecord

/-- A JSON value. -/
inductive Json where
  | null
  | boolean (value : Bool)
  /-- The number `significand * 10 ^ exponent`. -/
  | number (significand : Int) (exponent : Int)
  | string (value : String)
  | array (elements : List Json)
  | object (members : List (String × Json))

namespace Json

/-- A natural number as a value. -/
def ofNat (n : Nat) : Json := .number n 0

end Json

end RunRecord
