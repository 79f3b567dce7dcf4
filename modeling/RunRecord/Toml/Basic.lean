/-!
# Toml/Basic — configuration documents as tables

A table remembers where it came from, because that decides who may add to it: a table with a header
of its own, a table implied by the header of one inside it, a table made by a dotted key, or an
inline table, to which nothing can be added.

Most of this is about what is forbidden, since a document is a fault as soon as one key is set twice
or one table is opened twice.  What a document says once it has been accepted is a table in which
keys are looked up.
-/

namespace RunRecord.Toml

/-! ## Faults -/

/-- Why a document cannot be read. -/
inductive Fault where
  | malformed
  /-- A key has more parts than tables may be nested. -/
  | keyTooLong
deriving DecidableEq, Repr

/-- The wording of a fault. -/
def Fault.message : Fault → String
  | malformed => "TOML parse error"
  | keyTooLong => "recursion limit\n"

/-- A result that can only be missing from a malformed document.  What makes a document malformed is
not told, so nothing more is kept of it. -/
def orMalformed {α : Type} : Option α → Except Fault α
  | some a => .ok a
  | none => .error .malformed

/-- How deep arrays and tables may be nested. -/
def deepest : Nat := 80

/-! ## Values and tables -/

/-- A single value. -/
inductive Scalar where
  | string (value : String)
  | boolean (value : Bool)
  | integer (value : Int)
  /-- The mark of a base other than ten without digits behind it. -/
  | baseMark
  /-- A number with a fraction or an exponent, `digits * 10 ^ exponent`, without its sign. -/
  | float (digits : Nat) (exponent : Int)
  /-- An infinity, or no number at all. -/
  | notFinite
  /-- A date, a time, or both. -/
  | time (text : String)
deriving DecidableEq, Repr

/-- Where a table came from.  It decides who may add to the table, and it does not matter once the
document is read. -/
inductive Origin where
  | header
  | implied
  | dotted
  | inline
deriving DecidableEq, Repr

mutual

/-- What a key leads to. -/
inductive Item where
  | scalar (value : Scalar)
  | array (items : List Item)
  | table (table : Table)
  /-- Tables with the same header in double brackets; keys are added to the last. -/
  | tables (earlier : List Table) (last : Table)

/-- A table with its keys in order.  A key is in it at most once, at the place where it was first
put. -/
inductive Table where
  | mk (origin : Origin) (entries : List (String × Item))

end

namespace Table

/-- Where a table came from. -/
def origin : Table → Origin
  | mk origin _ => origin

/-- The keys of a table and what they lead to. -/
def entries : Table → List (String × Item)
  | mk _ entries => entries

/-- A table without keys. -/
def empty (origin : Origin) : Table := mk origin []

/-- What a key of a table leads to. -/
def get? (table : Table) (key : String) : Option Item := table.entries.lookup key

/-- Puts an item under a key: in place of what is there, or at the end. -/
def put (table : Table) (key : String) (item : Item) : Table :=
  if (table.get? key).isSome then
    mk table.origin (table.entries.map fun e => if e.1 == key then (key, item) else e)
  else mk table.origin (table.entries ++ [(key, item)])

/-! ## Adding to tables

A key may lead through several tables, and each of them is found or made on the way.  Whether one
that is found may be gone through depends on where it came from. -/

/-- Whether keys may be added to a table from outside it: by a header, or by a dotted key. -/
def isOpen (table : Table) (dotted : Bool) : Bool :=
  match table.origin with
  | .inline => false
  | .header => !dotted
  | .implied => true
  | .dotted => true

/-- Changes the table that a path of keys leads to.  Missing tables on the way are made; of several
tables with one header the last is meant. -/
def alter (dotted : Bool) (f : Table → Except Fault Table) :
    (path : List String) → Table → Except Fault Table
  | [], table => f table
  | key :: path, table =>
    match table.get? key with
    | none => do
      let child ← alter dotted f path (empty (if dotted then .dotted else .implied))
      return table.put key (.table child)
    | some (.table child) =>
      if child.isOpen dotted then do
        let child ← alter dotted f path child
        return table.put key (.table child)
      else .error .malformed
    | some (.tables earlier last) => do
      let last ← alter dotted f path last
      return table.put key (.tables earlier last)
    | some _ => .error .malformed

/-- Adds a key that must be new. -/
def insert? (key : String) (item : Item) (table : Table) : Option Table :=
  if (table.get? key).isSome then none else some (table.put key item)

/-- Adds an item under a dotted key.  The table it lands in must have been made by dotted keys,
unless the key has one part only.  A key that is there already is a fault, whatever it leads to. -/
def define (table : Table) (path : List String) (key : String) (item : Item) :
    Except Fault Table :=
  let add := fun t : Table =>
    if (t.origin == .dotted) == path.isEmpty then none else t.insert? key item
  table.alter true (orMalformed ∘ add) path

/-- The table that a header opens under a key: a new one, or one that was only implied so far. -/
def opened? (key : String) (table : Table) : Option Table :=
  match table.get? key with
  | none => some (empty .header)
  | some (.table child) =>
    if child.origin = .implied then some (mk .header child.entries) else none
  | some _ => none

/-- Adds a table under a key, behind those that have the same header in double brackets. -/
def append? (key : String) (last : Table) (table : Table) : Option Table :=
  match table.get? key with
  | none => some (table.put key (.tables [] last))
  | some (.tables earlier previous) => some (table.put key (.tables (earlier ++ [previous]) last))
  | some _ => none

end Table

end RunRecord.Toml
