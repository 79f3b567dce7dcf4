import RunRecord.Toml.Layout
import RunRecord.Toml.Scalar

/-!
# Toml/Document — what configuration documents say

A document is read in three passes, each of which has to succeed before the next one starts: its
outline is told from its marks, its blocks are put into one table in their order, and the numbers in
it have to lie in their ranges.  The first fault is the one that counts.

Only three strings of such a document are ever used, yet all of it has to be read: a document with a
fault anywhere is refused, and a key may stand in any line.
-/

namespace RunRecord.Toml

/-! ## Keys -/

/-- The name that a piece gives as a part of a key. -/
def Piece.name? (piece : Piece) : Option String :=
  match piece.form with
  | .bare =>
    if piece.text ≠ [] ∧ piece.text.all (fun c => c.isAlphanum || c = '_' || c = '-') then
      some (String.ofList piece.text)
    else none
  | .basic => piece.string?
  | .literal => piece.string?
  | .longBasic => none
  | .longLiteral => none

/-- The path of tables that a key leads through, and the name in the last of them. -/
structure Address where
  path : List String
  name : String
deriving DecidableEq, Repr

/-- The address that parts of a key make together. -/
def Address.ofNames (first : String) : List String → Address
  | [] => { path := [], name := first }
  | next :: more =>
    let rest := ofNames next more
    { rest with path := first :: rest.path }

/-- The address that a key stands for. -/
def Key.address (key : Key) : Except Fault Address := do
  let first ← orMalformed key.first.name?
  let more ← orMalformed (key.more.mapM Piece.name?)
  if deepest ≤ key.more.length then .error .keyTooLong else .ok (.ofNames first more)

/-! ## Values -/

mutual

/-- What a value stands for. -/
def Layout.item : Layout → Except Fault Item
  | .plain piece => return .scalar (← orMalformed piece.value?)
  | .array layouts => return .array (← items layouts)
  | .inline pairs => return .table (← withPairs (.empty .inline) pairs)

/-- What values stand for, in their order. -/
def Layout.items : List Layout → Except Fault (List Item)
  | [] => return []
  | layout :: layouts => do
    let item ← layout.item
    return item :: (← items layouts)

/-- A table with pairs added to it. -/
def Layout.withPairs (table : Table) : List Pair → Except Fault Table
  | [] => return table
  | .mk key layout :: pairs => do
    let address ← key.address
    let item ← layout.item
    let table ← table.define address.path address.name item
    Layout.withPairs table pairs

end

mutual

/-- Whether the numbers in a value lie in their ranges. -/
def Layout.isInRange : Layout → Bool
  | .plain piece => piece.value?.all Scalar.isInRange
  | .array layouts => Layout.areInRange layouts
  | .inline pairs => Layout.pairsInRange pairs

/-- Whether the numbers in values lie in their ranges. -/
def Layout.areInRange : List Layout → Bool
  | [] => true
  | layout :: layouts => layout.isInRange && Layout.areInRange layouts

/-- Whether the numbers in the values of pairs lie in their ranges. -/
def Layout.pairsInRange : List Pair → Bool
  | [] => true
  | .mk _ layout :: pairs => layout.isInRange && Layout.pairsInRange pairs

end

/-- Whether the numbers in an outline lie in their ranges. -/
def Outline.isInRange (outline : Outline) : Bool :=
  Layout.pairsInRange outline.pairs && outline.blocks.all (Layout.pairsInRange ·.pairs)

/-! ## Blocks -/

/-- A table with a block added to it.  A header opens its table before the pairs are looked at; a
header in double brackets adds its table when the pairs are in it. -/
def Table.withBlock (root : Table) (block : Block) : Except Fault Table := do
  let address ← block.key.address
  if block.repeats then
    let table ← Layout.withPairs (.empty .header) block.pairs
    root.alter false (orMalformed ∘ append? address.name table) address.path
  else
    let fill := fun parent : Table => do
      let table ← orMalformed (parent.opened? address.name)
      return parent.put address.name (.table (← Layout.withPairs table block.pairs))
    root.alter false fill address.path

/-- The table that an outline gives. -/
def Outline.table (outline : Outline) : Except Fault Table := do
  let root ← Layout.withPairs (.empty .header) outline.pairs
  outline.blocks.foldlM Table.withBlock root

/-- The table that a document holds.  A fault is told only by its kind, since the program shows
nothing else of it. -/
def read (cs : List Char) : Except Fault Table := do
  let outline ← orMalformed (outline? cs)
  let table ← outline.table
  if outline.isInRange then .ok table else .error .malformed

end RunRecord.Toml
