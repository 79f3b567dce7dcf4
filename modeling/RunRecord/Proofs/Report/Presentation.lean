import Mathlib.Logic.Relation
import RunRecord.Proofs.Json.Rearrange
import RunRecord.Proofs.Json.Written
import RunRecord.Proofs.Report.RoundTrip

/-!
# Proofs/Report/Presentation — one report in many presentations

How a report may be presented is told here by tables of fields, without the shapes that read it.
A record in a document may be **rearranged** (`Rearranges`): its members reordered, unknown ones
added, defaults added and left out, the whole written as an array; and this at any record of the
document (`Rewrites`), with any white space (`Rephrases`).

Two inputs.

**Tables match shapes** (`RecordKind.fits`).  Each declared member reads what its field says, and no
two members store into the same part of a record; so a rearranged record stays the same record.

**Records sit in places** (`Contains.slot`).  What surrounds a record in a document asks no more of
it than what it is read as; so what is done to it inside, or goes wrong there, is done to the whole.
-/

namespace RunRecord

open Json

/-! ## Fields

The tables say what the format documents of a record and no more.  They mention no reader, so that a
table that differs from the shape of its record makes a proof fail, and not the statement true. -/

/-- The kinds of records in a report. -/
inductive RecordKind where
  | suite
  | test
  | step
  | operation
  | failure

/-- What stands in a field: a value with nothing inside, the name of an operation kind, a record, or
a list of records. -/
inductive FieldContent where
  | plain
  | choice
  | record (kind : RecordKind)
  | list (kind : RecordKind)

/-- A field of a record: its name, what stands for it if it is left out, and what it holds. -/
structure Field where
  name : String
  fallback : Option Tree
  content : FieldContent

/-- The empty string, the default of optional texts. -/
def emptyText : Tree := .string ⟨[], .nil⟩

/-- The number zero, the default of the failure count. -/
def zero : Tree :=
  .number ⟨[], [0x30], [], [], .inl rfl, ⟨⟨nofun, List.forall_mem_singleton.2 rfl⟩, fun _ => rfl⟩,
    .none, .none⟩

/-- **The fields of a record**, in order, with what stands for those that are left out.  A field
without a default has to be there. -/
def RecordKind.fields : RecordKind → List Field
  | suite =>
    [⟨"name", none, .plain⟩, ⟨"startTime", none, .plain⟩, ⟨"endTime", some .null, .plain⟩,
      ⟨"time", some emptyText, .plain⟩, ⟨"reports", some (.array []), .list .test⟩,
      ⟨"failures", some zero, .plain⟩]
  | test =>
    [⟨"name", none, .plain⟩, ⟨"startTime", none, .plain⟩, ⟨"endTime", some .null, .plain⟩,
      ⟨"time", some emptyText, .plain⟩, ⟨"failure", some .null, .record .failure⟩,
      ⟨"steps", some (.array []), .list .step⟩, ⟨"concurrent", some (.boolean false), .plain⟩,
      ⟨"namespace", some emptyText, .plain⟩, ⟨"skip", some (.boolean false), .plain⟩,
      ⟨"skipDelete", some (.boolean false), .plain⟩]
  | step =>
    [⟨"name", some emptyText, .plain⟩, ⟨"results", some (.array []), .list .operation⟩]
  | operation =>
    [⟨"name", none, .plain⟩, ⟨"startTime", none, .plain⟩, ⟨"endTime", some .null, .plain⟩,
      ⟨"time", some emptyText, .plain⟩, ⟨"result", some emptyText, .plain⟩,
      ⟨"message", some .null, .plain⟩, ⟨"operationType", none, .choice⟩]
  | failure => [⟨"message", none, .plain⟩, ⟨"type", none, .plain⟩]

/-! ## Rearranging records

A place is a function that puts a tree where it stands: as the value of a member of an object, or at
its position in an array.  Records inside of others are reached by composing places, so one notion
does for every depth. -/

/-- **What stands for a field of an object**: its value, or its default if it is missing. -/
inductive Field.Given (field : Field) (ms : List (Body × Tree)) : Tree → Prop
  | present {key : Body} {v : Tree} : (key, v) ∈ ms → key.Says field.name → Given field ms v
  | missing {d : Tree} : field.fallback = some d → (∀ m ∈ ms, ¬ m.1.Says field.name) →
      Given field ms d

/-- Where a field stands in a record: as a member of an object or at its position in an array. -/
inductive Holds (kind : RecordKind) (field : Field) : (Tree → Tree) → Prop
  | member {key : Body} {l r : List (Body × Tree)} : field ∈ kind.fields → key.Says field.name →
      Holds kind field fun v => .object (l ++ (key, v) :: r)
  | position {us ws : List Tree} : kind.fields[us.length]? = some field →
      Holds kind field fun v => .array (us ++ v :: ws)

/-- Where records stand in what a field holds. -/
inductive FieldContent.Within : FieldContent → RecordKind → (Tree → Tree) → Prop
  | record {kind : RecordKind} : Within (.record kind) kind id
  | list {kind : RecordKind} {us ws : List Tree} :
      Within (.list kind) kind fun v => .array (us ++ v :: ws)

/-- **One way to present a record otherwise.**  Each constructor is one such way, and their mixtures
are reached by taking one after another. -/
inductive Rearranges (kind : RecordKind) : Tree → Tree → Prop
  /-- The members come in another order. -/
  | permute {ms ms' : List (Body × Tree)} : ms.Perm ms' → Rearranges kind (.object ms) (.object ms')
  /-- A member that is no field comes in, whatever its value. -/
  | insert {key : Body} {name : String} {v : Tree} {l r : List (Body × Tree)} : key.Says name →
      (∀ field ∈ kind.fields, field.name ≠ name) →
      Rearranges kind (.object (l ++ r)) (.object (l ++ (key, v) :: r))
  /-- A missing field comes in at its default. -/
  | addDefault {field : Field} {d : Tree} {key : Body} {l r : List (Body × Tree)} :
      field ∈ kind.fields → field.fallback = some d → key.Says field.name →
      (∀ m ∈ l ++ r, ¬ m.1.Says field.name) →
      Rearranges kind (.object (l ++ r)) (.object (l ++ (key, d) :: r))
  /-- A field at its default is left out. -/
  | dropDefault {field : Field} {d : Tree} {key : Body} {l r : List (Body × Tree)} :
      field ∈ kind.fields → field.fallback = some d → key.Says field.name →
      Rearranges kind (.object (l ++ (key, d) :: r)) (.object (l ++ r))
  /-- The object becomes the array of its fields. -/
  | toArray {ms : List (Body × Tree)} {vs : List Tree} :
      List.Forall₂ (fun field v => field.Given ms v) kind.fields vs →
      Rearranges kind (.object ms) (.array vs)
  /-- The name of an operation kind becomes the key of an object. -/
  | choice {field : Field} {place : Tree → Tree} {body : Body} :
      Holds kind field place → field.content = .choice →
      Rearranges kind (place (.string body)) (place (.object [(body, .null)]))

/-- **Where one record stands in another.**  It does so as the value of a field, or as an element of
the list that a field holds. -/
inductive Contains (kind inner : RecordKind) : (Tree → Tree) → Prop
  | intro {field : Field} {place slot : Tree → Tree} : Holds kind field place →
      field.content.Within inner slot → Contains kind inner fun v => place (slot v)

/-- **A record is rearranged, or one inside it.**  At whatever depth it is, only one record is
changed in a step. -/
inductive Rewrites : RecordKind → Tree → Tree → Prop
  | here {kind : RecordKind} {v w : Tree} : Rearranges kind v w → Rewrites kind v w
  | within {kind inner : RecordKind} {place : Tree → Tree} {v w : Tree} :
      Contains kind inner place → Rewrites inner v w → Rewrites kind (place v) (place w)

/-- **A document presents a report otherwise**: other white space, or a record rearranged. -/
inductive Rephrases : Bytes → Bytes → Prop
  | respace {document other : Bytes} {v : Tree} :
      Presents document v → Presents other v → Rephrases document other
  | rewrite {document other : Bytes} {v w : Tree} : Presents document v →
      Rewrites .suite v w → Presents other w → Rephrases document other

/-- **Some record has a field twice**, under whatever spellings of its key, at any depth. -/
inductive Repeats : RecordKind → Tree → Prop
  | here {kind : RecordKind} {field : Field} {key key' : Body} {v v' : Tree}
      {l l' r : List (Body × Tree)} : field ∈ kind.fields → key.Says field.name →
      key'.Says field.name → Repeats kind (.object (l ++ (key, v) :: (l' ++ (key', v') :: r)))
  | within {kind inner : RecordKind} {place : Tree → Tree} {v : Tree} :
      Contains kind inner place → Repeats inner v → Repeats kind (place v)

/-! ## Fields and members

A member of a shape is a reader together with a name and a default.  That it implements a field is
all that the theorems below use of it. -/

/-- What a record of some kind is read as. -/
def RecordKind.Value : RecordKind → Type
  | suite => Suite
  | test => Test
  | step => Step
  | operation => Operation
  | failure => Failure

/-- The shape that reads a record of some kind. -/
def RecordKind.shape : (kind : RecordKind) → Shape kind.Value
  | suite => Suite.shape
  | test => Test.shape
  | step => Step.shape
  | operation => Operation.shape
  | failure => Failure.shape

variable {α β : Type} {kind : RecordKind}

/-- **A member implements a field**: it is read, and left out, as the field says. -/
structure Implements (shape : Shape α) (field : Field) (m : Member α) : Prop where
  name : m.name = field.name
  exact : m.read.IsExact
  fallback : ∀ d ∈ field.fallback, shape.IsDefault m d
  choice : field.content = .choice → ∀ body f, m.read.Takes (.string body) f →
    m.read.Takes (.object [(body, .null)]) f
  /-- A record inside asks no more than to be read as what it is. -/
  slot : ∀ {inner place}, field.content.Within inner place → ∀ {v f}, v ≠ .null →
    m.read.Takes (place v) f → ∃ b, inner.shape.reader.Takes v b ∧
      ∀ w, w ≠ .null → inner.shape.reader.Takes w b → m.read.Takes (place w) f

/-- What is stored is what has been read. -/
theorem takes_store_iff {x : Reader β} (hx : x.IsExact) {store : β → α → α} {v : Tree}
    {f : α → α} : Reader.Takes (do return store (← x)) v f ↔ ∃ y, x.Takes v y ∧ store y = f :=
  (hx.map store).takes_iff

/-- An element of a list matters only as far as it is related. -/
theorem exists_of_forall₂_middle {γ δ : Type} {R : γ → δ → Prop} {us ws : List γ} {v : γ}
    {as : List δ} (h : List.Forall₂ R (us ++ v :: ws) as) :
    ∃ b, R v b ∧ ∀ w, R w b → List.Forall₂ R (us ++ w :: ws) as := by
  induction us generalizing as with
  | nil =>
    cases h with
    | cons hv hrest => exact ⟨_, hv, fun w hw => .cons hw hrest⟩
  | cons u us ih =>
    cases h with
    | cons hu hrest =>
      obtain ⟨b, hv, hw⟩ := ih hrest
      exact ⟨b, hv, fun w h => .cons hu (hw w h)⟩

/-- A member that stores the default is at its default. -/
theorem isDefault_defaulted {shape : Shape α} {name : String} {x : Reader β} (hx : x.IsExact)
    {store : β → α → α} {d : Tree} {y : β} (hd : x.Takes d y)
    (hy : store y shape.blank = shape.blank) : shape.IsDefault (defaulted name x store) d :=
  ⟨rfl, store y, (takes_store_iff hx).2 ⟨y, hd, rfl⟩, hy⟩

section Implements

variable {shape : Shape α} (name : String) {x : Reader β} (store : β → α → α)

/-- A member that must be there implements a field that must be. -/
theorem implements_required (hx : x.IsExact) :
    Implements shape ⟨name, none, .plain⟩ (required name x store) where
  name := rfl
  exact := (hx.map store).isExact
  fallback := nofun
  choice := nofun
  slot := nofun

/-- A member with a default implements a field with that default. -/
theorem implements_defaulted (hx : x.IsExact) {d : Tree} {y : β} (hd : x.Takes d y)
    (hy : store y shape.blank = shape.blank) :
    Implements shape ⟨name, some d, .plain⟩ (defaulted name x store) where
  name := rfl
  exact := (hx.map store).isExact
  fallback := by
    rintro _ ⟨⟩
    exact isDefault_defaulted hx hd hy
  choice := nofun
  slot := nofun

/-- A member that is stored as optional implements a field that may be `null`. -/
theorem implements_optional {store : Option β → α → α} (hx : x.IsExact)
    (hblank : store none shape.blank = shape.blank) :
    Implements shape ⟨name, some .null, .plain⟩ (defaulted name (optional x) store) :=
  implements_defaulted name store hx.optional.isExact (hx.optional.takes (.inl ⟨rfl, rfl⟩)) hblank

/-- A member with one of several names implements a field of choice. -/
theorem implements_choice (ofName? : String → Option β) (choices : List String) :
    Implements shape ⟨name, none, .choice⟩
      (required name (choiceValue ofName? choices) store) where
  name := rfl
  exact := ((means_choiceValue ofName? choices).isExact.map store).isExact
  fallback := nofun
  choice _ body f h := by
    have hmeans := means_choiceValue ofName? choices
    obtain ⟨y, hy, rfl⟩ := (takes_store_iff hmeans.isExact).1 h
    obtain ⟨body', name, hbody, hsaid, hname⟩ := hmeans.takes_iff.1 hy
    refine (takes_store_iff hmeans.isExact).2 ⟨y, hmeans.takes ?_, rfl⟩
    obtain heq | heq := hbody
    · cases heq
      exact ⟨body, name, .inr rfl, hsaid, hname⟩
    · cases heq
  slot := nofun

/-- A member that holds a record implements a field of records, or `null`. -/
theorem implements_record (inner : RecordKind) {store : Option inner.Value → α → α}
    (hx : inner.shape.reader.IsExact) (hblank : store none shape.blank = shape.blank) :
    Implements shape ⟨name, some .null, .record inner⟩
      (defaulted name (optional inner.shape.reader) store) where
  name := rfl
  exact := (hx.optional.isExact.map store).isExact
  fallback := by
    rintro _ ⟨⟩
    exact isDefault_defaulted hx.optional.isExact (hx.optional.takes (.inl ⟨rfl, rfl⟩)) hblank
  choice := nofun
  slot := by
    rintro _ _ ⟨⟩ v f hne h
    obtain ⟨o, ho, rfl⟩ := (takes_store_iff hx.optional.isExact).1 h
    obtain ⟨hnull, -⟩ | ⟨-, b, hb, rfl⟩ := hx.optional.takes_iff.1 ho
    · exact absurd hnull hne
    · exact ⟨b, hb, fun w hw hwb => (takes_store_iff hx.optional.isExact).2
        ⟨some b, hx.optional.takes (.inr ⟨hw, b, hwb, rfl⟩), rfl⟩⟩

/-- A member that holds a list implements a field of lists, or the empty one. -/
theorem implements_list (inner : RecordKind) {store : List inner.Value → α → α}
    (hx : inner.shape.reader.IsExact) (hblank : store [] shape.blank = shape.blank) :
    Implements shape ⟨name, some (.array []), .list inner⟩
      (defaulted name (listValue inner.shape.reader) store) where
  name := rfl
  exact := (hx.listValue.isExact.map store).isExact
  fallback := by
    rintro _ ⟨⟩
    exact isDefault_defaulted hx.listValue.isExact (hx.listValue.takes ⟨[], rfl, .nil⟩) hblank
  choice := nofun
  slot := by
    rintro _ _ ⟨⟩ v f - h
    obtain ⟨as, has, rfl⟩ := (takes_store_iff hx.listValue.isExact).1 h
    obtain ⟨vs, hvs, has⟩ := hx.listValue.takes_iff.1 has
    cases hvs
    obtain ⟨b, hb, hslot⟩ := exists_of_forall₂_middle has
    exact ⟨b, hb, fun w _ hw => (takes_store_iff hx.listValue.isExact).2
      ⟨_, hx.listValue.takes ⟨_, rfl, hslot w hw⟩, rfl⟩⟩

end Implements

/-! ## Tables match shapes

For each record the table and the shape are gone through in step.  This is where a difference
between the two would show. -/

theorem takes_emptyText : textValue.Takes emptyText "" :=
  (means_textFor .text).takes ⟨_, rfl, [], .nil, by rw [Utf8.decode, String.toList_empty]; rfl⟩

theorem takes_false : booleanValue.Takes (.boolean false) false := means_booleanValue.takes rfl

theorem takes_zero : countValue.Takes zero 0 :=
  means_countValue.takes ⟨_, rfl, rfl, rfl, rfl, rfl⟩

/-- No two members of a record have one name. -/
theorem RecordKind.nodup_names (kind : RecordKind) :
    (kind.shape.members.map (·.name)).Nodup := by
  cases kind <;> decide

/-- **The members of a record store into different parts of it**, so any two of them can change
places. -/
theorem RecordKind.commute (kind : RecordKind) :
    kind.shape.members.Pairwise Member.Commutes := by
  cases kind
  all_goals
    dsimp only [Value, shape, Suite.shape, Test.shape, Step.shape, Operation.shape, Failure.shape]
    simp only [List.pairwise_cons, List.forall_mem_cons, List.not_mem_nil, false_implies,
      implies_true, List.Pairwise.nil, and_true]
    and_intros
  all_goals exact Member.commutes_of_store rfl rfl fun _ _ _ => rfl

/-- **A table matches a shape**: the members implement the fields, in order, and can come in any
order. -/
structure Fits (fields : List Field) (shape : Shape α) : Prop where
  implements : List.Forall₂ (Implements shape) fields shape.members
  nodup : (shape.members.map (·.name)).Nodup
  commute : shape.members.Pairwise Member.Commutes

/-- Every member implements a field. -/
theorem Fits.orderly {fields : List Field} {shape : Shape α} (h : Fits fields shape) :
    shape.IsOrderly where
  exact m hm := by
    obtain ⟨i, hi, rfl⟩ := List.getElem_of_mem hm
    exact (h.implements.get (h.implements.length_eq ▸ hi) hi).exact
  nodup := h.nodup
  commute := h.commute

theorem Failure.fits : Fits RecordKind.failure.fields Failure.shape where
  implements :=
    .cons (implements_required _ _ (means_textFor _).isExact) <|
    .cons (implements_required _ _ (means_textFor _).isExact) .nil
  nodup := RecordKind.failure.nodup_names
  commute := RecordKind.failure.commute

theorem Operation.fits : Fits RecordKind.operation.fields Operation.shape where
  implements :=
    .cons (implements_required _ _ (means_textFor _).isExact) <|
    .cons (implements_required _ _ means_instantValue.isExact) <|
    .cons (implements_optional _ means_instantValue.isExact rfl) <|
    .cons (implements_defaulted _ _ (means_textFor _).isExact takes_emptyText rfl) <|
    .cons (implements_defaulted _ _ (means_textFor _).isExact takes_emptyText rfl) <|
    .cons (implements_optional _ (means_textFor _).isExact rfl) <|
    .cons (implements_choice _ _ _ _) .nil
  nodup := RecordKind.operation.nodup_names
  commute := RecordKind.operation.commute

theorem Step.fits : Fits RecordKind.step.fields Step.shape where
  implements :=
    .cons (implements_defaulted _ _ (means_textFor _).isExact takes_emptyText rfl) <|
    .cons (implements_list _ .operation Operation.fits.orderly.isExact rfl) .nil
  nodup := RecordKind.step.nodup_names
  commute := RecordKind.step.commute

theorem Test.fits : Fits RecordKind.test.fields Test.shape where
  implements :=
    .cons (implements_required _ _ (means_textFor _).isExact) <|
    .cons (implements_required _ _ means_instantValue.isExact) <|
    .cons (implements_optional _ means_instantValue.isExact rfl) <|
    .cons (implements_defaulted _ _ (means_textFor _).isExact takes_emptyText rfl) <|
    .cons (implements_record _ .failure Failure.fits.orderly.isExact rfl) <|
    .cons (implements_list _ .step Step.fits.orderly.isExact rfl) <|
    .cons (implements_defaulted _ _ means_booleanValue.isExact takes_false rfl) <|
    .cons (implements_defaulted _ _ (means_textFor _).isExact takes_emptyText rfl) <|
    .cons (implements_defaulted _ _ means_booleanValue.isExact takes_false rfl) <|
    .cons (implements_defaulted _ _ means_booleanValue.isExact takes_false rfl) .nil
  nodup := RecordKind.test.nodup_names
  commute := RecordKind.test.commute

theorem Suite.fits : Fits RecordKind.suite.fields Suite.shape where
  implements :=
    .cons (implements_required _ _ (means_textFor _).isExact) <|
    .cons (implements_required _ _ means_instantValue.isExact) <|
    .cons (implements_optional _ means_instantValue.isExact rfl) <|
    .cons (implements_defaulted _ _ (means_textFor _).isExact takes_emptyText rfl) <|
    .cons (implements_list _ .test Test.fits.orderly.isExact rfl) <|
    .cons (implements_defaulted _ _ means_countValue.isExact takes_zero rfl) .nil
  nodup := RecordKind.suite.nodup_names
  commute := RecordKind.suite.commute

/-- **Every table matches its shape.** -/
theorem RecordKind.fits : (kind : RecordKind) → Fits kind.fields kind.shape
  | suite => Suite.fits
  | test => Test.fits
  | step => Step.fits
  | operation => Operation.fits
  | failure => Failure.fits

/-- The member that implements a field. -/
theorem Fits.member {fields : List Field} {shape : Shape α} (h : Fits fields shape) {i : Nat}
    {field : Field} (hi : fields[i]? = some field) :
    ∃ m, shape.members[i]? = some m ∧ Implements shape field m := by
  obtain ⟨hlt, rfl⟩ := List.getElem?_eq_some_iff.1 hi
  have hlt' : i < shape.members.length := h.implements.length_eq ▸ hlt
  exact ⟨_, List.getElem?_eq_getElem hlt', h.implements.get hlt hlt'⟩

/-- Every field has a member that implements it. -/
theorem Fits.mem {fields : List Field} {shape : Shape α} (h : Fits fields shape) {field : Field}
    (hfield : field ∈ fields) : ∃ m ∈ shape.members, Implements shape field m := by
  obtain ⟨i, hi⟩ := List.getElem?_of_mem hfield
  obtain ⟨m, hm, himplements⟩ := h.member hi
  exact ⟨m, List.mem_of_getElem? hm, himplements⟩

/-- A name that is no field is no member. -/
theorem Fits.name_ne {fields : List Field} {shape : Shape α} (h : Fits fields shape) {name : String}
    (hname : ∀ field ∈ fields, field.name ≠ name) : ∀ m ∈ shape.members, m.name ≠ name := by
  intro m hm
  obtain ⟨i, hi, rfl⟩ := List.getElem_of_mem hm
  have hlt : i < fields.length := h.implements.length_eq ▸ hi
  exact (h.implements.get hlt hi).name ▸ hname _ (List.getElem_mem hlt)

/-- What stands for the fields stands for the members that implement them. -/
theorem given_of_implements {fields : List Field} {members : List (Member α)} {shape : Shape α}
    (h : List.Forall₂ (Implements shape) fields members) {ms : List (Body × Tree)}
    {vs : List Tree} (hvs : List.Forall₂ (fun field v => field.Given ms v) fields vs) :
    List.Forall₂ (shape.Given ms) members vs := by
  induction h generalizing vs with
  | nil =>
    cases hvs
    exact .nil
  | cons hm _ ih =>
    cases hvs with
    | cons hv hvs =>
      refine .cons ?_ (ih hvs)
      cases hv with
      | present hmem hsaid => exact .present hmem (hm.name ▸ hsaid)
      | missing hd hnone => exact .missing (hm.fallback _ hd) (hm.name ▸ hnone)

/-! ## Records in places

What surrounds a record reads it and stores what it has read.  So the surroundings of a record need
not be known, only that they put it into a field. -/

/-- **What stands in a field matters only as far as it is read.**  So any other tree that the field
reads alike may be put there. -/
theorem Holds.slot {field : Field} {place : Tree → Tree} (h : Holds kind field place) {v : Tree}
    {a : kind.Value} (hv : kind.shape.reader.Takes (place v) a) :
    ∃ m ∈ kind.shape.members, ∃ f, Implements kind.shape field m ∧ m.read.Takes v f ∧
      ∀ w, m.read.Takes w f → kind.shape.reader.Takes (place w) a := by
  have horderly := kind.fits.orderly
  have hrecord := horderly.takes_iff.1 hv
  cases h with
  | member hfield hsaid =>
    obtain ⟨m, hm, himplements⟩ := kind.fits.mem hfield
    rw [← himplements.name] at hsaid
    obtain ⟨f, hf, hslot⟩ := hrecord.slot horderly hm hsaid
    exact ⟨m, hm, f, himplements, hf, fun w hw => horderly.takes_iff.2 (hslot w hw)⟩
  | position hfield =>
    obtain ⟨m, hm, himplements⟩ := kind.fits.member hfield
    cases hrecord with
    | array hlists =>
      obtain ⟨f, hf, hslot⟩ := hlists.slot hm
      exact ⟨m, List.mem_of_getElem? hm, f, himplements, hf,
        fun w hw => horderly.takes_iff.2 (.array (hslot w hw))⟩

/-- **What stands in a field is in the record**: to store it again changes nothing. -/
theorem Holds.stored {field : Field} {place : Tree → Tree} (h : Holds kind field place) {v : Tree}
    {a : kind.Value} (hv : kind.shape.reader.Takes (place v) a) :
    ∃ m ∈ kind.shape.members, m.name = field.name ∧
      ∃ f, m.read.Takes v f ∧ ((∀ x, f (f x) = f x) → f a = a) := by
  have horderly := kind.fits.orderly
  have hrecord := horderly.takes_iff.1 hv
  cases h with
  | member hfield hsaid =>
    obtain ⟨m, hm, himplements⟩ := kind.fits.mem hfield
    rw [← himplements.name] at hsaid
    exact ⟨m, hm, himplements.name, hrecord.stored horderly hm hsaid⟩
  | position hfield =>
    obtain ⟨m, hm, himplements⟩ := kind.fits.member hfield
    cases hrecord with
    | array hlists =>
      exact ⟨m, List.mem_of_getElem? hm, himplements.name, hlists.stored horderly.commute hm⟩

/-- **What surrounds a record asks no more of it than what it is read as.**  It may be read, stored
and put into a list, but its tree is not looked at otherwise. -/
theorem Contains.slot {inner : RecordKind} {place : Tree → Tree} (h : Contains kind inner place)
    {v : Tree} (hne : v ≠ .null) {a : kind.Value} (hv : kind.shape.reader.Takes (place v) a) :
    ∃ b, inner.shape.reader.Takes v b ∧
      ∀ w, w ≠ .null → inner.shape.reader.Takes w b → kind.shape.reader.Takes (place w) a := by
  obtain ⟨hholds, hwithin⟩ := h
  obtain ⟨m, -, f, himplements, hf, hplace⟩ := hholds.slot hv
  obtain ⟨b, hb, hslot⟩ := himplements.slot hwithin hne hf
  exact ⟨b, hb, fun w hw hwb => hplace _ (hslot w hw hwb)⟩

/-! ## Rearranged records

Each way to rearrange a record is a theorem on orderly shapes.  That a record is never `null` keeps
an optional one from being taken for a missing one. -/

theorem Holds.ne_null {field : Field} {place : Tree → Tree} (h : Holds kind field place)
    (v : Tree) : place v ≠ .null := by cases h <;> nofun

theorem Rearranges.ne_null {v w : Tree} (h : Rearranges kind v w) : v ≠ .null ∧ w ≠ .null := by
  cases h with
  | choice hholds => exact ⟨hholds.ne_null _, hholds.ne_null _⟩
  | _ => exact ⟨nofun, nofun⟩

theorem Rewrites.ne_null {v w : Tree} (h : Rewrites kind v w) : v ≠ .null ∧ w ≠ .null := by
  cases h with
  | here h => exact h.ne_null
  | within hplace =>
    obtain ⟨hholds, -⟩ := hplace
    exact ⟨hholds.ne_null _, hholds.ne_null _⟩

/-- **A rearranged record is the same record**, whichever of the ways it is rearranged in. -/
theorem Rearranges.takes {v w : Tree} (h : Rearranges kind v w) {a : kind.Value}
    (hv : kind.shape.reader.Takes v a) : kind.shape.reader.Takes w a := by
  have horderly := kind.fits.orderly
  have hrecord := horderly.takes_iff.1 hv
  cases h with
  | permute hperm => exact horderly.takes_iff.2 (hrecord.perm horderly hperm)
  | insert hsaid hname =>
    exact horderly.takes_iff.2 (hrecord.insert horderly hsaid (kind.fits.name_ne hname) _)
  | addDefault hfield hd hsaid habsent =>
    obtain ⟨m, hm, himplements⟩ := kind.fits.mem hfield
    rw [← himplements.name] at hsaid habsent
    exact horderly.takes_iff.2
      (hrecord.addDefault horderly hm (himplements.fallback _ hd) hsaid habsent)
  | dropDefault hfield hd hsaid =>
    obtain ⟨m, hm, himplements⟩ := kind.fits.mem hfield
    rw [← himplements.name] at hsaid
    exact horderly.takes_iff.2
      (hrecord.dropDefault horderly hm (himplements.fallback _ hd) hsaid)
  | toArray hvs =>
    exact horderly.takes_iff.2
      (hrecord.toArray horderly (given_of_implements kind.fits.implements hvs))
  | choice hholds hcontent =>
    obtain ⟨m, -, f, himplements, hf, hplace⟩ := hholds.slot hv
    exact hplace _ (himplements.choice hcontent _ f hf)

/-- **A record that is rearranged anywhere inside is the same record.**  By induction on the place:
what surrounds the record takes it as it did before. -/
theorem Rewrites.takes {v w : Tree} (h : Rewrites kind v w) {a : kind.Value}
    (hv : kind.shape.reader.Takes v a) : kind.shape.reader.Takes w a := by
  induction h with
  | here h => exact h.takes hv
  | within hplace hinner ih =>
    obtain ⟨hv', hw'⟩ := hinner.ne_null
    obtain ⟨b, hb, hslot⟩ := hplace.slot hv' hv
    exact hslot _ hw' (ih hb)

theorem Repeats.ne_null {v : Tree} (h : Repeats kind v) : v ≠ .null := by
  cases h with
  | here => nofun
  | within hplace =>
    obtain ⟨hholds, -⟩ := hplace
    exact hholds.ne_null _

/-- **No record is read where a field stands twice.**  Wherever it is, the records around it are not
read either. -/
theorem Repeats.not_takes {v : Tree} (h : Repeats kind v) (a : kind.Value) :
    ¬ kind.shape.reader.Takes v a := by
  intro hv
  induction h with
  | @here kind _ _ _ _ _ _ _ _ hfield hsaid hsaid' =>
    have horderly := kind.fits.orderly
    obtain ⟨m, hm, himplements⟩ := kind.fits.mem hfield
    rw [← himplements.name] at hsaid hsaid'
    exact Shape.not_isRecord_repeated horderly hm hsaid hsaid' _ _ _ _ _ a
      (horderly.takes_iff.1 hv)
  | within hplace hinner ih =>
    obtain ⟨b, hb, -⟩ := hplace.slot hinner.ne_null hv
    exact ih b hb

/-! ## Documents -/

/-- A document is decoded as its tree is read. -/
theorem Suite.decode_eq_ok_iff {document : Bytes} {suite : Suite} :
    Suite.decode document = .ok suite ↔
      ∃ v, Presents document v ∧ Suite.shape.reader.Takes v suite :=
  Json.decode_eq_ok_iff Suite.fits.orderly.isExact

/-- One step between documents keeps the suite.  White space is no part of the tree, and a
rearranged tree is read alike. -/
theorem Rephrases.decode {document other : Bytes} (h : Rephrases document other) {suite : Suite}
    (hdecode : Suite.decode document = .ok suite) : Suite.decode other = .ok suite := by
  obtain ⟨v, hv, htakes⟩ := Suite.decode_eq_ok_iff.1 hdecode
  cases h with
  | respace hv' hother =>
    obtain rfl := hv.unique hv'
    exact Suite.decode_eq_ok_iff.2 ⟨v, hother, htakes⟩
  | rewrite hv' hrewrites hother =>
    obtain rfl := hv.unique hv'
    exact Suite.decode_eq_ok_iff.2 ⟨_, hother, Rewrites.takes hrewrites htakes⟩

/-- **Decoding does not depend on how the document presents the data**: whatever is decoded has a
tree, every way to rewrite that gives a document, and all documents reached so are decoded to the
same suite.  A document in which some record has a field twice is not decoded. -/
theorem decode_rephrased :
    (∀ document suite, Suite.decode document = .ok suite →
      (∃ v, Presents document v ∧
        ∀ w, Rewrites .suite v w → ∃ other, Presents other w ∧ Rephrases document other) ∧
      ∀ other, Relation.ReflTransGen Rephrases document other →
        Suite.decode other = .ok suite ∧ Suite.read other = Suite.read document) ∧
    ∀ document v, Presents document v → Repeats .suite v →
      ∃ e, Suite.decode document = .error e ∧ Suite.read document = .error (.unreadable e) := by
  refine ⟨fun document suite hdecode => ⟨?_, fun other hother => ?_⟩,
    fun document v hv hrepeats => ?_⟩
  · obtain ⟨v, hv, -⟩ := Suite.decode_eq_ok_iff.1 hdecode
    refine ⟨v, hv, fun w hrewrites => ?_⟩
    obtain ⟨other, hw⟩ := w.exists_presents
    exact ⟨other, hw, .rewrite hv hrewrites hw⟩
  · have hsame : Suite.decode other = .ok suite := by
      induction hother with
      | refl => exact hdecode
      | tail _ hstep ih => exact hstep.decode ih
    exact ⟨hsame, by rw [Suite.read, Suite.read, hsame, hdecode]⟩
  · rcases hresult : Suite.decode document with e | suite
    · exact ⟨e, rfl, by rw [Suite.read, hresult]⟩
    · obtain ⟨w, hw, htakes⟩ := Suite.decode_eq_ok_iff.1 hresult
      obtain rfl := hv.unique hw
      exact absurd htakes (hrepeats.not_takes suite)

/-- A suite with one failed test. -/
def failedSuite : Suite :=
  let failure : Failure := { message := "m", kind := "k" }
  { name := "a", timing := blankTiming, failures := 1
    tests := [{ Test.shape.blank with name := "b", failure := some failure }] }

/-- The failed suite as a value, as far as its failure is left open. -/
def failedJson (failure : Json) : Json :=
  let timing := blankTiming.jsonMembers
  .object ([("name", .string "a")] ++ timing ++ [("reports", .array [.object
    ([("name", .string "b")] ++ timing ++ [("failure", failure)])]), ("failures", .ofNat 1)])

/-- The failure may be given as an array, but not with its type repeated. -/
theorem failedSuite_rephrased :
    let document failure := Utf8.encode ((failedJson failure).render .compact)
    let message : String × Json := ("message", .string "m")
    let type : String × Json := ("type", .string "k")
    Suite.decode (document (.object [message, type])) = .ok failedSuite ∧
      Suite.decode (document (.array [message.2, type.2])) = .ok failedSuite ∧
      ∃ e, Suite.decode (document (.object [type, message, type])) = .error e := by
  intro document message type
  have hpresents : ∀ failure, Presents (document failure) (failedJson failure).tree :=
    fun failure => presents_render .compact _
  have hsuite : Contains .suite .test fun v => .object (memberTrees ([("name", .string "a")] ++
      blankTiming.jsonMembers) ++ (writtenBody "reports", .array ([] ++ v :: [])) ::
        memberTrees [("failures", .ofNat 1)]) :=
    .intro (.member (List.mem_of_getElem? (i := 4) rfl) (says_writtenBody "reports")) .list
  have htest : Contains .test .failure fun v => .object (memberTrees ([("name", .string "b")] ++
      blankTiming.jsonMembers) ++ (writtenBody "failure", v) :: []) :=
    .intro (.member (List.mem_of_getElem? (i := 4) rfl) (says_writtenBody "failure")) .record
  have hdecode : Suite.decode (document (.object [message, type])) = .ok failedSuite :=
    decode_render (failedSuite.reads_toJson (by decide)) .compact
  have harray : Rearranges .failure (Json.object [message, type]).tree
      (Json.array [message.2, type.2]).tree :=
    .toArray (.cons (.present (.head _) (says_writtenBody "message")) <|
      .cons (.present (.tail _ (.head _)) (says_writtenBody "type")) .nil)
  have hrepeats : Repeats .failure (.object ([] ++ (writtenBody "type", type.2.tree) ::
      (memberTrees [message] ++ (writtenBody "type", type.2.tree) :: []))) :=
    .here (List.mem_of_getElem? (i := 1) rfl) (says_writtenBody "type") (says_writtenBody "type")
  obtain ⟨-, hsame⟩ := decode_rephrased.1 _ _ hdecode
  obtain ⟨e, he, -⟩ := decode_rephrased.2 _ _ (hpresents (.object [type, message, type]))
    (.within hsuite (.within htest hrepeats))
  refine ⟨hdecode, (hsame _ (.single (.rewrite (hpresents _) ?_ (hpresents _)))).1, e, he⟩
  exact .within hsuite (.within htest (.here harray))

end RunRecord
