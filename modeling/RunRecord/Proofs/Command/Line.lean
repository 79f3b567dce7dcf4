import Mathlib.Data.List.Nodup
import Mathlib.Data.List.TakeWhile
import RunRecord.Command.Program
import RunRecord.Files.Store

/-!
# Proofs/Command/Line — options in any order and in any form

An option with its value can be written in five **forms**.  Reading goes through the arguments from
left to right and may wait for a value in between, but an option written in any of its forms comes
to one and the same thing: it is **given** (`readArguments_written`).  What a whole line comes to
then depends on the options given and not on their order, since no option is given twice.

Values are ordinary here: a value that starts with a dash may be taken for an option, and one that
starts with an equals sign may lose it, depending on the form.  All that is shown about the program
is shown for any calls on files, since the line is read before the first of them; for a line that is
refused there is none at all.
-/

namespace RunRecord

/-! ## Forms

Five forms, each with the arguments that it makes.  Two of them put the value into an argument of
its own, so that it has to be told from an option there. -/

/-- The forms in which an option is written. -/
inductive OptionForm where
  /-- The letter, and the value as the next argument. -/
  | letter
  /-- The value directly behind the letter. -/
  | letterJoined
  /-- The value behind the letter and an equals sign. -/
  | letterEquals
  /-- The word, and the value as the next argument. -/
  | word
  /-- The value behind the word and an equals sign. -/
  | wordEquals
deriving DecidableEq, Repr

/-- An option as it is written. -/
structure WrittenOption where
  option : OptionName
  value : String
  form : OptionForm
deriving DecidableEq, Repr

namespace WrittenOption

/-- The arguments that make up a written option. -/
def arguments (written : WrittenOption) : List String :=
  let letter := String.ofList ['-', written.option.letter]
  let word := "--" ++ written.option.word
  match written.form with
  | .letter => [letter, written.value]
  | .letterJoined => [letter ++ written.value]
  | .letterEquals => [letter ++ "=" ++ written.value]
  | .word => [word, written.value]
  | .wordEquals => [word ++ "=" ++ written.value]

/-- The option and its value, whatever the form. -/
def given (written : WrittenOption) : OptionName × String := (written.option, written.value)

end WrittenOption

/-- **An ordinary value**: one that is not empty and starts with neither `-` nor `=`. -/
def IsOrdinary (value : String) : Prop :=
  value.toList.head?.any (fun c => c ≠ '-' && c ≠ '=') = true

/-- Whether a value is ordinary is told by its first character. -/
instance (value : String) : Decidable (IsOrdinary value) := inferInstanceAs (Decidable (_ = true))

theorem IsOrdinary.exists_cons {value : String} (h : IsOrdinary value) :
    ∃ c cs, value.toList = c :: cs ∧ c ≠ '-' ∧ c ≠ '=' := by
  obtain ⟨c, hc, hmark⟩ := (Option.any_eq_true _ _).1 h
  obtain ⟨cs, hcs⟩ := List.head?_eq_some_iff.1 hc
  exact ⟨c, cs, hcs, by simpa using hmark⟩

namespace RenderOptions

/-- The options with their values, in the order of the help page. -/
def given (options : RenderOptions) : GivenOptions :=
  (.input, options.input) :: ((options.config.map (OptionName.config, ·)).toList ++
    (options.format.map (OptionName.format, ·)).toList ++
      (options.name.map (OptionName.name, ·)).toList)

/-- The options in the order of the help page, each by its word with the value behind it. -/
def arguments (options : RenderOptions) : List String :=
  options.given.flatMap fun (option, value) => ["--" ++ option.word, value]

end RenderOptions

/-! ## Arguments

An argument is first taken for what it looks like, by its dashes, and only then asked whether a
command knows it. -/

namespace Argument

/-- An ordinary value does not look like an option. -/
theorem ofString_of_ordinary {value : String} (h : IsOrdinary value) :
    ofString value = .plain value := by
  obtain ⟨c, cs, hvalue, hc, -⟩ := h.exists_cons
  unfold ofString
  rw [hvalue]
  split
  · next heq => exact absurd (List.cons.inj heq).1 hc
  · next heq => exact absurd (List.cons.inj heq).1 hc
  · next heq => exact absurd (List.cons.inj heq).1 hc
  · rfl

theorem ofString_letter (option : OptionName) {s : String} {attached : List Char}
    (h : s.toList = '-' :: option.letter :: attached) :
    ofString s = .short option.letter attached := by
  rw [ofString, h]
  cases option <;> rfl

theorem ofString_word (option : OptionName) :
    ofString ("--" ++ option.word) = .long option.word none := by
  cases option <;> rfl

theorem ofString_word_equals (option : OptionName) {s : String} {value : List Char}
    (h : s.toList = "--".toList ++ option.word.toList ++ '=' :: value) :
    ofString s = .long option.word (some (String.ofList value)) := by
  rw [ofString, h]
  cases option <;> rfl

end Argument

/-! ## Meanings -/

namespace OptionName

theorem word_injective : Function.Injective word := by
  intro option other
  cases option <;> cases other <;> decide

theorem letter_injective : Function.Injective letter := by
  intro option other
  cases option <;> cases other <;> decide

end OptionName

/-- What is known is found by what tells it from the rest. -/
theorem find?_of_injective {α β : Type} [DecidableEq β] {f : α → β} (hf : Function.Injective f)
    {a : α} {as : List α} (h : a ∈ as) : as.find? (fun b => decide (f b = f a)) = some a := by
  have hsome : (as.find? fun b => decide (f b = f a)).isSome := by
    rw [List.find?_isSome]
    exact ⟨a, h, decide_eq_true rfl⟩
  obtain ⟨b, hb⟩ := Option.isSome_iff_exists.1 hsome
  have heq : f b = f a := by simpa using List.find?_some hb
  rw [hb, hf heq]

section Meaning

variable {known : List OptionName} {option : OptionName}

theorem meaning?_word (h : option ∈ known) :
    (Argument.long option.word none).meaning? known = some (.awaiting option) := by
  have hhelp : option.word ≠ "help" := by cases option <;> decide
  rw [Argument.meaning?, if_neg fun hword => hhelp hword.1,
    find?_of_injective OptionName.word_injective h]
  rfl

theorem meaning?_word_equals (h : option ∈ known) (value : String) :
    (Argument.long option.word (some value)).meaning? known = some (.given option value) := by
  have hnone : ¬ (option.word = "help" ∧ some value = none) := fun hword => nomatch hword.2
  rw [Argument.meaning?, if_neg hnone,
    find?_of_injective OptionName.word_injective h]
  rfl

theorem meaning?_letter (h : option ∈ known) (attached : List Char) :
    (Argument.short option.letter attached).meaning? known = some
      (if attached = [] then .awaiting option
      else .given option (String.ofList (attachedValue attached))) := by
  have hhelp : option.letter ≠ 'h' := by cases option <;> decide
  rw [Argument.meaning?, if_neg hhelp, find?_of_injective OptionName.letter_injective h]
  rfl

end Meaning

/-! ## One option

The reader keeps the option whose value it waits for.  An option written in two arguments goes
through this state, and the others do not; behind the option both are in the same. -/

section Reading

variable {known : List OptionName} {given : GivenOptions} {arg : String} {option : OptionName}
  {value : String}

/-- The mark `--` means nothing to a command, so an argument that means something is another. -/
theorem ne_separator {meaning : Meaning}
    (h : (Argument.ofString arg).meaning? known = some meaning) : arg ≠ "--" := by
  rintro rfl
  cases h

theorem readArguments_of_given
    (h : (Argument.ofString arg).meaning? known = some (.given option value)) (args : List String) :
    readArguments known (arg :: args) given
      = (given.give? option value).bind (readArguments known args) := by
  rw [readArguments, if_neg (ne_separator h)]
  simp only [h]
  rfl

theorem readArguments_of_awaiting
    (h : (Argument.ofString arg).meaning? known = some (.awaiting option))
    (hvalue : IsOrdinary value) (args : List String) :
    readArguments known (arg :: value :: args) given
      = (given.give? option value).bind (readArguments known args) := by
  rw [readArguments, if_neg (ne_separator h)]
  simp only [h, Argument.ofString_of_ordinary hvalue]
  rfl

/-- **An option is given in whatever form it is written**, at whatever place in the line.  What was
given before is looked at only for whether the option is in it. -/
theorem readArguments_written {written : WrittenOption} (hknown : written.option ∈ known)
    (hvalue : IsOrdinary written.value) (args : List String) :
    readArguments known (written.arguments ++ args) given
      = (given.give? written.option written.value).bind (readArguments known args) := by
  obtain ⟨option, value, form⟩ := written
  obtain ⟨c, cs, hcs, -, hequals⟩ := hvalue.exists_cons
  dsimp only at hknown hvalue hcs
  cases form with
  | letter =>
    have hshort : Argument.ofString (String.ofList ['-', option.letter])
        = .short option.letter [] := Argument.ofString_letter option String.toList_ofList
    refine readArguments_of_awaiting ?_ hvalue args
    rw [hshort, meaning?_letter hknown, if_pos rfl]
  | letterJoined =>
    have hshort : Argument.ofString (String.ofList ['-', option.letter] ++ value)
        = .short option.letter value.toList := Argument.ofString_letter option (by simp)
    have hattached : attachedValue value.toList = value.toList := by
      rw [hcs, attachedValue]
      exact fun _ heq => hequals (List.cons.inj heq).1
    refine readArguments_of_given ?_ args
    rw [hshort, meaning?_letter hknown, if_neg (by simp [hcs]), hattached, String.ofList_toList]
  | letterEquals =>
    have hshort : Argument.ofString (String.ofList ['-', option.letter] ++ "=" ++ value)
        = .short option.letter ('=' :: value.toList) := Argument.ofString_letter option (by simp)
    refine readArguments_of_given ?_ args
    rw [hshort, meaning?_letter hknown, if_neg (by simp), attachedValue, String.ofList_toList]
  | word =>
    refine readArguments_of_awaiting ?_ hvalue args
    rw [Argument.ofString_word, meaning?_word hknown]
  | wordEquals =>
    have hlong : Argument.ofString ("--" ++ option.word ++ "=" ++ value)
        = .long option.word (some (String.ofList value.toList)) :=
      Argument.ofString_word_equals option (by simp)
    refine readArguments_of_given ?_ args
    rw [hlong, String.ofList_toList, meaning?_word_equals hknown]

/-- The names of options. -/
def GivenOptions.names (given : GivenOptions) : List OptionName := given.map Prod.fst

theorem give?_of_ordinary (hvalue : IsOrdinary value) :
    given.give? option value =
      if option ∈ given.names then none else some ((option, value) :: given) := by
  obtain ⟨c, cs, hcs, -⟩ := hvalue.exists_cons
  have hempty : value.isEmpty = false := by
    rw [← Bool.not_eq_true, String.isEmpty_iff]
    rintro rfl
    cases hcs
  have hgiven : (given.lookup option).isSome = true ↔ option ∈ given.names := by
    rw [← Option.ne_none_iff_isSome, ne_eq, Keyed.lookup_eq_none_iff, not_not]
    rfl
  rw [GivenOptions.give?, hempty, Bool.and_false, Bool.or_false]
  simp only [hgiven]

/-- **A line of options is read as what it gives**, the last in front, as long as no option is given
twice. -/
theorem readArguments_flatMap {written : List WrittenOption}
    (h : ∀ w ∈ written, w.option ∈ known ∧ IsOrdinary w.value) (hgiven : given.names.Nodup) :
    readArguments known (written.flatMap WrittenOption.arguments) given =
      let all : GivenOptions := (written.map WrittenOption.given).reverse ++ given
      if all.names.Nodup then some (.options all) else none := by
  induction written generalizing given with
  | nil =>
    rw [List.flatMap_nil, readArguments]
    exact (if_pos hgiven).symm
  | cons w written ih =>
    obtain ⟨⟨hknown, hvalue⟩, hwritten⟩ := List.forall_mem_cons.1 h
    rw [List.flatMap_cons, readArguments_written hknown hvalue, give?_of_ordinary hvalue,
      List.map_cons, List.reverse_cons, List.append_assoc, List.singleton_append]
    split
    · next htwice =>
      refine (if_neg fun hnodup => ?_).symm
      rw [GivenOptions.names, List.map_append] at hnodup
      exact (List.nodup_cons.1 hnodup.of_append_right).1 htwice
    · next hnew => exact ih hwritten (List.nodup_cons.2 ⟨hnew, hgiven⟩)

end Reading

/-! ## The order of options

The options given are a list without repetitions, and what they come to is looked up by name.  So
two lists that are the same but for their order come to the same. -/

/-- Keys that differ lead to the same values in any order. -/
theorem Keyed.lookup_of_perm {κ α : Type} [BEq κ] [LawfulBEq κ] {entries entries' : List (κ × α)}
    (h : entries.Perm entries') (hkeys : (entries.map Prod.fst).Nodup) (key : κ) :
    entries.lookup key = entries'.lookup key := by
  induction h with
  | nil => rfl
  | cons entry _ ih =>
    rw [List.lookup_cons, List.lookup_cons, ih (List.nodup_cons.1 hkeys).2]
  | swap entry other entries =>
    obtain ⟨k, a⟩ := entry
    obtain ⟨k', a'⟩ := other
    have hne : k' ≠ k := fun heq => (List.nodup_cons.1 hkeys).1 (heq ▸ List.mem_cons_self)
    rw [List.lookup_cons, List.lookup_cons, List.lookup_cons, List.lookup_cons]
    cases hk : key == k with
    | false => rfl
    | true =>
      have hk' : (key == k') = false := by
        rw [eq_of_beq hk]
        exact beq_eq_false_iff_ne.2 (Ne.symm hne)
      rw [hk']
  | trans h _ ih ih' => rw [ih hkeys, ih' ((h.map Prod.fst).nodup_iff.1 hkeys)]

namespace RenderOptions

theorem nodup_names_given (options : RenderOptions) : options.given.names.Nodup := by
  obtain ⟨input, config, format, name⟩ := options
  cases config <;> cases format <;> cases name <;> simp [given, GivenOptions.names]

theorem renderWith?_given (options : RenderOptions) :
    Command.renderWith? options.given = some (.render options) := by
  obtain ⟨input, config, format, name⟩ := options
  cases config <;> cases format <;> cases name <;> rfl

end RenderOptions

namespace Command

theorem renderWith?_of_perm {given given' : GivenOptions} (h : given.Perm given')
    (hnames : given.names.Nodup) : renderWith? given = renderWith? given' := by
  have hlookup := Keyed.lookup_of_perm h hnames
  simp only [renderWith?, hlookup]

theorem renderWith?_of_notMem {given : GivenOptions} (h : OptionName.input ∉ given.names) :
    renderWith? given = none := by
  rw [renderWith?, Keyed.lookup_eq_none_iff.2 h]
  rfl

/-- **A line of ordinary options asks for what they give together**, if none is given twice. -/
theorem ofArguments?_render {written : List WrittenOption}
    (h : ∀ w ∈ written, IsOrdinary w.value) :
    ofArguments? ("render" :: written.flatMap WrittenOption.arguments) =
      if (written.map WrittenOption.option).Nodup then
        renderWith? (written.map WrittenOption.given)
      else none := by
  have hknown : ∀ w ∈ written,
      w.option ∈ [OptionName.input, .config, .format, .name] ∧ IsOrdinary w.value :=
    fun w hw => ⟨by cases w.option <;> decide, h w hw⟩
  have hread := readArguments_flatMap hknown (show (GivenOptions.names []).Nodup from .nil)
  have hnames : (GivenOptions.names (written.map WrittenOption.given).reverse).Nodup ↔
      (written.map WrittenOption.option).Nodup := by
    rw [GivenOptions.names, List.map_reverse, List.nodup_reverse, List.map_map]
    rfl
  rw [ofArguments?, if_pos rfl, withOptions?, hread, List.append_nil]
  dsimp only
  split_ifs with hall hnodup hnodup
  · exact renderWith?_of_perm (List.reverse_perm _) hall
  · exact absurd (hnames.1 hall) hnodup
  · exact absurd (hnames.2 hnodup) hall
  · rfl

/-- The options of a command in any order and in any form. -/
theorem ofArguments?_of_perm {written : List WrittenOption} (h : ∀ w ∈ written, IsOrdinary w.value)
    {options : RenderOptions} (hperm : (written.map WrittenOption.given).Perm options.given) :
    ofArguments? ("render" :: written.flatMap WrittenOption.arguments)
      = some (.render options) := by
  have hnodup : (GivenOptions.names (written.map WrittenOption.given)).Nodup :=
    (hperm.map Prod.fst).nodup_iff.2 options.nodup_names_given
  have hnames : (written.map WrittenOption.option).Nodup := by
    rwa [GivenOptions.names, List.map_map] at hnodup
  rw [ofArguments?_render h, if_pos hnames, renderWith?_of_perm hperm hnodup,
    options.renderWith?_given]

/-- The options of a command by their words, in the order of the help page. -/
theorem ofArguments?_arguments {options : RenderOptions}
    (h : ∀ entry ∈ options.given, IsOrdinary entry.2) :
    ofArguments? ("render" :: options.arguments) = some (.render options) := by
  let byWord : List WrittenOption := options.given.map fun entry => ⟨entry.1, entry.2, .word⟩
  have hordinary : ∀ w ∈ byWord, IsOrdinary w.value := by
    intro w hw
    obtain ⟨entry, hentry, rfl⟩ := List.mem_map.1 hw
    exact h entry hentry
  have hgiven : byWord.map WrittenOption.given = options.given := by
    rw [List.map_map]
    exact List.map_id _
  have harguments : options.arguments = byWord.flatMap WrittenOption.arguments := by
    rw [List.flatMap_map]
    rfl
  rw [harguments, ofArguments?_of_perm hordinary (.of_eq hgiven)]

/-- A line that gives an option twice, or no input, asks for nothing. -/
theorem ofArguments?_eq_none {written : List WrittenOption} (h : ∀ w ∈ written, IsOrdinary w.value)
    (hwritten : ¬ (written.map WrittenOption.option).Nodup ∨
      OptionName.input ∉ written.map WrittenOption.option) :
    ofArguments? ("render" :: written.flatMap WrittenOption.arguments) = none := by
  rw [ofArguments?_render h]
  split
  · next hnodup =>
    refine renderWith?_of_notMem ?_
    rw [GivenOptions.names, List.map_map]
    exact hwritten.resolve_left (not_not_intro hnodup)
  · rfl

end Command

/-! ## Whole lines -/

/-- **Order and form of options do not matter.**  Each option with an ordinary value and at most
once, in any order and in any form: the program does what it does when they are given by their words
in the order of the help page, and that is the command with these options.  If an option is given
twice, or the input is not given, the exit code is 2, nothing is put out, and no file is even looked
at. -/
theorem order_and_form_do_not_matter {m : Type → Type} [Monad m] (files : FileAccess m)
    (colours : Bool) (log : Log) {written : List WrittenOption}
    (h : ∀ w ∈ written, IsOrdinary w.value) :
    let arguments := "render" :: written.flatMap WrittenOption.arguments
    (∀ options : RenderOptions, (written.map WrittenOption.given).Perm options.given →
      runProgram files colours log arguments
        = runProgram files colours log ("render" :: options.arguments) ∧
      runProgram files colours log arguments = (Command.render options).run files colours log) ∧
    (¬ (written.map WrittenOption.option).Nodup ∨ OptionName.input ∉ written.map (·.option) →
      ∃ exit, runProgram files colours log arguments = pure exit ∧ exit.code = 2 ∧
        exit.output = "") := by
  intro arguments
  refine ⟨fun options hperm => ?_, fun hwritten => ⟨.misused colours, ?_, rfl, rfl⟩⟩
  · have hgiven : ∀ entry ∈ options.given, IsOrdinary entry.2 := by
      intro entry hentry
      obtain ⟨w, hw, rfl⟩ := List.mem_map.1 (hperm.mem_iff.2 hentry)
      exact h w hw
    rw [runProgram, runProgram, Command.ofArguments?_of_perm h hperm,
      Command.ofArguments?_arguments hgiven]
    exact ⟨rfl, rfl⟩
  · rw [runProgram, Command.ofArguments?_eq_none h hwritten]

/-- Options whose values are a command, a word of help, a pair and a path. -/
def trickyOptions : RenderOptions :=
  { input := "render", config := some "i=r/c.toml", format := some "help", name := some "a=-b" }

/-- The options the other way round, each in a form of its own. -/
def trickyLine : List WrittenOption :=
  [⟨.name, "a=-b", .letterEquals⟩, ⟨.format, "help", .letterJoined⟩, ⟨.config, "i=r/c.toml", .word⟩,
    ⟨.input, "render", .letter⟩]

/-- The line is read as it is meant; with a second input, or without one, it is refused. -/
theorem trickyLine_read :
    let run := runProgram FileStore.access false { enabled := true, colours := false, stamp := "" }
    let repeated : List WrittenOption := ⟨.input, "a.json", .wordEquals⟩ :: trickyLine
    (∀ w ∈ repeated, IsOrdinary w.value) ∧
      (trickyLine.map WrittenOption.given).Perm trickyOptions.given ∧
      run ["render", "-n=a=-b", "-fhelp", "--config", "i=r/c.toml", "-i", "render"]
        = run ["render", "--input", "render", "--config", "i=r/c.toml", "--format", "help",
          "--name", "a=-b"] ∧
      (∃ exit, run ["render", "--input=a.json", "-n=a=-b", "-fhelp", "--config", "i=r/c.toml",
        "-i", "render"] = pure exit ∧ exit.code = 2 ∧ exit.output = "") ∧
      ∃ exit, run ["render", "-n=a=-b"] = pure exit ∧ exit.code = 2 ∧ exit.output = "" := by
  intro run repeated
  have hordinary : ∀ w ∈ repeated, IsOrdinary w.value := by decide
  have hname : ∀ w ∈ [(⟨.name, "a=-b", .letterEquals⟩ : WrittenOption)], IsOrdinary w.value := by
    decide
  have hperm : (trickyLine.map WrittenOption.given).Perm trickyOptions.given := by decide
  have hline := order_and_form_do_not_matter FileStore.access false
    { enabled := true, colours := false, stamp := "" } (List.forall_mem_cons.1 hordinary).2
  have hrepeated := order_and_form_do_not_matter FileStore.access false
    { enabled := true, colours := false, stamp := "" } hordinary
  have hnoInput := order_and_form_do_not_matter FileStore.access false
    { enabled := true, colours := false, stamp := "" } hname
  exact ⟨hordinary, hperm, (hline.1 trickyOptions hperm).1, hrepeated.2 (.inl (by decide)),
    hnoInput.2 (.inr (by decide))⟩

end RunRecord
