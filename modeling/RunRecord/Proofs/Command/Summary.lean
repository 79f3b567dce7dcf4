import RunRecord.Command.Program
import RunRecord.Proofs.Command.Render
import RunRecord.Proofs.Report.Acceptance

/-!
# Proofs/Command/Summary — the summary command as a gate

Whether a test failed is worked out four times: for the **status** of its row, for the **count** in
the footer, for the failure count of the document, which the reader checks, and for the exit code.
All four come from the tests alone, so they agree for every document that is accepted
(`Suite.Consistent.shows`); what is not accepted shows nothing at all (`run_of_refuses`).

The gate is what a script that runs tests relies on: it looks at the code alone.  So the other side
is as important, that there is no code 0 without a report that was read to its end.  A failure of
the command has the code of failed tests; it is told from them by its message, and by an output that
is empty.
-/

namespace RunRecord

/-! ## Status and count

The status of a row has a case that the count does not have, for tests to be skipped.  A failure
goes before it. -/

namespace Status

/-- A row says that a test failed exactly if the test carries a failure, whatever it is to skip. -/
theorem ofTest_eq_failed_iff (test : Test) : ofTest test = failed ↔ test.isFailed = true := by
  rw [ofTest]
  split
  · next h => exact iff_of_true rfl h
  next h =>
    refine iff_of_false ?_ h
    split <;> exact nofun

end Status

namespace Suite

variable {suite : Suite}

/-- As many rows say that a test failed as tests carry a failure. -/
theorem countP_rows_failed (suite : Suite) :
    suite.rows.countP (·.status = .failed) = suite.failedCount := by
  rw [rows, List.countP_map, failedCount]
  refine congrArg (List.countP · suite.tests) (funext fun test => ?_)
  rw [Bool.eq_iff_iff]
  exact decide_eq_true_iff.trans (Status.ofTest_eq_failed_iff test)

/-- No test failed exactly if none carries a failure. -/
theorem failedCount_eq_zero_iff :
    suite.failedCount = 0 ↔ ∀ test ∈ suite.tests, test.failure = none := by
  rw [failedCount, List.countP_eq_zero]
  refine forall₂_congr fun test _ => ?_
  rw [Test.isFailed, Bool.not_eq_true, Option.isSome_eq_false_iff, Option.isNone_iff_eq_none]

/-- A closed suite that is consistent has counted its failed tests. -/
theorem Consistent.failures_eq (h : suite.Consistent) (hclosed : suite.isClosed = true) :
    suite.failures = suite.failedCount := by
  have hcount : suite.failures = suite.expectedFailures := h.2.1
  rwa [expectedFailures, if_pos hclosed] at hcount

end Suite

/-! ## What a file holds

A path leads to a report or there is a reason why it does not, and not both.  Why a file cannot be
read is told by the store, why a content is refused by the reader. -/

namespace FileStore

/-- A path leads to a file with a report that the reader accepts. -/
def Reports (store : FileStore) (path : String) (suite : Suite) : Prop :=
  ∃ content, store.read path = .ok content ∧ Suite.read content = .ok suite

/-- **Why there is no report at a path**: the file cannot be read, or the reader refuses it. -/
inductive Refuses (store : FileStore) (path : String) : CommandError → Prop
  | unread {e : FileError} : store.read path = .error e → Refuses store path (.readReport path e)
  | undecoded {content : Bytes} {e : ReadError} : store.read path = .ok content →
    Suite.read content = .error e → Refuses store path (.decodeReport path e)

variable {store : FileStore} {path : String}

theorem reports_or_refuses (store : FileStore) (path : String) :
    (∃ suite, store.Reports path suite) ∨ ∃ e, store.Refuses path e := by
  rcases hread : store.read path with e | content
  · exact .inr ⟨_, .unread hread⟩
  rcases hsuite : Suite.read content with e | suite
  · exact .inr ⟨_, .undecoded hread hsuite⟩
  · exact .inl ⟨suite, content, hread, hsuite⟩

/-- A path leads to one report at most. -/
theorem Reports.unique {suite other : Suite} (h : store.Reports path suite)
    (h' : store.Reports path other) : suite = other := by
  obtain ⟨content, hread, hsuite⟩ := h
  obtain ⟨content', hread', hsuite'⟩ := h'
  obtain rfl := Except.ok.inj (hread.symm.trans hread')
  exact Except.ok.inj (hsuite.symm.trans hsuite')

theorem Refuses.not_reports {e : CommandError} (h : store.Refuses path e) (suite : Suite) :
    ¬ store.Reports path suite := by
  rintro ⟨content, hread, hsuite⟩
  rcases h with hfile | ⟨hfile, hdecode⟩
  · exact nomatch hread.symm.trans hfile
  · obtain rfl := Except.ok.inj (hread.symm.trans hfile)
    exact nomatch hsuite.symm.trans hdecode

/-- There is one reason at most. -/
theorem Refuses.unique {e other : CommandError} (h : store.Refuses path e)
    (h' : store.Refuses path other) : e = other := by
  rcases h with hread | ⟨hread, hsuite⟩ <;> rcases h' with hread' | ⟨hread', hsuite'⟩
  · obtain rfl := Except.error.inj (hread.symm.trans hread')
    rfl
  · exact nomatch hread.symm.trans hread'
  · exact nomatch hread.symm.trans hread'
  · obtain rfl := Except.ok.inj (hread.symm.trans hread')
    obtain rfl := Except.error.inj (hsuite.symm.trans hsuite')
    rfl

theorem Reports.consistent {suite : Suite} (h : store.Reports path suite) : suite.Consistent := by
  obtain ⟨_, -, hsuite⟩ := h
  exact (Suite.read_eq_ok_iff.1 hsuite).2

end FileStore

/-! ## What the command does -/

section Run

variable {store : FileStore}

theorem loadReport_of_reports {path : String} {suite : Suite} (h : store.Reports path suite) :
    loadReport FileStore.access path store = (.ok suite, store) := by
  obtain ⟨content, hread, hsuite⟩ := h
  simp only [loadReport, bind, StateT.bind, FileStore.access, hread, hsuite]
  rfl

theorem loadReport_of_refuses {path : String} {e : CommandError} (h : store.Refuses path e) :
    loadReport FileStore.access path store = (.error e, store) := by
  rcases h with hread | ⟨hread, hsuite⟩
  · simp only [loadReport, bind, StateT.bind, FileStore.access, hread]
    rfl
  · simp only [loadReport, bind, StateT.bind, FileStore.access, hread, hsuite]
    rfl

/-- The exit of the command on an accepted report: its table, and a code for its failed tests. -/
def Suite.summaryExit (suite : Suite) (colours : Bool) : Exit :=
  { code := if suite.anyFailed then 1 else 0, output := suite.printSummary colours, messages := "" }

/-- The exit of a command that failed: nothing but a message. -/
def CommandError.exit (e : CommandError) : Exit :=
  { code := 1, output := "", messages := "Error: " ++ e.message ++ "\n" }

variable {options : SummaryOptions} (colours : Bool) (log : Log)

theorem run_of_reports {suite : Suite} (h : store.Reports options.input suite) :
    (Command.summary options).run FileStore.access colours log store
      = (suite.summaryExit colours, store) := by
  have hcode : (if (!suite.anyFailed) = true then 0 else 1) = if suite.anyFailed then 1 else 0 := by
    rcases suite.anyFailed <;> rfl
  simp only [Command.run, SummaryOptions.run, bind, StateT.bind, loadReport_of_reports h]
  rw [Suite.summaryExit, ← hcode]
  rfl

theorem run_of_refuses {e : CommandError} (h : store.Refuses options.input e) :
    (Command.summary options).run FileStore.access colours log store = (e.exit, store) := by
  simp only [Command.run, SummaryOptions.run, bind, StateT.bind, loadReport_of_refuses h]
  rfl

end Run

/-! ## The gate

The numbers are counted at different places and of different things: rows, a text in the footer,
tests, and a field of the document.  They agree because a report that is accepted is consistent. -/

/-- **What the exit on a report shows**: a row for each test in order, and a number of failed tests
that the footer, the rows, the tests, the stored count of a closed suite and the exit code agree
on. -/
structure Suite.Shows (suite : Suite) (colours : Bool) (exit : Exit) (rows : List Row)
    (failed : Nat) : Prop where
  rows_eq : rows = suite.tests.map Row.ofTest
  length_rows : rows.length = suite.tests.length
  output : exit.output = "\n" ++ String.join
    ((Terminal.paint colours [.bold] suite.header :: (rows.map (Row.render colours) ++
      [Terminal.paint colours suite.footerStyle
        s!"{suite.tests.length} tests, {failed} failed, total {durationText suite.timing.time}"]
      )).map (· ++ "\n"))
  messages : exit.messages = ""
  failed_rows : rows.countP (·.status = .failed) = failed
  failed_tests : suite.tests.countP (·.failure.isSome) = failed
  failed_stored : suite.isClosed = true → suite.failures = failed
  code : exit.code = if 0 < failed then 1 else 0

namespace Suite

variable {suite : Suite}

theorem code_summaryExit (suite : Suite) (colours : Bool) :
    (suite.summaryExit colours).code = if 0 < suite.failedCount then 1 else 0 := by
  rw [summaryExit, anyFailed]
  simp only [decide_eq_true_eq]

theorem code_summaryExit_eq_zero_iff (colours : Bool) :
    (suite.summaryExit colours).code = 0 ↔ ∀ test ∈ suite.tests, test.failure = none := by
  rw [code_summaryExit, ← failedCount_eq_zero_iff]
  split <;> omega

theorem Consistent.shows (h : suite.Consistent) (colours : Bool) :
    suite.Shows colours (suite.summaryExit colours) suite.rows suite.failedCount where
  rows_eq := rfl
  length_rows := List.length_map _
  output := rfl
  messages := rfl
  failed_rows := suite.countP_rows_failed
  failed_tests := rfl
  failed_stored := h.failures_eq
  code := suite.code_summaryExit colours

/-- A table is never empty, so it is never taken for a failure. -/
theorem summaryExit_ne_exit (suite : Suite) (colours : Bool) (e : CommandError) :
    suite.summaryExit colours ≠ e.exit := by
  intro h
  have hmessages : "" = "Error: " ++ e.message ++ "\n" := congrArg Exit.messages h
  have hlength := congrArg String.length hmessages
  rw [String.length_append, String.length_append] at hlength
  have hbreak : "\n".length = 1 := rfl
  have hempty : "".length = 0 := rfl
  omega

end Suite

/-- **The summary command is a gate.**  It leaves the files as they are, and its code is 0 exactly
if the file holds a report that the reader accepts and no test in it carries a failure.  It fails,
with a message and no output, exactly if the file cannot be read or the reader refuses it; of what
is accepted it shows every test, and the number of failed tests is the same however it is told. -/
theorem summary_gate (options : SummaryOptions) (colours : Bool) (log : Log) (store : FileStore) :
    ∃ exit, (Command.summary options).run FileStore.access colours log store = (exit, store) ∧
      (exit.code = 0 ↔ ∃ suite, store.Reports options.input suite ∧
        ∀ test ∈ suite.tests, test.failure = none) ∧
      ((∃ e : CommandError, exit = e.exit) ↔ ∃ e, store.Refuses options.input e) ∧
      (∀ e, store.Refuses options.input e → exit = e.exit) ∧
      ∀ suite, store.Reports options.input suite →
        ∃ rows failed, suite.Shows colours exit rows failed := by
  obtain ⟨suite, hreports⟩ | ⟨e, hrefuses⟩ := store.reports_or_refuses options.input
  · have hnot : ¬ ∃ e, store.Refuses options.input e := fun ⟨_, he⟩ => he.not_reports suite hreports
    refine ⟨_, run_of_reports colours log hreports, ?_, ?_, fun e he => absurd ⟨e, he⟩ hnot, ?_⟩
    · rw [Suite.code_summaryExit_eq_zero_iff]
      refine ⟨fun hpassed => ⟨suite, hreports, hpassed⟩, ?_⟩
      rintro ⟨other, hother, hpassed⟩
      obtain rfl := hreports.unique hother
      exact hpassed
    · exact iff_of_false (fun ⟨e, he⟩ => suite.summaryExit_ne_exit colours e he) hnot
    · intro other hother
      obtain rfl := hreports.unique hother
      exact ⟨_, _, hreports.consistent.shows colours⟩
  · refine ⟨_, run_of_refuses colours log hrefuses, ?_, iff_of_true ⟨e, rfl⟩ ⟨e, hrefuses⟩, ?_, ?_⟩
    · refine iff_of_false (Nat.succ_ne_zero 0) ?_
      rintro ⟨suite, hreports, -⟩
      exact hrefuses.not_reports suite hreports
    · intro other hother
      rw [hrefuses.unique hother]
    · intro suite hreports
      exact absurd hreports (hrefuses.not_reports suite)

/-- An open suite whose one test is to be skipped and has failed. -/
def openSuite : Suite :=
  let test := Test.begin "t" false "" true false firstInstant
  (Suite.begin "s" firstInstant).addTest
    (test.attachFailure { message := "boom", kind := "Error" })

/-- The open suite does not pass, although it stores no failures and its test is to be skipped. -/
theorem openSuite_not_passed :
    ∃ exit rows, (Command.summary { input := "report.json" }).run FileStore.access false
        { enabled := true, colours := false, stamp := "" } (homeStore (openSuite.encode .json))
          = (exit, homeStore (openSuite.encode .json)) ∧
      openSuite.failures = 0 ∧ openSuite.Shows false exit rows 1 ∧ exit.code = 1 := by
  have hreports : (homeStore (openSuite.encode .json)).Reports "report.json" openSuite :=
    ⟨_, rfl, Suite.read_encode_ok (by decide) rfl⟩
  obtain ⟨exit, hrun, -, -, -, hshows⟩ := summary_gate { input := "report.json" } false
    { enabled := true, colours := false, stamp := "" } (homeStore (openSuite.encode .json))
  obtain ⟨rows, failed, hshows⟩ := hshows openSuite hreports
  obtain rfl : 1 = failed := hshows.failed_tests
  exact ⟨exit, rows, hrun, rfl, hshows, hshows.code⟩

end RunRecord
