-- SUMMARY: The command line of a detached supervisor on Windows (`windows_detach.rs`): quoting, refused NUL units, and the round trip with the splitting rules.
import Procherd.Error
import Procherd.Format.CommandLine
import Mathlib.Data.Bool.AllAny
import Mathlib.Data.List.Induction

/-!
# The command line of the supervisor

On Windows the supervisor is started with one text instead of a list of
arguments. A path is the list of its 16-bit units, which need not be valid
UTF-16.
-/

namespace Procherd

open CommandLine

/-- `str::encode_utf16`. -/
def encodeUtf16 (text : String) : List UInt16 :=
  text.toList.flatMap fun c =>
    if c.toNat < 0x10000 then [.ofNat c.toNat]
    else
      let code := c.toNat - 0x10000
      [.ofNat (0xD800 + code / 0x400), .ofNat (0xDC00 + code % 0x400)]

/-! ## Quoting -/

/-- The loop of `append_quoted`: the output, and the backslashes not yet in it. -/
def quoteUnit : List UInt16 × Nat → UInt16 → List UInt16 × Nat
  | (output, backslashes), unit =>
    if unit = BACKSLASH then (output, backslashes + 1)
    else if unit = QUOTE then
      (output ++ List.replicate (backslashes * 2 + 1) BACKSLASH ++ [QUOTE], 0)
    else (output ++ List.replicate backslashes BACKSLASH ++ [unit], 0)

def needsQuotes (argument : List UInt16) : Bool :=
  argument.isEmpty || argument.any fun unit => unit = SPACE || unit = TAB || unit = QUOTE

def appendQuoted (output argument : List UInt16) : List UInt16 :=
  if !needsQuotes argument then output ++ argument
  else
    let (output, backslashes) := argument.foldl quoteUnit (output ++ [QUOTE], 0)
    output ++ List.replicate (backslashes * 2) BACKSLASH ++ [QUOTE]

/-! ## The command line -/

def wide (value : List UInt16) : Except IoError (List UInt16) :=
  if 0 ∈ value then
    .error { kind := .invalidInput, message := "Windows process argument contains a NUL code unit" }
  else .ok value

def nulTerminated (value : List UInt16) : Except IoError (List UInt16) := do
  let units ← wide value
  return units ++ [0]

def buildCommandLine (executable runDir : List UInt16) : Except IoError (List UInt16) := do
  let commandLine := appendQuoted [] (← wide executable)
  let commandLine := commandLine ++ [SPACE]
  let commandLine := commandLine ++ encodeUtf16 "__supervise"
  let commandLine := commandLine ++ [SPACE]
  let commandLine := commandLine ++ encodeUtf16 "--run-dir"
  let commandLine := commandLine ++ [SPACE]
  let commandLine := appendQuoted commandLine (← wide runDir)
  return commandLine ++ [0]

/-- `createProcess` is `CreateProcessW`, with the name of the application and the
    command line. -/
def spawnSupervisor (createProcess : List UInt16 → List UInt16 → Except IoError Unit)
    (executable runDir : List UInt16) : Except IoError Unit := do
  let applicationName ← nulTerminated executable
  let commandLine ← buildCommandLine executable runDir
  createProcess applicationName commandLine

/-! ## What is quoted -/

theorem plain_of_not_needsQuotes {argument : List UInt16} (h : needsQuotes argument = false) :
    argument ≠ [] ∧ ∀ unit ∈ argument, isBlank unit = false ∧ unit ≠ QUOTE := by
  simp only [needsQuotes, Bool.or_eq_false_iff, List.isEmpty_eq_false_iff, List.any_eq_false] at h
  refine ⟨h.1, fun unit hunit => ?_⟩
  have hplain := h.2 unit hunit
  simp only [Bool.or_eq_true, decide_eq_true_eq, not_or] at hplain
  exact ⟨by simp [isBlank, hplain.1], hplain.2⟩

/-- Quoting appends: what the output was before does not matter. -/
theorem foldl_quoteUnit_append (argument output units : List UInt16) (backslashes : Nat) :
    argument.foldl quoteUnit (output ++ units, backslashes) =
      (output ++ (argument.foldl quoteUnit (units, backslashes)).1,
        (argument.foldl quoteUnit (units, backslashes)).2) := by
  induction argument generalizing units backslashes with
  | nil => rfl
  | cons unit argument ih =>
    simp only [List.foldl_cons, quoteUnit]
    split
    · exact ih units (backslashes + 1)
    split
    · simpa only [List.append_assoc] using ih _ 0
    · simpa only [List.append_assoc] using ih _ 0

theorem appendQuoted_append (output argument : List UInt16) :
    appendQuoted output argument = output ++ appendQuoted [] argument := by
  unfold appendQuoted
  split
  · simp
  · simp [foldl_quoteUnit_append argument output [QUOTE] 0]

/-- What holds before the loop of `append_quoted`, and is kept by each unit,
    holds of what it was given and what it made of it. -/
theorem foldl_quoteUnit_induction {P : List UInt16 → List UInt16 → Nat → Prop}
    (nil : P [] [QUOTE] 0)
    (step : ∀ argument output backslashes unit, P argument output backslashes →
      P (argument ++ [unit]) (quoteUnit (output, backslashes) unit).1
        (quoteUnit (output, backslashes) unit).2)
    (argument : List UInt16) :
    P argument (argument.foldl quoteUnit ([QUOTE], 0)).1
      (argument.foldl quoteUnit ([QUOTE], 0)).2 := by
  induction argument using List.reverseRecOn with
  | nil => exact nil
  | append_singleton argument unit ih =>
    rw [List.foldl_append, List.foldl_cons, List.foldl_nil]
    exact step _ _ _ unit ih

/-- What the splitter has read of a quoted argument. The backslashes that the
    loop holds back are the end of what it was given. -/
theorem foldl_quoteUnit_reads (argument : List UInt16) (arguments : List (List UInt16)) :
    ∃ text, (argument.foldl quoteUnit ([QUOTE], 0)).1.foldl Splitter.feed { arguments } =
        inQuotes arguments text 0 ∧
      text ++ List.replicate (argument.foldl quoteUnit ([QUOTE], 0)).2 BACKSLASH = argument := by
  refine foldl_quoteUnit_induction (P := fun argument output backslashes => ∃ text,
    output.foldl Splitter.feed { arguments } = inQuotes arguments text 0 ∧
      text ++ List.replicate backslashes BACKSLASH = argument) ⟨[], ?_, rfl⟩ ?_ argument
  · simp [feed_open]
  rintro argument output backslashes unit ⟨text, hfold, htext⟩
  simp only [quoteUnit]
  split
  · rename_i hbackslash
    refine ⟨text, hfold, ?_⟩
    rw [List.replicate_succ', ← List.append_assoc, htext, hbackslash]
  rename_i hbackslash
  split
  · rename_i hquote
    refine ⟨text ++ List.replicate backslashes BACKSLASH ++ [QUOTE], ?_, by simp [htext, hquote]⟩
    rw [List.append_assoc, List.foldl_append, hfold, foldl_literal_quote]
  · rename_i hquote
    refine ⟨text ++ List.replicate backslashes BACKSLASH ++ [unit], ?_, by simp [htext]⟩
    rw [List.append_assoc, List.foldl_append, hfold, foldl_other _ _ _ hbackslash hquote]

/-- The splitter reads what was quoted as one argument, the one that was given. -/
theorem appendQuoted_spells (argument : List UInt16) :
    Spells (appendQuoted [] argument) argument := by
  unfold appendQuoted
  split
  · rename_i hplain
    obtain ⟨hne, hall⟩ := plain_of_not_needsQuotes (by simpa using hplain)
    exact spells_plain hne hall
  · intro arguments
    obtain ⟨text, hfold, htext⟩ := foldl_quoteUnit_reads argument arguments
    rw [List.nil_append]
    generalize argument.foldl quoteUnit ([QUOTE], 0) = output at hfold htext ⊢
    obtain ⟨units, backslashes⟩ := output
    refine ⟨{ text := text ++ List.replicate backslashes BACKSLASH }, rfl,
      by simpa [Pending.argument], ?_⟩
    simp only
    rw [List.append_assoc, List.foldl_append, hfold, foldl_closing_quote]

/-- Without a quote in the argument, the loop gives back what it was given, apart
    from the backslashes at its end. -/
theorem foldl_quoteUnit_plain {argument : List UInt16} (h : QUOTE ∉ argument) :
    (argument.foldl quoteUnit ([QUOTE], 0)).1 ++
        List.replicate (argument.foldl quoteUnit ([QUOTE], 0)).2 BACKSLASH = QUOTE :: argument ∧
      ((argument.foldl quoteUnit ([QUOTE], 0)).2 ≠ 0 → argument.getLast? = some BACKSLASH) := by
  refine foldl_quoteUnit_induction (P := fun argument output backslashes => QUOTE ∉ argument →
    output ++ List.replicate backslashes BACKSLASH = QUOTE :: argument ∧
      (backslashes ≠ 0 → argument.getLast? = some BACKSLASH)) ?_ ?_ argument h
  · simp
  intro argument output backslashes unit ih hargument
  have hunit : unit ≠ QUOTE := fun heq => hargument (by simp [heq])
  obtain ⟨hsame, -⟩ := ih fun hmem => hargument (List.mem_append_left _ hmem)
  simp only [quoteUnit, hunit, if_false]
  split
  · rename_i hbackslash
    refine ⟨?_, fun _ => by simp [hbackslash]⟩
    rw [List.replicate_succ', ← List.append_assoc, hsame, hbackslash, List.cons_append]
  · refine ⟨?_, fun hne => absurd rfl hne⟩
    rw [List.replicate_zero, List.append_nil, hsame, List.cons_append]

/-- Without quotes and a backslash at the end, a quoted argument is the argument
    between two quotes. -/
theorem appendQuoted_program {program : List UInt16} (hquote : QUOTE ∉ program)
    (hend : program.getLast? ≠ some BACKSLASH) (hneeds : needsQuotes program) :
    appendQuoted [] program = QUOTE :: program ++ [QUOTE] := by
  have ⟨hsame, hbackslashes⟩ := foldl_quoteUnit_plain hquote
  have hzero : (program.foldl quoteUnit ([QUOTE], 0)).2 = 0 := by
    by_contra hne
    exact hend (hbackslashes hne)
  rw [hzero, List.replicate_zero, List.append_nil] at hsame
  simp [appendQuoted, hneeds, hsame, hzero]

theorem splitProgram_appendQuoted {program : List UInt16} (hquote : QUOTE ∉ program)
    (hend : program.getLast? ≠ some BACKSLASH) (rest : List UInt16) :
    splitProgram (appendQuoted [] program ++ SPACE :: rest) = (program, SPACE :: rest) := by
  cases hneeds : needsQuotes program with
  | true =>
    rw [appendQuoted_program hquote hend hneeds]
    simpa using splitProgram_quoted hquote (SPACE :: rest)
  | false =>
    obtain ⟨hne, hall⟩ := plain_of_not_needsQuotes hneeds
    have happend : appendQuoted [] program = program := by simp [appendQuoted, hneeds]
    rw [happend]
    exact splitProgram_plain hne hquote (fun unit hunit => (hall unit hunit).1) (by decide) rest

/-! ## The round trip -/

theorem mem_quoteUnit {output : List UInt16} {backslashes : Nat} {unit unit' : UInt16}
    (h : unit' ∈ (quoteUnit (output, backslashes) unit).1) :
    unit' ∈ output ∨ unit' = BACKSLASH ∨ unit' = unit := by
  simp only [quoteUnit] at h
  split at h
  · exact .inl h
  split at h
  · rename_i hquote
    simp only [List.mem_append, List.mem_singleton, List.mem_replicate] at h
    rcases h with (h | h) | h
    · exact .inl h
    · exact .inr (.inl h.2)
    · exact .inr (.inr (h.trans hquote.symm))
  · simp only [List.mem_append, List.mem_singleton, List.mem_replicate] at h
    rcases h with (h | h) | h
    · exact .inl h
    · exact .inr (.inl h.2)
    · exact .inr (.inr h)

/-- Quoting adds only backslashes and quotes. -/
theorem mem_appendQuoted {argument : List UInt16} {unit : UInt16}
    (h : unit ∈ appendQuoted [] argument) : unit ∈ argument ∨ unit = BACKSLASH ∨ unit = QUOTE := by
  have hloop : unit ∈ (argument.foldl quoteUnit ([QUOTE], 0)).1 →
      unit ∈ argument ∨ unit = BACKSLASH ∨ unit = QUOTE := by
    refine foldl_quoteUnit_induction (P := fun argument output _ => unit ∈ output →
      unit ∈ argument ∨ unit = BACKSLASH ∨ unit = QUOTE) ?_ ?_ argument
    · exact fun hmem => .inr (.inr (List.mem_singleton.mp hmem))
    intro argument output backslashes last ih hmem
    rcases mem_quoteUnit hmem with hmem | hmem | hmem
    · exact (ih hmem).imp_left (List.mem_append_left _)
    · exact .inr (.inl hmem)
    · exact .inl (by simp [hmem])
  unfold appendQuoted at h
  split at h
  · exact .inl (by simpa using h)
  · simp only [List.nil_append, List.mem_append, List.mem_singleton, List.mem_replicate] at h
    rcases h with (h | h) | h
    · exact hloop h
    · exact .inr (.inl h.2)
    · exact .inr (.inr h)

theorem appendQuoted_nul {argument : List UInt16} (h : 0 ∉ argument) :
    0 ∉ appendQuoted [] argument := by
  intro hmem
  rcases mem_appendQuoted hmem with hmem | hmem | hmem
  · exact h hmem
  · cases hmem
  · cases hmem

theorem wide_ok {value : List UInt16} (h : 0 ∉ value) : wide value = .ok value := if_neg h

/-- A path with a NUL unit starts no process. -/
theorem spawnSupervisor_refuses {executable runDir : List UInt16} (h : 0 ∈ executable ∨ 0 ∈ runDir)
    (createProcess : List UInt16 → List UInt16 → Except IoError Unit) :
    spawnSupervisor createProcess executable runDir = .error {
      kind := .invalidInput
      message := "Windows process argument contains a NUL code unit" } := by
  by_cases hexecutable : 0 ∈ executable
  · simp [spawnSupervisor, nulTerminated, wide, hexecutable]
    rfl
  · have hrunDir := h.resolve_left hexecutable
    simp [spawnSupervisor, nulTerminated, buildCommandLine, wide, hexecutable, hrunDir]
    rfl

theorem buildCommandLine_ok {executable runDir : List UInt16} (hexecutable : 0 ∉ executable)
    (hrunDir : 0 ∉ runDir) :
    buildCommandLine executable runDir = .ok (appendQuoted [] executable ++
      SPACE :: (encodeUtf16 "__supervise" ++ SPACE :: (encodeUtf16 "--run-dir" ++
        SPACE :: appendQuoted [] runDir)) ++ [0]) := by
  simp only [buildCommandLine, wide_ok hexecutable, wide_ok hrunDir]
  change Except.ok (appendQuoted _ runDir ++ [0]) = _
  rw [appendQuoted_append]
  simp only [List.append_assoc, List.cons_append, List.nil_append]

/-- Up to its end, a command line has no zero. -/
theorem takeWhile_terminated {units : List UInt16} (h : 0 ∉ units) :
    (units ++ [0]).takeWhile (· ≠ 0) = units := by
  have hall : ∀ unit ∈ units, decide (unit ≠ 0) = true := by
    intro unit hunit
    simpa using ne_of_mem_of_not_mem hunit h
  rw [List.takeWhile_append_of_pos hall]
  simp

/-- The supervisor gets the arguments it was started with, and quoting alone
    keeps every argument. A path with a NUL unit starts no process. -/
theorem command_line_round_trip :
    (∀ executable runDir : List UInt16, 0 ∉ executable → 0 ∉ runDir →
      QUOTE ∉ executable → executable.getLast? ≠ some BACKSLASH →
      ∃ commandLine, buildCommandLine executable runDir = .ok commandLine ∧
        commandLineToArgv commandLine =
          [executable, encodeUtf16 "__supervise", encodeUtf16 "--run-dir", runDir]) ∧
    (∀ argument, splitArguments (appendQuoted [] argument) = [argument]) ∧
    ∀ executable runDir : List UInt16, 0 ∈ executable ∨ 0 ∈ runDir → ∀ createProcess,
      spawnSupervisor createProcess executable runDir = .error {
        kind := .invalidInput
        message := "Windows process argument contains a NUL code unit" } := by
  refine ⟨fun executable runDir hexecutable hrunDir hquote hend => ?_,
    fun argument => (appendQuoted_spells argument).split,
    fun _ _ hnul createProcess => spawnSupervisor_refuses hnul createProcess⟩
  refine ⟨_, buildCommandLine_ok hexecutable hrunDir, ?_⟩
  have hnul : 0 ∉ appendQuoted [] executable ++
      SPACE :: (encodeUtf16 "__supervise" ++ SPACE :: (encodeUtf16 "--run-dir" ++
        SPACE :: appendQuoted [] runDir)) := by
    have hsupervise : (0 : UInt16) ∉ encodeUtf16 "__supervise" := by decide
    have hoption : (0 : UInt16) ∉ encodeUtf16 "--run-dir" := by decide
    have hspace : (0 : UInt16) ≠ SPACE := by decide
    simp only [List.mem_append, List.mem_cons, appendQuoted_nul hexecutable,
      appendQuoted_nul hrunDir, hsupervise, hoption, hspace, or_self, not_false_eq_true]
  have hsupervise : Spells (encodeUtf16 "__supervise") (encodeUtf16 "__supervise") :=
    spells_plain (by decide) (List.all_iff_forall_prop.mp rfl)
  have hoption : Spells (encodeUtf16 "--run-dir") (encodeUtf16 "--run-dir") :=
    spells_plain (by decide) (List.all_iff_forall_prop.mp rfl)
  have hblank : isBlank SPACE := by decide
  simp only [commandLineToArgv, takeWhile_terminated hnul, splitProgram_appendQuoted hquote hend]
  -- the blank after the program name separates nothing
  have hfirst : Splitter.feed {} SPACE = {} := by simp [Splitter.feed, hblank]
  rw [splitArguments, List.foldl_cons, hfirst, hsupervise.foldl_blank hblank,
    hoption.foldl_blank hblank, (appendQuoted_spells runDir).finish]
  rfl

/-- `C:\Program Files\p.exe`, with the run directory `D:\a "b" \`. -/
theorem command_line_round_trip_blanks :
    ∃ commandLine, buildCommandLine (encodeUtf16 "C:\\Program Files\\p.exe")
        (encodeUtf16 "D:\\a \"b\" \\") = .ok commandLine ∧
      commandLineToArgv commandLine = [encodeUtf16 "C:\\Program Files\\p.exe",
        encodeUtf16 "__supervise", encodeUtf16 "--run-dir", encodeUtf16 "D:\\a \"b\" \\"] :=
  command_line_round_trip.1 _ _ (by decide) (by decide) (by decide) (by decide)

end Procherd
