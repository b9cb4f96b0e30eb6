-- SUMMARY: Command lines of 16-bit units and the argument rules of `CommandLineToArgvW`: a splitter that reads unit by unit, and which units it reads as one argument.
import Mathlib.Logic.Basic

/-!
# Command lines

A Windows process gets its arguments as one text. `CommandLineToArgvW` splits
it: blanks separate arguments outside quotes; before a quote, `2 * n`
backslashes are `n` backslashes and the quote toggles quoting, `2 * n + 1`
backslashes are `n` backslashes and the quote is literal; other backslashes are
literal. The first argument is a program name, in which backslashes mean
nothing. `Spells` says that units are read as one argument.
-/

namespace CommandLine

def BACKSLASH : UInt16 := 92
def QUOTE : UInt16 := 34
def SPACE : UInt16 := 32
def TAB : UInt16 := 9

def isBlank (unit : UInt16) : Bool := unit = SPACE || unit = TAB

/-! ## The splitter -/

/-- An argument that is being read: whether quotes are open, its text, and how
    many backslashes follow it whose meaning the next unit decides. -/
structure Pending where
  quoted : Bool := false
  text : List UInt16 := []
  backslashes : Nat := 0

/-- What the argument is if it ends here. -/
def Pending.argument (pending : Pending) : List UInt16 :=
  pending.text ++ List.replicate pending.backslashes BACKSLASH

def Pending.feed (pending : Pending) (unit : UInt16) : Pending :=
  if unit = BACKSLASH then { pending with backslashes := pending.backslashes + 1 }
  else if unit = QUOTE then
    let text := pending.text ++ List.replicate (pending.backslashes / 2) BACKSLASH
    if pending.backslashes % 2 = 0 then { quoted := !pending.quoted, text }
    else { quoted := pending.quoted, text := text ++ [QUOTE] }
  else { quoted := pending.quoted, text := pending.argument ++ [unit] }

/-- The arguments that have ended, and the one that is being read. -/
structure Splitter where
  arguments : List (List UInt16) := []
  pending : Option Pending := none

def Splitter.feed (splitter : Splitter) (unit : UInt16) : Splitter :=
  match splitter.pending with
  | none =>
    if isBlank unit then splitter
    else { splitter with pending := some (Pending.feed {} unit) }
  | some pending =>
    if isBlank unit && !pending.quoted then
      { arguments := splitter.arguments ++ [pending.argument] }
    else { splitter with pending := some (pending.feed unit) }

def Splitter.finish (splitter : Splitter) : List (List UInt16) :=
  splitter.arguments ++ (splitter.pending.map Pending.argument).toList

/-- The arguments after the first. -/
def splitArguments (units : List UInt16) : List (List UInt16) :=
  (units.foldl Splitter.feed {}).finish

/-- The first argument, and what follows its closing quote, or it up to the
    first blank. -/
def splitProgram : List UInt16 → List UInt16 × List UInt16
  | [] => ([], [])
  | unit :: units =>
    if unit = QUOTE then (units.takeWhile (· ≠ QUOTE), (units.dropWhile (· ≠ QUOTE)).drop 1)
    else ((unit :: units).takeWhile (!isBlank ·), (unit :: units).dropWhile (!isBlank ·))

/-- The arguments of a command line, which ends at its first zero. -/
def commandLineToArgv (commandLine : List UInt16) : List (List UInt16) :=
  let (program, rest) := splitProgram (commandLine.takeWhile (· ≠ 0))
  program :: splitArguments rest

/-! ## The units of one argument -/

/-- The splitter takes `units` to be the argument `argument`, still open. -/
def Spells (units argument : List UInt16) : Prop :=
  ∀ arguments, ∃ pending : Pending, pending.quoted = false ∧ pending.argument = argument ∧
    units.foldl Splitter.feed { arguments } = { arguments, pending := some pending }

variable {units argument : List UInt16}

/-- A blank ends the argument. -/
theorem Spells.foldl_blank (h : Spells units argument) {blank : UInt16} (hblank : isBlank blank)
    (arguments : List (List UInt16)) (rest : List UInt16) :
    (units ++ blank :: rest).foldl Splitter.feed { arguments } =
      rest.foldl Splitter.feed { arguments := arguments ++ [argument] } := by
  obtain ⟨pending, hquoted, hargument, hfold⟩ := h arguments
  simp [List.foldl_append, hfold, Splitter.feed, hblank, hquoted, hargument]

/-- So does the end of the text. -/
theorem Spells.finish (h : Spells units argument) (arguments : List (List UInt16)) :
    (units.foldl Splitter.feed { arguments }).finish = arguments ++ [argument] := by
  obtain ⟨pending, -, hargument, hfold⟩ := h arguments
  simp [hfold, Splitter.finish, hargument]

theorem Spells.split (h : Spells units argument) : splitArguments units = [argument] :=
  h.finish []

theorem Pending.feed_plain (pending : Pending) {unit : UInt16} (h : unit ≠ QUOTE) :
    (pending.feed unit).quoted = pending.quoted ∧
      (pending.feed unit).argument = pending.argument ++ [unit] := by
  unfold Pending.feed
  by_cases hbackslash : unit = BACKSLASH
  · simp [hbackslash, Pending.argument, List.replicate_succ']
  · simp [hbackslash, h, Pending.argument]

/-- Outside quotes, units that are neither blanks nor quotes stand for themselves. -/
theorem foldl_plain (h : ∀ unit ∈ units, isBlank unit = false ∧ unit ≠ QUOTE)
    (arguments : List (List UInt16)) {pending : Pending} (hquoted : pending.quoted = false) :
    ∃ pending' : Pending, pending'.quoted = false ∧ pending'.argument = pending.argument ++ units ∧
      units.foldl Splitter.feed { arguments, pending := some pending } =
        { arguments, pending := some pending' } := by
  induction units generalizing pending with
  | nil => exact ⟨pending, hquoted, by simp, rfl⟩
  | cons unit units ih =>
    have ⟨⟨hblank, hquote⟩, hrest⟩ := List.forall_mem_cons.mp h
    have ⟨hquoted', hargument⟩ := pending.feed_plain hquote
    obtain ⟨pending', hpending', hargument', hfold⟩ := ih hrest (hquoted'.trans hquoted)
    refine ⟨pending', hpending', by simp [hargument', hargument], ?_⟩
    simp only [List.foldl_cons, Splitter.feed, hblank, Bool.false_and, Bool.false_eq_true, if_false]
    exact hfold

theorem spells_plain (hne : units ≠ []) (h : ∀ unit ∈ units, isBlank unit = false ∧ unit ≠ QUOTE) :
    Spells units units := by
  intro arguments
  cases units with
  | nil => exact absurd rfl hne
  | cons unit units =>
    have ⟨⟨hblank, hquote⟩, hrest⟩ := List.forall_mem_cons.mp h
    have ⟨hquoted, hargument⟩ := Pending.feed_plain {} hquote
    obtain ⟨pending, hpending, hargument', hfold⟩ := foldl_plain hrest arguments hquoted
    have hstart : ({} : Pending).argument = [] := rfl
    refine ⟨pending, hpending, by simp [hargument', hargument, hstart], ?_⟩
    simpa [Splitter.feed, hblank] using hfold

/-! ## Inside quotes -/

/-- What the splitter is at inside quotes, after `text`. -/
def inQuotes (arguments : List (List UInt16)) (text : List UInt16) (backslashes : Nat) : Splitter :=
  { arguments, pending := some { quoted := true, text, backslashes } }

variable (arguments : List (List UInt16)) (text : List UInt16)

theorem feed_open : Splitter.feed { arguments } QUOTE = inQuotes arguments [] 0 := by
  simp [Splitter.feed, inQuotes, Pending.feed, isBlank, QUOTE, SPACE, TAB, BACKSLASH]

theorem foldl_backslashes (n m : Nat) :
    (List.replicate n BACKSLASH).foldl Splitter.feed (inQuotes arguments text m) =
      inQuotes arguments text (m + n) := by
  induction n generalizing m with
  | zero => rfl
  | succ n ih =>
    have hfeed : Splitter.feed (inQuotes arguments text m) BACKSLASH =
        inQuotes arguments text (m + 1) := by
      simp [Splitter.feed, inQuotes, Pending.feed, isBlank, SPACE, TAB, BACKSLASH]
    rw [List.replicate_succ, List.foldl_cons, hfeed, ih, Nat.add_right_comm, Nat.add_assoc]

/-- An odd number of backslashes makes a quote literal. -/
theorem foldl_literal_quote (n : Nat) :
    (List.replicate (n * 2 + 1) BACKSLASH ++ [QUOTE]).foldl Splitter.feed
        (inQuotes arguments text 0) =
      inQuotes arguments (text ++ List.replicate n BACKSLASH ++ [QUOTE]) 0 := by
  have hhalf : (n * 2 + 1) / 2 = n := by omega
  have hodd : (n * 2 + 1) % 2 = 1 := by omega
  rw [List.foldl_append, foldl_backslashes, Nat.zero_add]
  simp [Splitter.feed, inQuotes, Pending.feed, isBlank, hhalf, hodd, QUOTE, SPACE, TAB, BACKSLASH]

/-- An even number of backslashes leaves a quote to close. -/
theorem foldl_closing_quote (n : Nat) :
    (List.replicate (n * 2) BACKSLASH ++ [QUOTE]).foldl Splitter.feed
        (inQuotes arguments text 0) =
      { arguments, pending := some { text := text ++ List.replicate n BACKSLASH } } := by
  have hhalf : n * 2 / 2 = n := by omega
  have heven : n * 2 % 2 = 0 := by omega
  rw [List.foldl_append, foldl_backslashes, Nat.zero_add]
  simp [Splitter.feed, inQuotes, Pending.feed, isBlank, hhalf, heven, QUOTE, SPACE, TAB, BACKSLASH]

/-- Backslashes before any other unit stand for themselves, and so does the unit. -/
theorem foldl_other (n : Nat) {unit : UInt16} (hbackslash : unit ≠ BACKSLASH)
    (hquote : unit ≠ QUOTE) :
    (List.replicate n BACKSLASH ++ [unit]).foldl Splitter.feed (inQuotes arguments text 0) =
      inQuotes arguments (text ++ List.replicate n BACKSLASH ++ [unit]) 0 := by
  rw [List.foldl_append, foldl_backslashes, Nat.zero_add]
  simp [Splitter.feed, inQuotes, Pending.feed, Pending.argument, hbackslash, hquote]

/-! ## The program name -/

/-- A program name in quotes ends at the next quote. -/
theorem splitProgram_quoted {program : List UInt16} (h : QUOTE ∉ program) (rest : List UInt16) :
    splitProgram (QUOTE :: program ++ QUOTE :: rest) = (program, rest) := by
  have hall : ∀ unit ∈ program, (decide (unit ≠ QUOTE)) = true := by
    intro unit hunit
    simpa using ne_of_mem_of_not_mem hunit h
  have htake : (program ++ QUOTE :: rest).takeWhile (· ≠ QUOTE) = program := by
    rw [List.takeWhile_append_of_pos hall]
    simp
  have hdrop : (program ++ QUOTE :: rest).dropWhile (· ≠ QUOTE) = QUOTE :: rest := by
    rw [List.dropWhile_append_of_pos hall]
    simp
  simp only [List.cons_append, splitProgram, if_true, htake, hdrop, List.drop_one, List.tail_cons]

/-- A program name without quotes ends at the first blank. -/
theorem splitProgram_plain {program : List UInt16} (hne : program ≠ []) (hquote : QUOTE ∉ program)
    (h : ∀ unit ∈ program, isBlank unit = false) {blank : UInt16} (hblank : isBlank blank)
    (rest : List UInt16) :
    splitProgram (program ++ blank :: rest) = (program, blank :: rest) := by
  cases program with
  | nil => exact absurd rfl hne
  | cons unit units =>
    have hunit : unit ≠ QUOTE := fun heq => hquote (heq ▸ List.mem_cons_self)
    have hall : ∀ unit' ∈ unit :: units, (!isBlank unit') = true := by
      intro unit' hunit'
      simp [h unit' hunit']
    have htake : (unit :: units ++ blank :: rest).takeWhile (!isBlank ·) = unit :: units := by
      rw [List.takeWhile_append_of_pos hall]
      simp [hblank]
    have hdrop : (unit :: units ++ blank :: rest).dropWhile (!isBlank ·) = blank :: rest := by
      rw [List.dropWhile_append_of_pos hall]
      simp [hblank]
    rw [List.cons_append] at htake hdrop ⊢
    simp only [splitProgram, hunit, if_false, htake, hdrop]

end CommandLine
