-- SUMMARY: The replacement of a document and its reading, call by call (`store.rs`): a reading gives one whole document that somebody committed, and none that is older than the reading.
import Procherd.StateDocument
import Procherd.Interaction.Tampering

/-!
# Replaced documents

The world of a run takes the replacement of `state.json` or `stop.request.json`
as one step, and the reading of such a document too. In `store.rs` a replacement
writes a temporary file piece by piece and renames it, and a reading opens the
file, asks for its length and reads it in chunks. Any number of processes do both
at one path, any of these calls may fail, and a process may stop anywhere.
-/

namespace Procherd

open Interaction

namespace Replacement

/-! ## Files -/

/-- A process that replaces documents, or one that reads one. -/
inductive Role where
  | writer (n : Nat)
  | reader (n : Nat)
deriving DecidableEq

structure World where
  contents : Nat → Bytes
  /-- The files from this one on have not been made. -/
  next : Nat
  /-- The files that the path has named, the last of which it names. -/
  versions : List Nat
  /-- Who made a file: a history variable. -/
  maker : Nat → Role
  made : ∀ file ∈ versions, file < next

namespace World

/-- The `k`-th document at the path. -/
def version (w : World) (k : Nat) : Option Bytes := (w.versions[k]?).map w.contents

/-- A path that has held these documents. -/
def initial (before : List Bytes) : World where
  contents file := before.getD file []
  next := before.length
  versions := List.range before.length
  maker _ := .writer 0
  made _ hfile := List.mem_range.mp hfile

def create (role : Role) (w : World) : World where
  contents := Function.update w.contents w.next []
  next := w.next + 1
  versions := w.versions
  maker := Function.update w.maker w.next role
  made file hfile := Nat.lt_succ_of_lt (w.made file hfile)

def append (file : Nat) (piece : Bytes) (w : World) : World :=
  { w with contents := Function.update w.contents file (w.contents file ++ piece) }

def rename (file : Nat) (w : World) (hfile : file < w.next) : World where
  contents := w.contents
  next := w.next
  versions := w.versions ++ [file]
  maker := w.maker
  made other hother := by
    obtain hother | hother := List.mem_append.mp hother
    · exact w.made other hother
    · exact List.mem_singleton.mp hother ▸ hfile

end World

/-! ## Calls -/

inductive Cmd : Type → Type where
  /-- `OpenOptions::open` of an atomic write: a new file in the directory. -/
  | openTemporary : Cmd (Except AppError Nat)
  | writeAll (file : Nat) (piece : Bytes) : Cmd (Except AppError Unit)
  | flush (file : Nat) : Cmd (Except AppError Unit)
  | commit (file : Nat) : Cmd (Except AppError Unit)
  /-- `ensure_regular_file`. -/
  | ensureRegularFile : Cmd (Except AppError Unit)
  | openFile : Cmd (Except AppError Nat)
  | length (file : Nat) : Cmd (Except AppError Nat)
  /-- The next bytes from an offset on, none at the end of the file. -/
  | read (file offset : Nat) : Cmd (Except AppError Bytes)

/-- What the outside world decides about one call. -/
structure Answer where
  fault : Option Fault := none
  /-- A failed commit took effect nevertheless. -/
  took : Bool := false
  /-- How many bytes a read finds beyond the first, or a failed write has written. -/
  count : Nat := 0

def fallible {α : Type} (a : Answer) (w : World) (success : Except AppError α × World) :
    Option (Except AppError α × World) :=
  match a.fault with
  | some fault => some (.error fault.error, w)
  | none => some success

def exec (role : Role) : {β : Type} → Cmd β → Answer → World → Option (β × World)
  | _, .openTemporary, a, w => fallible a w (.ok w.next, w.create role)
  | _, .writeAll file piece, a, w =>
    match a.fault with
    | some fault => some (.error fault.error, w.append file (piece.take a.count))
    | none => some (.ok (), w.append file piece)
  | _, .flush _, a, w => fallible a w (.ok (), w)
  -- Only a file that was made can be renamed.
  | _, .commit file, a, w =>
    if hfile : file < w.next then
      match a.fault with
      | some fault => some (.error fault.error, if a.took then w.rename file hfile else w)
      | none => some (.ok (), w.rename file hfile)
    else none
  | _, .ensureRegularFile, a, w =>
    fallible a w (if w.versions = [] then .error (.ofIo .missing) else .ok (), w)
  | _, .openFile, a, w => fallible a w (w.versions.getLast?.elim (.error (.ofIo .missing)) .ok, w)
  | _, .length file, a, w => fallible a w (.ok (w.contents file).length, w)
  | _, .read file offset, a, w =>
    fallible a w (.ok (((w.contents file).drop offset).take (a.count + 1)), w)

/-! ## `store.rs` -/

/-- `serde_json::from_reader`: it may refuse a text before it has seen the end. -/
structure Parser (α : Type) where
  decode : Bytes → Except String α
  refuses : Bytes → Bool
  sound : ∀ bytes rest, refuses bytes →
    ∃ e, decode bytes = .error e ∧ decode (bytes ++ rest) = .error e

def writePieces (file : Nat) : List Bytes → Proc Cmd AppError Unit Unit
  | [] => pure ()
  | piece :: rest => do
    Proc.attempt (.writeAll file piece)
    writePieces file rest

/-- `atomic_write_json` of the document that is made of these pieces. -/
def atomicWriteJson (pieces : List Bytes) : Proc Cmd AppError Unit Unit := do
  let file ← Proc.attempt .openTemporary
  writePieces file pieces
  Proc.attempt (.flush file)
  Proc.attempt (.commit file)

/-- A process that replaces the document again and again. -/
def atomicWrites : List (List Bytes) → Proc Cmd AppError Unit Unit
  | [] => pure ()
  | pieces :: rest => do
    let _ ← Proc.outcome (atomicWriteJson pieces)
    atomicWrites rest

/-- One read of `from_reader`, after the bytes in the store. -/
def readRound {α : Type} (parser : Parser α) (file : Nat) :
    Proc Cmd AppError Bytes (Option Unit) := do
  let found ← Proc.get
  let chunk ← Proc.attempt (.read file found.length)
  Proc.modify fun bytes => bytes ++ chunk
  return if chunk = [] ∨ parser.refuses (found ++ chunk) then some () else none

section Read

variable [Toolchain] {α : Type}

def documentTooLong (path : PathBuf) : AppError :=
  .integrity ("document exceeds " ++ toString DOCUMENT_LIMIT ++ " bytes: " ++
    Toolchain.displayPath path)

/-- `serde_json::from_reader`, with its error as `read_json` reports it. -/
def fromReader (parser : Parser α) (path : PathBuf) (file : Nat) : Proc Cmd AppError Unit α := do
  let (outcome, bytes) ← Proc.withStore [] (Proc.repeatUntil (readRound parser file))
  match outcome with
  | .error e => Proc.throw (invalidDocument path e.message)
  | .ok () =>
    match parser.decode bytes with
    | .error detail => Proc.throw (invalidDocument path detail)
    | .ok document => return document

/-- `read_json`. -/
def readJson (parser : Parser α) (path : PathBuf) : Proc Cmd AppError Unit α := do
  Proc.attempt .ensureRegularFile
  let file ← Proc.attempt .openFile
  let length ← Proc.attempt (.length file)
  Proc.throwIf (DOCUMENT_LIMIT < length) (documentTooLong path)
  fromReader parser path file

end Read

/-! ## Processes -/

abbrev Role.Result (α : Type) : Role → Type
  | .writer _ => Except AppError Unit × Unit
  | .reader _ => Except AppError α × Unit

abbrev system (α : Type) : Machine where
  Thread := Role
  Cmd := fun _ => Cmd
  Result := Role.Result α
  World := World
  Answer := Answer
  exec := fun role {_} c a w => exec role c a w

/-- The readers and the writers of a path that has held the documents `before`. -/
def initial [Toolchain] {α : Type} (parser : Parser α) (path : PathBuf) (before : List Bytes)
    (documents : Nat → List (List Bytes)) : (system α).Config where
  world := .initial before
  thread
    | .writer n => atomicWrites (documents n) ()
    | .reader _ => readJson parser path ()

/-! ## What a process relies on -/

variable {w w' w₁ : World} {role : Role} {file : Nat}

/-- The document was there before, or some writer was given it. -/
def Given (before : List Bytes) (documents : Nat → List (List Bytes)) (bytes : Bytes) : Prop :=
  bytes ∈ before ∨ ∃ n, ∃ pieces ∈ documents n, bytes = pieces.flatten

/-- What the other processes leave alone: the files that a process has made, and
    those that the path has named. -/
structure Rely (role : Role) (w w' : World) : Prop where
  versions : w.versions <+: w'.versions
  next : w.next ≤ w'.next
  maker : ∀ file < w.next, w'.maker file = w.maker file
  own : ∀ file < w.next, w.maker file = role →
    w'.contents file = w.contents file ∧ (file ∈ w'.versions → file ∈ w.versions)
  frozen : ∀ file ∈ w.versions, w'.contents file = w.contents file

theorem Rely.refl : Rely role w w :=
  ⟨List.prefix_rfl, Nat.le_refl _, fun _ _ => rfl, fun _ _ _ => ⟨rfl, id⟩, fun _ _ => rfl⟩

theorem Rely.trans {w₂ : World} (h : Rely role w w₁) (h' : Rely role w₁ w₂) : Rely role w w₂ where
  versions := h.versions.trans h'.versions
  next := Nat.le_trans h.next h'.next
  maker _ hfile := (h'.maker _ (Nat.lt_of_lt_of_le hfile h.next)).trans (h.maker _ hfile)
  own file hfile hmaker := by
    obtain ⟨hcontents, hversions⟩ := h.own file hfile hmaker
    obtain ⟨hcontents', hversions'⟩ := h'.own file (Nat.lt_of_lt_of_le hfile h.next)
      ((h.maker file hfile).trans hmaker)
    exact ⟨hcontents'.trans hcontents, fun hmem => hversions (hversions' hmem)⟩
  frozen _ hfile := (h'.frozen _ (h.versions.subset hfile)).trans (h.frozen _ hfile)

/-- The file is one that the process is writing. -/
structure Writing (role : Role) (file : Nat) (w : World) : Prop where
  made : file < w.next
  maker : w.maker file = role
  unnamed : file ∉ w.versions

/-- When a process may make a call. -/
def Allowed (P : Bytes → Prop) (role : Role) (w : World) : {β : Type} → Cmd β → Prop
  | _, .writeAll file _ => Writing role file w
  | _, .commit file => Writing role file w ∧ P (w.contents file)
  | _, _ => True

/-- The calls of a process where those of the roles in `sure` do not fail, and
    what is committed is in `P`. -/
def interface (sure : Role → Prop) (P : Bytes → Prop) (role : Role) : Interface Cmd World where
  step c w b w' := ∃ a, (sure role → a.fault = none) ∧ exec role c a w = some (b, w')
  rely := Rely role
  guar c w _ _ := Allowed P role w c
  rely_refl _ := .refl
  rely_trans := Rely.trans

theorem fallible_cases {β : Type} {a : Answer} {r : Except AppError β}
    {success : Except AppError β × World} (h : fallible a w success = some (r, w')) :
    (∃ fault, a.fault = some fault ∧ r = .error fault.error ∧ w' = w) ∨
      a.fault = none ∧ success = (r, w') := by
  unfold fallible at h
  split at h
  · rename_i fault hfault
    cases h
    exact .inl ⟨fault, hfault, rfl, rfl⟩
  · rename_i hfault
    cases h
    exact .inr ⟨hfault, rfl⟩

section Other

variable {other : Role}

theorem rely_create (other : Role) : Rely role w (w.create other) where
  versions := List.prefix_rfl
  next := Nat.le_succ _
  maker _ hfile := Function.update_of_ne (Nat.ne_of_lt hfile) _ _
  own _ hfile _ := ⟨Function.update_of_ne (Nat.ne_of_lt hfile) _ _, id⟩
  frozen file hfile := Function.update_of_ne (Nat.ne_of_lt (w.made file hfile)) _ _

theorem rely_append (hne : other ≠ role) (h : Writing other file w) (piece : Bytes) :
    Rely role w (w.append file piece) where
  versions := List.prefix_rfl
  next := Nat.le_refl _
  maker _ _ := rfl
  own other _ hmaker := by
    refine ⟨Function.update_of_ne (fun heq => hne ?_) _ _, id⟩
    exact h.maker.symm.trans ((congrArg w.maker heq.symm).trans hmaker)
  frozen other hother :=
    Function.update_of_ne (fun heq : other = file => h.unnamed (heq ▸ hother)) _ _

theorem rely_rename (hne : other ≠ role) (h : Writing other file w) :
    Rely role w (w.rename file h.made) where
  versions := List.prefix_append _ _
  next := Nat.le_refl _
  maker _ _ := rfl
  own other _ hmaker := by
    refine ⟨rfl, fun hmem => ?_⟩
    obtain hmem | hmem := List.mem_append.mp hmem
    · exact hmem
    · rw [List.mem_singleton.mp hmem] at hmaker
      exact absurd (h.maker.symm.trans hmaker) hne
  frozen _ _ := rfl

/-- A call of another process leaves a process what it relies on. -/
theorem rely_of_exec {P : Bytes → Prop} {β : Type} {c : Cmd β} {a : Answer} {b : β}
    (hne : other ≠ role) (hallowed : Allowed P other w c)
    (hexec : exec other c a w = some (b, w')) : Rely role w w' := by
  cases c with
  | openTemporary =>
    obtain ⟨-, -, -, rfl⟩ | ⟨-, h⟩ := fallible_cases hexec
    · exact .refl
    · cases h
      exact rely_create other
  | writeAll file piece =>
    simp only [exec] at hexec
    split at hexec
    · cases hexec
      exact rely_append hne hallowed _
    · cases hexec
      exact rely_append hne hallowed piece
  | commit file =>
    simp only [exec, dif_pos hallowed.1.made] at hexec
    split at hexec
    · cases hexec
      split
      · exact rely_rename hne hallowed.1
      · exact .refl
    · cases hexec
      exact rely_rename hne hallowed.1
  | flush | ensureRegularFile | openFile | length | read =>
    obtain ⟨-, -, -, rfl⟩ | ⟨-, h⟩ := fallible_cases hexec
    · exact .refl
    · cases h
      exact .refl

end Other

/-! ## Writers -/

section Writer

variable {sure : Role → Prop} {P : Bytes → Prop} {bytes : Bytes}

/-- The process has written these bytes into its file. -/
def Written (role : Role) (file : Nat) (bytes : Bytes) (w : World) : Prop :=
  Writing role file w ∧ w.contents file = bytes

theorem Written.rely (h : Written role file bytes w) (hrely : Rely role w w') :
    Written role file bytes w' := by
  obtain ⟨⟨hmade, hmaker, hunnamed⟩, hcontents⟩ := h
  obtain ⟨hsame, hnamed⟩ := hrely.own file hmade hmaker
  refine ⟨⟨Nat.lt_of_lt_of_le hmade hrely.next, ?_, fun hmem => hunnamed (hnamed hmem)⟩, ?_⟩
  · exact (hrely.maker file hmade).trans hmaker
  · exact hsame.trans hcontents

theorem Written.append (h : Written role file bytes w) (piece : Bytes) :
    Written role file (bytes ++ piece) (w.append file piece) := by
  obtain ⟨⟨hmade, hmaker, hunnamed⟩, rfl⟩ := h
  exact ⟨⟨hmade, hmaker, hunnamed⟩, Function.update_self ..⟩

theorem written_create : Written role w.next [] (w.create role) := by
  refine ⟨⟨Nat.lt_succ_self _, Function.update_self .., fun hmem => ?_⟩, Function.update_self ..⟩
  exact absurd (w.made _ hmem) (Nat.lt_irrefl _)

theorem wp_writePieces (pieces : List Bytes) (h : Written role file bytes w) :
    Proc.wp (interface sure P role) (writePieces file pieces)
      (fun _ _ => Written role file (bytes ++ pieces.flatten)) (fun _ _ _ => True) () w := by
  induction pieces generalizing bytes w with
  | nil =>
    refine Proc.wp_pure ?_
    rw [List.flatten_nil, List.append_nil]
    exact h
  | cons piece rest ih =>
    rw [List.flatten_cons, ← List.append_assoc]
    refine Proc.wp_seq (fun _ _ => Written role file (bytes ++ piece)) ?_ fun _ _ _ h => ih h
    refine Proc.wp_attempt fun w₁ hrely r w' hs => ?_
    obtain ⟨a, -, hexec⟩ := hs
    have h₁ := h.rely hrely
    refine ⟨h₁.1, ?_⟩
    simp only [exec] at hexec
    split at hexec <;> cases hexec
    · trivial
    · exact h₁.append piece

theorem wp_atomicWriteJson {pieces : List Bytes} (hgiven : P pieces.flatten) :
    Proc.wp (interface sure P role) (atomicWriteJson pieces) (fun _ _ _ => True) (fun _ _ _ => True)
      () w := by
  refine Proc.wp_seq (fun file _ => Written role file []) ?_ fun file _ w h => ?_
  · refine Proc.wp_attempt fun w₁ _ r w' hs => ?_
    obtain ⟨a, -, hexec⟩ := hs
    refine ⟨trivial, ?_⟩
    obtain ⟨-, -, rfl, -⟩ | ⟨-, h⟩ := fallible_cases hexec
    · trivial
    · cases h
      exact written_create
  refine Proc.wp_seq _ (wp_writePieces pieces h) fun _ _ w h => ?_
  refine Proc.wp_seq (fun _ _ => Written role file pieces.flatten) ?_ fun _ _ w h => ?_
  · refine Proc.wp_attempt fun w₁ hrely r w' hs => ?_
    obtain ⟨a, -, hexec⟩ := hs
    refine ⟨trivial, ?_⟩
    obtain ⟨-, -, rfl, -⟩ | ⟨-, hdone⟩ := fallible_cases hexec
    · trivial
    · cases hdone
      exact h.rely hrely
  · refine Proc.wp_attempt fun w₁ hrely r w' hs => ?_
    obtain ⟨hwriting, hcontents⟩ := h.rely hrely
    refine ⟨⟨hwriting, hcontents ▸ hgiven⟩, ?_⟩
    cases r <;> trivial

theorem wp_atomicWrites {documents : List (List Bytes)}
    (hgiven : ∀ pieces ∈ documents, P pieces.flatten) :
    Proc.wp (interface sure P role) (atomicWrites documents) (fun _ _ _ => True) (fun _ _ _ => True)
      () w := by
  induction documents generalizing w with
  | nil => exact Proc.wp_pure trivial
  | cons pieces rest ih =>
    obtain ⟨hfirst, hrest⟩ := List.forall_mem_cons.mp hgiven
    exact Proc.wp_seq (fun _ _ _ => True) (Proc.wp_outcome (wp_atomicWriteJson hfirst))
      fun _ _ _ _ => ih hrest

end Writer

/-! ## Readers -/

section Reader

variable [Toolchain] {α : Type} {sure : Role → Prop} {P : Bytes → Prop} {parser : Parser α}
  {path : PathBuf} {length k : Nat} {bytes : Bytes}

/-- The file is the `k`-th at the path, and holds these bytes. -/
def Opened (k file : Nat) (bytes : Bytes) (w : World) : Prop :=
  w.versions[k]? = some file ∧ w.contents file = bytes

omit [Toolchain] in
theorem Opened.rely (h : Opened k file bytes w) (hrely : Rely role w w') :
    Opened k file bytes w' := by
  obtain ⟨hfile, hcontents⟩ := h
  obtain ⟨rest, hrest⟩ := hrely.versions
  refine ⟨?_, (hrely.frozen file (List.mem_of_getElem? hfile)).trans hcontents⟩
  rw [← hrest, List.getElem?_append_left (List.getElem?_eq_some_iff.mp hfile).1]
  exact hfile

omit [Toolchain] in
theorem Opened.version (h : Opened k file bytes w) : w.version k = some bytes := by
  unfold World.version
  rw [h.1, Option.map_some, h.2]

/-- The result is what one document at the path reads as, no older than the last of
    the first `length`: if there is a result, or if no call fails and there was a
    document. -/
def Recent (sure : Prop) (parser : Parser α) (path : PathBuf) (length : Nat)
    (r : Except AppError α) (w : World) : Prop :=
  r.isOk ∨ sure ∧ 0 < length → ∃ k bytes, length ≤ k + 1 ∧ w.version k = some bytes ∧
    r = Procherd.readJson parser.decode path bytes

theorem Recent.rely {r : Except AppError α} {reliable : Prop}
    (h : Recent reliable parser path length r w) (hrely : Rely role w w') :
    Recent reliable parser path length r w' := by
  intro hdue
  obtain ⟨k, bytes, hlength, hversion, hr⟩ := h hdue
  obtain ⟨file, hfile, hcontents⟩ := Option.map_eq_some_iff.mp hversion
  have hopened : Opened k file bytes w := ⟨hfile, hcontents⟩
  exact ⟨k, bytes, hlength, (hopened.rely hrely).version, hr⟩

theorem Recent.of_fault {e : AppError} {reliable : Prop} (h : ¬ (reliable ∧ 0 < length)) :
    Recent reliable parser path length (.error e) w := by
  rintro (hok | hdue)
  · cases hok
  · exact absurd hdue h

omit [Toolchain] in
/-- The loop of `from_reader` decodes what the file holds. -/
theorem wp_readLoop (h : Opened k file bytes w) :
    Proc.wp (interface sure P role) (Proc.repeatUntil (readRound parser file))
      (fun _ found w => parser.decode found = parser.decode bytes ∧ Opened k file bytes w)
      (fun _ _ _ => ¬ sure role) [] w := by
  refine Proc.wp_repeatUntil (fun found w => found <+: bytes ∧ Opened k file bytes w)
    (fun found w hI => ?_) ⟨List.nil_prefix, h⟩
  obtain ⟨hstarts, h⟩ := hI
  refine Proc.wp_bind (Proc.wp_get ?_)
  refine Proc.wp_seq (fun chunk s w => s = found ∧ Opened k file bytes w ∧
    ∃ count, chunk = (bytes.drop found.length).take (count + 1)) ?_ ?_
  · refine Proc.wp_attempt fun w₁ hrely r w' hs => ?_
    obtain ⟨a, hsure, hexec⟩ := hs
    refine ⟨trivial, ?_⟩
    have h₁ := h.rely hrely
    obtain ⟨fault, hfault, rfl, -⟩ | ⟨-, hdone⟩ := fallible_cases hexec
    · exact fun hdue => absurd ((hsure hdue).symm.trans hfault) (by simp)
    · cases hdone
      rw [h₁.2]
      exact ⟨rfl, h₁, a.count, rfl⟩
  rintro chunk found w ⟨rfl, h, count, rfl⟩
  obtain ⟨rest, rfl⟩ := hstarts
  rw [List.drop_left]
  refine Proc.wp_bind (Proc.wp_modify (Proc.wp_pure ?_))
  have hnext : found ++ rest.take (count + 1) <+: found ++ rest :=
    (List.prefix_append_right_inj found).mpr (List.take_prefix _ _)
  split
  · rename_i hend
    refine ⟨?_, h⟩
    obtain hnone | hrefused := hend
    · have hrest : rest = [] := by
        cases rest with
        | nil => rfl
        | cons b rest => cases hnone
      subst hrest
      rw [List.take_nil, List.append_nil]
    · obtain ⟨tail, htail⟩ := hnext
      obtain ⟨e, hshort, hlong⟩ := parser.sound _ tail hrefused
      rw [htail] at hlong
      exact hshort.trans hlong.symm
  · exact ⟨hnext, h⟩

theorem wp_fromReader (hlength : length ≤ k + 1) (hfits : ¬ DOCUMENT_LIMIT < bytes.length)
    (h : Opened k file bytes w) :
    Proc.wp (interface sure P role) (fromReader parser path file)
      (fun document _ => Recent (sure role) parser path length (.ok document))
      (fun e _ => Recent (sure role) parser path length (.error e)) () w := by
  refine Proc.wp_seq (fun outcome _ w => (∀ e, outcome.1 = .error e → ¬ sure role) ∧
    (outcome.1 = .ok () → parser.decode outcome.2 = parser.decode bytes ∧ Opened k file bytes w))
    (Proc.wp_withStore ?_) ?_
  · refine Proc.wp_mono (wp_readLoop h) (fun _ _ _ h => ?_) fun _ _ _ h => ?_
    · exact ⟨fun _ he => (by cases he), fun _ => h⟩
    · exact ⟨fun _ _ => h, fun hok => by cases hok⟩
  rintro ⟨e | u, found⟩ s w ⟨hfails, h⟩
  · exact Proc.wp_throw (.of_fault fun hdue => hfails e rfl hdue.1)
  obtain ⟨hdecode, h⟩ := h rfl
  have hread (r : Except AppError α) (hr : r = Procherd.readJson parser.decode path bytes) :
      Recent (sure role) parser path length r w := fun _ => ⟨k, bytes, hlength, h.version, hr⟩
  simp only [hdecode]
  cases hbytes : parser.decode bytes with
  | error detail =>
    refine Proc.wp_throw (hread _ ?_)
    rw [Procherd.readJson, if_neg hfits, hbytes]
  | ok document =>
    refine Proc.wp_pure (hread _ ?_)
    rw [Procherd.readJson, if_neg hfits, hbytes]

/-- A reading that begins after the path has named `length` files. -/
theorem wp_readJson (length : Nat) (h : length ≤ w.versions.length) :
    Proc.wp (interface sure P role) (readJson parser path)
      (fun document _ => Recent (sure role) parser path length (.ok document))
      (fun e _ => Recent (sure role) parser path length (.error e)) () w := by
  have hlonger {w w' : World} (h : length ≤ w.versions.length) (hrely : Rely role w w') :
      length ≤ w'.versions.length := Nat.le_trans h hrely.versions.length_le
  have hfault {a : Answer} {fault : Fault} {w : World} {e : AppError}
      (hsure : sure role → a.fault = none) (hfault : a.fault = some fault) :
      Recent (sure role) parser path length (.error e) w :=
    .of_fault fun hdue => absurd ((hsure hdue.1).symm.trans hfault) (by simp)
  have hmissing {w w' : World} {e : AppError} (h : length ≤ w.versions.length)
      (hnone : w.versions = []) : Recent (sure role) parser path length (.error e) w' := by
    refine .of_fault fun hdue => ?_
    rw [hnone, List.length_nil] at h
    omega
  refine Proc.wp_seq (fun _ _ w => length ≤ w.versions.length) ?_ fun _ _ w h => ?_
  · refine Proc.wp_attempt fun w₁ hrely r w' hs => ?_
    obtain ⟨a, hsure, hexec⟩ := hs
    refine ⟨trivial, ?_⟩
    obtain ⟨fault, hfails, rfl, -⟩ | ⟨-, hdone⟩ := fallible_cases hexec
    · exact hfault hsure hfails
    · obtain ⟨rfl, rfl⟩ := Prod.mk.inj hdone
      split
      · exact hmissing (hlonger h hrely) ‹_›
      · exact hlonger h hrely
  refine Proc.wp_seq (fun file _ w => ∃ k bytes, length ≤ k + 1 ∧ Opened k file bytes w) ?_ ?_
  · refine Proc.wp_attempt fun w₁ hrely r w' hs => ?_
    obtain ⟨a, hsure, hexec⟩ := hs
    refine ⟨trivial, ?_⟩
    have h₁ := hlonger h hrely
    obtain ⟨fault, hfails, rfl, -⟩ | ⟨-, hdone⟩ := fallible_cases hexec
    · exact hfault hsure hfails
    · obtain ⟨rfl, rfl⟩ := Prod.mk.inj hdone
      cases hlast : w₁.versions.getLast? with
      | none => exact hmissing h₁ (List.getLast?_eq_none_iff.mp hlast)
      | some file =>
        rw [List.getLast?_eq_getElem?] at hlast
        exact ⟨w₁.versions.length - 1, w₁.contents file, by omega, hlast, rfl⟩
  rintro file _ w ⟨k, bytes, hk, h⟩
  refine Proc.wp_seq (fun found _ w => found = bytes.length ∧ Opened k file bytes w) ?_ ?_
  · refine Proc.wp_attempt fun w₁ hrely r w' hs => ?_
    obtain ⟨a, hsure, hexec⟩ := hs
    refine ⟨trivial, ?_⟩
    have h₁ := h.rely hrely
    obtain ⟨fault, hfails, rfl, -⟩ | ⟨-, hdone⟩ := fallible_cases hexec
    · exact hfault hsure hfails
    · obtain ⟨rfl, rfl⟩ := Prod.mk.inj hdone
      exact ⟨congrArg List.length h₁.2, h₁⟩
  rintro _ _ w ⟨rfl, h⟩
  refine Proc.wp_bind (Proc.wp_throwIf (fun htoo _ => ?_) fun hfits => wp_fromReader hk hfits h)
  refine ⟨k, bytes, hk, h.version, ?_⟩
  rw [Procherd.readJson, if_pos htoo]
  rfl

end Reader

/-! ## Runs -/

/-- The path has named documents of `P` only. -/
def Committed (P : Bytes → Prop) (w : World) : Prop :=
  ∀ file ∈ w.versions, P (w.contents file)

/-- What a call leaves at the path is what was there, or what it was allowed to
    commit. -/
theorem committed_of_exec {P : Bytes → Prop} {β : Type} {c : Cmd β} {a : Answer} {b : β}
    (hallowed : Allowed P role w c) (hexec : exec role c a w = some (b, w'))
    (h : Committed P w) : Committed P w' := by
  have happend (file : Nat) (piece : Bytes) (hunnamed : file ∉ w.versions) :
      Committed P (w.append file piece) := by
    intro other hother
    have hne : other ≠ file := fun heq => hunnamed (heq ▸ hother)
    have hsame : (w.append file piece).contents other = w.contents other :=
      Function.update_of_ne hne _ _
    rw [hsame]
    exact h other hother
  have hrename (file : Nat) (hfile : file < w.next) (hP : P (w.contents file)) :
      Committed P (w.rename file hfile) := by
    intro other hother
    obtain hother | hother := List.mem_append.mp hother
    · exact h other hother
    · rw [List.mem_singleton.mp hother]
      exact hP
  cases c with
  | openTemporary =>
    obtain ⟨-, -, -, rfl⟩ | ⟨-, hdone⟩ := fallible_cases hexec
    · exact h
    · cases hdone
      intro file hfile
      have hsame : (w.create role).contents file = w.contents file :=
        Function.update_of_ne (Nat.ne_of_lt (w.made file hfile)) _ _
      rw [hsame]
      exact h file hfile
  | writeAll file piece =>
    simp only [exec] at hexec
    split at hexec
    · cases hexec
      exact happend file _ hallowed.unnamed
    · cases hexec
      exact happend file piece hallowed.unnamed
  | commit file =>
    simp only [exec, dif_pos hallowed.1.made] at hexec
    split at hexec
    · cases hexec
      split
      · exact hrename file hallowed.1.made hallowed.2
      · exact h
    · cases hexec
      exact hrename file hallowed.1.made hallowed.2
  | flush | ensureRegularFile | openFile | length | read =>
    obtain ⟨-, -, -, rfl⟩ | ⟨-, hdone⟩ := fallible_cases hexec
    · exact h
    · cases hdone
      exact h

/-- The calls of one reader do not fail. -/
def reads (α : Type) (reliable : Prop) (n : Nat) : (system α).Condition := fun role {_} _ a _ =>
  reliable → role = .reader n → a.fault = none

section Runs

variable {α : Type} {P : Bytes → Prop} {reliable : Prop} {n : Nat}

/-- All processes keep to what they are allowed. -/
abbrev kept (ok : (system α).Condition) (P : Bytes → Prop) : (system α).Condition :=
  Machine.guaranteed (M := system α) ok (fun _ => id) (interface (fun _ => False) P)

theorem describes_reader :
    Machine.Describes (M := system α) (kept (reads α reliable n) P) (.reader n) id
      (interface (fun _ => reliable) P (.reader n)) where
  self _ a _ _ _ hok he := ⟨a, fun hreliable => hok.1 hreliable rfl, he⟩
  other _ hne _ _ _ _ _ hok he := rely_of_exec hne (hok.2 _ _ he) he

theorem reach_kept {ok : (system α).Condition} {init cfg : (system α).Config}
    (h0 : ∀ role, (init.thread role).wp (interface (fun _ => False) P role) (fun _ _ => True)
      init.world) (h : Machine.Reach ok init cfg) :
    Machine.Reach (kept ok P) init cfg ∧ ∀ role, (cfg.thread role).wp
      (interface (fun _ => False) P role) (fun _ _ => True) cfg.world := by
  have hself (role : Role) {β : Type} (c : Cmd β) (a : Answer) (w : World) (b : β) (w' : World)
      (_ : ok role c a w) (he : exec role c a w = some (b, w')) :
      (interface (fun _ => False) P role).step c w b w' := ⟨a, fun hfalse => hfalse.elim, he⟩
  have hother (role other : Role) (hne : other ≠ role) {β : Type} (c : Cmd β) (a : Answer)
      (w : World) (b : β) (w' : World) (_ : ok other c a w) (he : exec other c a w = some (b, w'))
      (hallowed : Allowed P other w c) : Rely role w w' := rely_of_exec hne hallowed he
  have hkept : Machine.Reach (kept ok P) init cfg :=
    Machine.Reach.cooperate (M := system α) (V := fun _ => id) (Q := fun _ _ _ => True) hself hother
      (fun _ _ _ _ _ h => h) h0 h
  refine ⟨hkept, fun role => ?_⟩
  exact (Machine.describes_guaranteed (M := system α) (V := fun _ => id) hself hother role).wp
    (fun _ _ _ _ h => h) (h0 role) hkept

end Runs

end Replacement

/-- However its calls interleave with those of any number of writers and other
    readers, and whichever of them fail: a reading that succeeds, or none of whose
    calls fails, reads one whole document that the path has named, and none that was
    replaced before the reading began. -/
theorem read_committed [Toolchain] {α : Type} (parser : Replacement.Parser α) (path : PathBuf)
    (before : List Bytes) (documents : Nat → List (List Bytes)) (reliable : Prop) {n : Nat}
    {cfg₀ cfg : (Replacement.system α).Config}
    (h₀ : Machine.Reach (Machine.always (Replacement.system α))
      (Replacement.initial parser path before documents) cfg₀)
    (hbegin : cfg₀.thread (.reader n) = Replacement.readJson parser path ())
    (h : Machine.Reach (Replacement.reads α reliable n) cfg₀ cfg) {r : Except AppError α}
    (hr : cfg.thread (.reader n) = .ret (r, ()))
    (hdue : r.isOk ∨ reliable ∧ 0 < cfg₀.world.versions.length) :
    ∃ k bytes, cfg₀.world.versions.length ≤ k + 1 ∧ cfg.world.version k = some bytes ∧
      r = readJson parser.decode path bytes ∧
      (bytes ∈ before ∨ ∃ n, ∃ pieces ∈ documents n, bytes = pieces.flatten) := by
  let P := Replacement.Given before documents
  have hinit : ∀ role, ((Replacement.initial parser path before documents).thread role).wp
      (Replacement.interface (fun _ => False) P role) (fun _ _ => True)
      (Replacement.initial parser path before documents).world := by
    rintro (m | m)
    · refine Prog.wp_mono (fun _ _ _ => trivial) (Replacement.wp_atomicWrites fun pieces hmem => ?_)
      exact .inr ⟨m, pieces, hmem, rfl⟩
    · exact Prog.wp_mono (fun _ _ _ => trivial) (Replacement.wp_readJson 0 (Nat.zero_le _))
  obtain ⟨hkept₀, hwp₀⟩ := Replacement.reach_kept hinit h₀
  obtain ⟨hkept, -⟩ := Replacement.reach_kept hwp₀ h
  let Q (r : Except AppError α × Unit) : Replacement.World → Prop :=
    Replacement.Recent reliable parser path cfg₀.world.versions.length r.1
  have hwp : (cfg₀.thread (.reader n)).wp (Replacement.interface (fun _ => reliable) P (.reader n))
      Q cfg₀.world := by
    rw [hbegin]
    refine Prog.wp_mono ?_ (Replacement.wp_readJson cfg₀.world.versions.length (Nat.le_refl _))
    rintro ⟨result, u⟩ w hrecent
    cases result with
    | error e => exact hrecent
    | ok document => exact hrecent
  obtain ⟨k, bytes, hk, hversion, hread⟩ := Replacement.describes_reader.result (Q := Q)
    (fun _ _ _ hrely hrecent => hrecent.rely hrely) hwp hkept hr hdue
  obtain ⟨file, hfile, rfl⟩ := Option.map_eq_some_iff.mp hversion
  have hexec {ok : (Replacement.system α).Condition} {role : Replacement.Role} {β : Type}
      (c : Replacement.Cmd β) (a : Replacement.Answer) (w : Replacement.World) (b : β)
      (w' : Replacement.World) (hok : Replacement.kept ok P role c a w)
      (he : Replacement.exec role c a w = some (b, w')) (hJ : Replacement.Committed P w) :
      Replacement.Committed P w' := Replacement.committed_of_exec (hok.2 _ _ he) he hJ
  have hbefore : Replacement.Committed P (.initial before) := by
    intro file hfile
    have hlt : file < before.length := List.mem_range.mp hfile
    show P (before.getD file [])
    rw [List.getD_eq_getElem before [] hlt]
    exact .inl (List.getElem_mem hlt)
  have hcommitted :=
    hkept.invariant (fun _ _ => hexec) (hkept₀.invariant (fun _ _ => hexec) hbefore)
  exact ⟨k, _, hk, hversion, hread, hcommitted file (List.mem_of_getElem? hfile)⟩

end Procherd

namespace Procherd.Reference

open Interaction Replacement

/-- A document of two bytes, after which nothing may come. -/
def pairParser : Parser (Nat × Nat) where
  decode
    | [a, b] => .ok (a.toNat, b.toNat)
    | _ => .error "trailing characters"
  refuses bytes := 2 < bytes.length
  sound bytes rest hrefuses := by
    match bytes, hrefuses with
    | _ :: _ :: _ :: _, _ => exact ⟨_, rfl, rfl⟩

def documentPath : PathBuf := .ofString "stop.request.json"

def replacedDocuments (n : Nat) : List (List Bytes) := if n = 0 then [[[3], [4]]] else []

/-- No call fails, and a read finds one byte. -/
def replacementMoves (role : Role) (n : Nat) : List (Replacement.system (Nat × Nat)).Move :=
  List.replicate n (role, {})

/-- The document is replaced while a reader, which has opened it, reads its bytes. -/
def replacedMoves : List (Replacement.system (Nat × Nat)).Move :=
  replacementMoves (.reader 0) 5 ++ replacementMoves (.writer 0) 5 ++ replacementMoves (.reader 0) 4

def replacedInitial : (Replacement.system (Nat × Nat)).Config :=
  Replacement.initial pairParser documentPath [[1, 2]] replacedDocuments

def withoutFault (_ : (Replacement.system (Nat × Nat)).Config)
    (m : (Replacement.system (Nat × Nat)).Move) : Bool := m.2.fault.isNone

theorem meets_reads (cfg : (Replacement.system (Nat × Nat)).Config)
    (m : (Replacement.system (Nat × Nat)).Move) (h : withoutFault cfg m) :
    Machine.Meets (reads (Nat × Nat) True 0) cfg m :=
  fun _ _ _ _ _ _ => Option.isNone_iff_eq_none.mp h

/-- What the reader has read. -/
def replacedResult (cfg : (Replacement.system (Nat × Nat)).Config) : Option (Nat × Nat) :=
  match cfg.thread (.reader 0) with
  | .ret (.ok pair, ()) => some pair
  | _ => none

theorem ret_of_replacedResult {cfg : (Replacement.system (Nat × Nat)).Config}
    {pair : Nat × Nat} (h : replacedResult cfg = some pair) :
    cfg.thread (.reader 0) = .ret (.ok pair, ()) := by
  unfold replacedResult at h
  split at h
  · rename_i hr
    cases h
    exact hr
  · cases h

theorem read_committed_replaced : ∃ (cfg : (Replacement.system (Nat × Nat)).Config) (k : Nat)
    (bytes : Bytes), cfg.world.versions = [0, 1] ∧ cfg.world.version k = some bytes ∧
      Except.ok (1, 2) = Procherd.readJson pairParser.decode documentPath bytes ∧
      (bytes ∈ [[1, 2]] ∨ ∃ n, ∃ pieces ∈ replacedDocuments n, bytes = pieces.flatten) := by
  have hrun : (Machine.runChecked withoutFault replacedInitial replacedMoves).map
      (fun cfg => (cfg.world.versions, replacedResult cfg)) = some ([0, 1], some (1, 2)) := by
    decide +kernel
  obtain ⟨cfg, hcfg, hfound⟩ := Option.map_eq_some_iff.mp hrun
  obtain ⟨hversions, hresult⟩ := Prod.mk.inj hfound
  obtain ⟨k, bytes, -, hversion, hread, hgiven⟩ := read_committed pairParser documentPath [[1, 2]]
    replacedDocuments True .init rfl (.of_runChecked meets_reads hcfg)
    (ret_of_replacedResult hresult) (.inl rfl)
  exact ⟨cfg, k, bytes, hversions, hversion, hread, hgiven⟩

end Procherd.Reference
