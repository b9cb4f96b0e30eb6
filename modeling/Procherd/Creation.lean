-- SUMMARY: What a failed creation of a run leaves behind: the run directory, unless the creation was refused before it made one.
import Procherd.Collection
import Procherd.Reference

/-!
# Creation

`create_run` makes the run directory first and has nothing that removes it
again. A failure of any later step leaves a directory that `list_run_ids` finds.
-/

namespace Procherd

open Interaction

variable [Toolchain] {w w' : StoreWorld}

/-! ## What a listing finds -/

/-- A client that lists the runs by itself finds `ids`. -/
def Lists (w : StoreWorld) (ids : List String) : Prop :=
  ∃ as w', Prog.execute (fun {_} => StoreThread.exec (.client 0)) as (listRunIds ()) w =
    some ((.ok ids, ()), w')

/-- The names of `names` that `list_run_ids` returns. -/
def runNames (w : StoreWorld) (names : List String) : List String :=
  names.filter fun name => (w.run name).dir && (canonicalRunId name).isOk

theorem execute_scanEntries {names : List String} {as : List StoreAnswer}
    {r : Except AppError (List String) × Unit}
    (h : Prog.execute (fun {_} => StoreThread.exec (.client 0)) as (scanEntries names ()) w =
      some (r, w')) : w' = w ∧ ∀ ids, r.1 = .ok ids → ids = runNames w names := by
  induction names generalizing as r w' with
  | nil =>
    obtain ⟨rfl, rfl⟩ := Proc.execute_pure h
    exact ⟨rfl, fun ids hids => (Except.ok.inj hids).symm⟩
  | cons name names ih =>
    obtain ⟨_, _, r₁, s₁, w₁, -, hentry, hrest⟩ := Proc.execute_bind h
    obtain ⟨a, -, hexec, -⟩ := Proc.execute_attempt hentry
    obtain ⟨fault, -, hr₁, rfl⟩ | ⟨-, hexec⟩ := storeFallible_cases hexec
    · obtain ⟨_, hok, -⟩ | ⟨e, -, rfl, rfl⟩ := hrest
      · exact nomatch hok.symm.trans hr₁
      · exact ⟨rfl, nofun⟩
    cases hexec
    obtain ⟨isDir, hisDir, hrest⟩ | ⟨e, he, -⟩ := hrest
    swap
    · cases he
    cases hisDir
    obtain ⟨_, _, r₂, s₂, w₂, -, hscan, hlast⟩ := Proc.execute_bind hrest
    obtain ⟨rfl, hids⟩ := ih hscan
    obtain ⟨ids, rfl, hlast⟩ | ⟨e, -, rfl, rfl⟩ := hlast
    · obtain ⟨rfl, rfl⟩ := Proc.execute_pure hlast
      refine ⟨rfl, fun found hfound => ?_⟩
      cases hfound
      rw [hids ids rfl]
      simp only [runNames, List.filter_cons]
    · exact ⟨rfl, nofun⟩

theorem scanEntries_execute (names : List String) (w : StoreWorld) :
    ∃ as, Prog.execute (fun {_} => StoreThread.exec (.client 0)) as (scanEntries names ()) w =
      some ((.ok (runNames w names), ()), w) := by
  induction names with
  | nil => exact ⟨[], rfl⟩
  | cons name names ih =>
    obtain ⟨as, has⟩ := ih
    refine ⟨{} :: (as ++ []), ?_⟩
    refine (Prog.execute_cons (.ok (w.run name).dir) w rfl).trans ?_
    refine (Prog.execute_append has).trans ?_
    simp only [runNames, List.filter_cons]
    rfl

/-- The result of a listing during which the names `appearing` turn up. -/
def listed (w : StoreWorld) (appearing : List String) : List String :=
  ((runNames w (w.entries ++ appearing).dedup).insertionSort (· ≤ ·)).reverse

theorem lists_iff {ids : List String} : Lists w ids ↔ ∃ appearing, ids = listed w appearing := by
  constructor
  · rintro ⟨as, w', h⟩
    obtain ⟨_, _, r₁, s₁, w₁, -, hread, hrest⟩ := Proc.execute_bind h
    obtain ⟨a, -, hexec, -⟩ := Proc.execute_attempt hread
    obtain ⟨fault, -, hr₁, rfl⟩ | ⟨-, hexec⟩ := storeFallible_cases hexec
    · obtain ⟨_, hok, -⟩ | ⟨e, -, herror, -⟩ := hrest
      · exact nomatch hok.symm.trans hr₁
      · cases herror
    cases hexec
    obtain ⟨names, hnames, hrest⟩ | ⟨e, he, -⟩ := hrest
    swap
    · cases he
    cases hnames
    obtain ⟨_, _, r₂, s₂, w₂, -, hscan, hlast⟩ := Proc.execute_bind hrest
    obtain ⟨rfl, hfound⟩ := execute_scanEntries hscan
    obtain ⟨found, rfl, hlast⟩ | ⟨e, -, herror, -⟩ := hlast
    · cases (Proc.execute_pure hlast).1
      exact ⟨a.appearing, by rw [hfound found rfl]; rfl⟩
    · cases herror
  · rintro ⟨appearing, rfl⟩
    obtain ⟨as, has⟩ := scanEntries_execute (w.entries ++ appearing).dedup w
    refine ⟨{ appearing } :: (as ++ []), w, ?_⟩
    refine (Prog.execute_cons (.ok (w.entries ++ appearing).dedup) w rfl).trans ?_
    exact (Prog.execute_append has).trans rfl

theorem mem_listed {appearing : List String} {id : String} :
    id ∈ listed w appearing ↔ (id ∈ w.entries ∨ id ∈ appearing) ∧ (w.run id).dir = true ∧
      (canonicalRunId id).isOk = true := by
  simp only [listed, runNames, List.mem_reverse, List.mem_insertionSort, List.mem_filter,
    List.mem_dedup, List.mem_append, Bool.and_eq_true]

/-- Every run directory is in some listing. -/
theorem exists_lists {id : String} (hentry : id ∈ w.entries) (hdir : (w.run id).dir = true)
    (hid : (canonicalRunId id).isOk) : ∃ ids, Lists w ids ∧ id ∈ ids :=
  ⟨listed w [], lists_iff.mpr ⟨[], rfl⟩, mem_listed.mpr ⟨.inl hentry, hdir, hid⟩⟩

/-- A listing only looks at the names and whether they are directories. -/
theorem lists_congr (hentries : w'.entries = w.entries)
    (hdir : ∀ id, (w'.run id).dir = (w.run id).dir) (ids : List String) :
    Lists w' ids ↔ Lists w ids := by
  have hlisted (appearing : List String) : listed w' appearing = listed w appearing := by
    simp only [listed, runNames, hentries, hdir]
  simp only [lists_iff, hlisted]

/-! ## Failed creations -/

/-- The creation is refused before anything is made: the run ID is not canonical,
    the directory exists, or the call that makes it fails. -/
def CreationRefused (runId : String) (as : List StoreAnswer) (w : StoreWorld) : Prop :=
  (canonicalRunId runId).isOk = false ∨ (w.run runId).dir = true ∨
    (as.head?.bind fun a => a.fault).isSome = true

omit [Toolchain] in
theorem entries_setRun_run (w : StoreWorld) (id : String) :
    (w.setRun id (w.run id)).entries = w.entries := by
  have hsame : (w.run id).dir = (w.runs id).dir := rfl
  simp only [StoreWorld.setRun, hsame, Bool.and_not_self, Bool.false_eq_true, if_false]

omit [Toolchain] in
theorem run_setRun_run (w : StoreWorld) (id j : String) :
    (w.setRun id (w.run id)).run j = w.run j := by
  by_cases hj : j = id
  · subst hj
    exact w.run_setRun j _
  · exact w.run_setRun_of_ne id _ hj

/-- The creation of a run has made its directory. -/
def Made (id : String) (w : StoreWorld) : Prop := id ∈ w.entries ∧ (w.run id).dir = true

theorem made_exec {id : String} {t : Thread} {β : Type} {c : t.Cmd β} {a : StoreAnswer} {b : β}
    (h : StoreThread.exec (.run id t) c a w = some (b, w')) (hw : Made id w) : Made id w' := by
  have hexec : (exec t c a.toAnswer (w.run id)).map (fun r => (r.1, w.setRun id r.2)) =
      some (b, w') := by
    cases t with
    | client n => cases h
    | _ => exact h
  obtain ⟨⟨b', run⟩, hrun, hw'⟩ := Option.map_eq_some_iff.mp hexec
  cases hw'
  refine ⟨?_, ?_⟩
  · simp only [StoreWorld.setRun]
    split
    · exact List.mem_append_left _ hw.1
    · exact hw.1
  · rw [StoreWorld.run_setRun]
    exact (exec_keeps hrun).dir hw.2

/-- An error of `create_run` leaves the listings of the store as they were
    exactly if the creation was refused before it made the directory. -/
theorem create_run_clean (state : RunState) {spec : SupervisorSpec} {ownerToken : String}
    {as : List StoreAnswer} {e : AppError}
    (h : Prog.execute (fun {_} => StoreThread.exec (.run state.runId .start)) as
      (createRun state spec ownerToken ()) w = some ((.error e, ()), w')) :
    (∀ ids, Lists w' ids ↔ Lists w ids) ↔ CreationRefused state.runId as w := by
  obtain ⟨_, as, r₁, s₁, w₁, rfl, hid, hrest⟩ := Proc.execute_bind h
  obtain ⟨rfl, hr₁⟩ := Prog.execute_ret hid
  cases hr₁
  obtain ⟨id, hcanonical, hrest⟩ | ⟨e, herror, -, rfl⟩ := hrest
  swap
  · exact ⟨fun _ => .inl (by rw [herror]; rfl), fun _ _ => .rfl⟩
  obtain ⟨_, as, r₁, s₁, w₁, rfl, hmake, hrest⟩ := Proc.execute_bind hrest
  obtain ⟨a, rfl, hexec, -⟩ := Proc.execute_attempt hmake
  obtain ⟨⟨r, run⟩, hrun, hw₁⟩ := Option.map_eq_some_iff.mp hexec
  cases hw₁
  have hrefused (hrun : run = w.run state.runId)
      (hnone : w' = w.setRun state.runId run) (ids : List String) : Lists w' ids ↔ Lists w ids := by
    rw [hnone, hrun]
    exact lists_congr (entries_setRun_run ..) (fun j => by rw [run_setRun_run]) ids
  obtain ⟨fault, hfault, hr, hkeep⟩ | ⟨hfault, hrun⟩ := fallible_cases hrun
  · -- The call that makes the directory fails.
    obtain ⟨_, hok, -⟩ | ⟨e, -, -, hw'⟩ := hrest
    · exact nomatch hok.symm.trans hr
    exact ⟨fun _ => .inr (.inr (congrArg Option.isSome hfault)), fun _ => hrefused hkeep hw'⟩
  split at hrun
  · rename_i hdir
    cases hrun
    obtain ⟨_, hok, -⟩ | ⟨e, -, -, hw'⟩ := hrest
    · cases hok
    exact ⟨fun _ => .inr (.inl hdir), fun _ => hrefused rfl hw'⟩
  · rename_i hdir
    cases hrun
    obtain ⟨_, -, hrest⟩ | ⟨e, herror, -⟩ := hrest
    swap
    · cases herror
    have hmade : Made state.runId
        (w.setRun state.runId { w.run state.runId with dir := true }) := by
      refine ⟨?_, by rw [StoreWorld.run_setRun]⟩
      have hnew : (w.runs state.runId).dir = false := Bool.eq_false_iff.mpr hdir
      simp only [StoreWorld.setRun, hnew, Bool.not_false, Bool.and_self, if_true]
      exact List.mem_append_right _ (List.mem_singleton_self _)
    have hfinal := Prog.execute_invariant (fun c a w b w' h hw => made_exec h hw) hrest hmade
    constructor
    · intro hsame
      -- The new directory is listed after the failure, and was not before it.
      obtain ⟨ids, hids, hmem⟩ := exists_lists hfinal.1 hfinal.2 (by rw [hcanonical]; rfl)
      obtain ⟨appearing, rfl⟩ := lists_iff.mp ((hsame ids).mp hids)
      exact absurd (mem_listed.mp hmem).2.1 hdir
    · rintro (hcan | hexists | hfails)
      · rw [hcanonical] at hcan
        cases hcan
      · exact absurd hexists hdir
      · simp only [List.nil_append, List.cons_append, List.head?_cons, Option.bind_some, hfault] at hfails
        cases hfails

end Procherd

namespace Procherd.Reference

open Interaction

/-- The store of the reference options before any run. -/
def emptyStore : StoreWorld := (storeSetup fun _ => .list).world

def noRequests : LeaseRequests := { portNames := [], tempDirectoryNames := [] }

/-- The reference options in a working directory that is no UTF-8 text. -/
def unencodable : StartOptions := { options with workingDirectory := ⟨[255]⟩ }

/-- The creation of the run, executed by itself. -/
def createUnencodable (as : List StoreAnswer) :
    Option ((Except AppError Unit × Unit) × StoreWorld) :=
  Prog.execute (fun {_} => StoreThread.exec (.run options.runId .start)) as
    (createRun (unencodable.initialState noRequests 0) (unencodable.spec noRequests 0)
      unencodable.ownerToken ()) emptyStore

/-- The answers of a creation whose step `n` fails. -/
def failingAt (n : Nat) (fault : Fault) : List StoreAnswer :=
  List.replicate n ({} : StoreAnswer) ++ [{ fault := some fault }]

/-- What a failed creation leaves: whether the run directory is there, and has
    its name in the state root. -/
def leftover? (as : List StoreAnswer) : Option (Bool × Bool) :=
  match createUnencodable as with
  | some ((.error _, ()), w) =>
    some ((w.run options.runId).dir, decide (options.runId ∈ w.entries))
  | _ => none

theorem error_of_leftover {as : List StoreAnswer} {found : Bool × Bool}
    (h : leftover? as = some found) : ∃ e w', createUnencodable as = some ((.error e, ()), w') ∧
      (w'.run options.runId).dir = found.1 ∧ decide (options.runId ∈ w'.entries) = found.2 := by
  unfold leftover? at h
  split at h
  · rename_i e w' hexec
    cases h
    exact ⟨e, w', hexec, rfl, rfl⟩
  · cases h

/-- The directory of the run cannot be made. -/
theorem create_run_clean_refused : ∃ e w',
    createUnencodable (failingAt 0 (.io .missing)) = some ((.error e, ()), w') ∧
    ∀ ids, Lists w' ids ↔ Lists emptyStore ids := by
  have hrun : leftover? (failingAt 0 (.io .missing)) = some (false, false) := by decide +kernel
  obtain ⟨e, w', h, -⟩ := error_of_leftover hrun
  exact ⟨e, w', h, (create_run_clean (unencodable.initialState noRequests 0) h).mpr (.inr (.inr rfl))⟩

/-- The state cannot be encoded, after the directory, the lock file and an empty
    `state.json` have been made. -/
theorem create_run_leftover : ∃ e w',
    createUnencodable (failingAt 3 (.document "path contains invalid UTF-8 characters")) =
      some ((.error e, ()), w') ∧ ¬ ∀ ids, Lists w' ids ↔ Lists emptyStore ids := by
  have hrun : leftover? (failingAt 3 (.document "path contains invalid UTF-8 characters")) =
      some (true, true) := by decide +kernel
  obtain ⟨e, w', h, hdir, hentry⟩ := error_of_leftover hrun
  refine ⟨e, w', h, fun hclean => ?_⟩
  obtain ⟨ids, hids, hmem⟩ := exists_lists (of_decide_eq_true hentry) hdir (by decide +kernel)
  obtain ⟨appearing, rfl⟩ := lists_iff.mp ((hclean ids).mp hids)
  exact nomatch (mem_listed.mp hmem).2.1

end Procherd.Reference
