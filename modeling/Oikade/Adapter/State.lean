/-
  The private state directory of an adapter (`oikade-adapter-host/src/state.rs`).

  The directory that holds the state directory is a map from names to nodes; nothing else writes to
  it meanwhile. Among the calls to the file system at most one fails, with an error that is neither
  "not found" nor "already exists": those two the file system reports only of names that are absent
  or taken. So the calls of the rollback, which are made after a failure, do not fail. A write that
  fails leaves a part of its bytes, a removal that fails a rest of the tree. New files and
  directories get the mode they are created with (the umask clears no bit of the owner).

  `reset_state_directory` moves the state into a quarantine, makes a fresh directory in its place
  and removes the quarantine. What fails in between is rolled back; the removal is behind that, and
  what `ensure_state_directory` has created is not taken back. `reset_allOrNothing` says exactly
  when the state is as before after an error.
-/
import Oikade.Storage.Bucket
import Mathlib.Logic.Function.Basic

namespace Oikade.Adapter.State

open Oikade.Storage (Bytes utf8 fromUtf8)

/-! ## Files -/

/-- `link` tells whether its target exists; `special` are sockets, pipes and devices. -/
inductive Node where
  | file (mode : Nat) (content : Bytes)
  | link (resolves : Bool)
  | special (mode : Nat)
  | dir (mode : Nat) (entries : String → Option Node)

abbrev Entries := String → Option Node

def noEntries : Entries := fun _ => none

/-- The entry `name` becomes `node`, or goes. -/
abbrev put (fs : Entries) (name : String) (node : Option Node) : Entries :=
  Function.update fs name node

/-- `Path::exists` follows a link. -/
def pathExists : Option Node → Bool
  | none => false
  | some (.link resolves) => resolves
  | some _ => true

/-- The calls of `ensure_marker`. -/
inductive MarkerCall where
  | stat
  | create
  | write
  | sync
  | read
  deriving DecidableEq, Repr

/-- The calls of `reset_state_directory`: `verify` are those on the marker of the old directory,
    `mark` those on the marker of the new one. -/
inductive Call where
  | exists_
  | createParents
  | createDirectory
  | statDirectory
  | canonicalize
  | verify (call : MarkerCall)
  | createQuarantine (attempt : Nat)
  | renameAway
  | createFresh
  | mark (call : MarkerCall)
  | statQuarantine
  | removeQuarantine
  deriving DecidableEq, Repr

/-- The call that fails, if any; a failed write has written `written` bytes, a failed removal leaves
    `rest`. -/
structure Failure where
  call : Option Call
  written : Nat
  rest : Option Node

def Failure.at (f : Failure) (c : Call) : Bool := f.call = some c

inductive IoError where
  | failed (call : Call)
  | notADirectory
  /-- "stream did not contain valid UTF-8" -/
  | invalidData
  /-- "could not allocate adapter state quarantine" -/
  | noQuarantine
  | other (message : String)
  deriving DecidableEq, Repr

inductive StateError where
  /-- "adapter state directory is required" -/
  | missing
  /-- "adapter state I/O: .." -/
  | io (error : IoError)
  /-- "adapter state directory must be a private real directory" -/
  | unsafeDirectory
  /-- "adapter state marker is invalid or belongs to another instance" -/
  | invalidMarker
  deriving DecidableEq, Repr

def adapterStateMarker : String := ".oikade-adapter-state"

/-- The mode has no bit for the group or for others. -/
def isPrivate (mode : Nat) : Bool := mode &&& 0o077 = 0

def markerText (instanceId : String) : String := instanceId ++ "\n"

/-! ## The marker -/

/-- `ensure_marker`, on the entries of the directory. -/
def ensureMarker (f : Failure) (call : MarkerCall → Call) (instanceId : String) (entries : Entries) :
    Except StateError Unit × Entries :=
  let expected := markerText instanceId
  if f.at (call .stat) then (.error (.io (.failed (call .stat))), entries)
  else match entries adapterStateMarker with
  | none =>
    if f.at (call .create) then (.error (.io (.failed (call .create))), entries)
    else if f.at (call .write) then
      (.error (.io (.failed (call .write))),
        put entries adapterStateMarker (some (.file 0o600 ((utf8 expected).take f.written))))
    else
      let entries := put entries adapterStateMarker (some (.file 0o600 (utf8 expected)))
      if f.at (call .sync) then (.error (.io (.failed (call .sync))), entries) else (.ok (), entries)
  | some (.file mode content) =>
    if !isPrivate mode || 256 < content.length then (.error .invalidMarker, entries)
    else if f.at (call .read) then (.error (.io (.failed (call .read))), entries)
    else match fromUtf8 content with
      | none => (.error (.io .invalidData), entries)
      | some text => if text ≠ expected then (.error .invalidMarker, entries) else (.ok (), entries)
  | some _ => (.error .invalidMarker, entries)

/-- `ensure_marker` in the directory `name`. -/
def ensureMarkerIn (f : Failure) (call : MarkerCall → Call) (instanceId name : String) (fs : Entries) :
    Except StateError Unit × Entries :=
  match fs name with
  | some (.dir mode entries) =>
    let (result, entries) := ensureMarker f call instanceId entries
    (result, put fs name (some (.dir mode entries)))
  | _ => (.error (.io .notADirectory), fs)

/-- Whether `name` is a private directory and no link. -/
def isPrivateDirectory : Option Node → Bool
  | some (.dir mode _) => isPrivate mode
  | _ => false

/-- `ensure_state_directory`. The file name of the path is `base`; it is empty exactly if the path
    is. The parents exist or `createParents` makes them. -/
def ensureStateDirectory (f : Failure) (instanceId base : String) (fs : Entries) :
    Except StateError Unit × Entries :=
  if base.isEmpty then (.error .missing, fs)
  else
    let found := !f.at .exists_ && pathExists (fs base)
    if !found && f.at .createParents then (.error (.io (.failed .createParents)), fs)
    else if !found && f.at .createDirectory then (.error (.io (.failed .createDirectory)), fs)
    else
      -- a name that is taken is no error here
      let fs := if !found && (fs base).isNone then put fs base (some (.dir 0o700 noEntries)) else fs
      if f.at .statDirectory then (.error (.io (.failed .statDirectory)), fs)
      else if !isPrivateDirectory (fs base) then (.error .unsafeDirectory, fs)
      else if f.at .canonicalize then (.error (.io (.failed .canonicalize)), fs)
      else ensureMarkerIn f .verify instanceId base fs

/-! ## The reset -/

def quarantineName (base : String) (pid sequence : Nat) : String :=
  "." ++ base ++ ".reset-" ++ toString pid ++ "-" ++ toString sequence

/-- The loop of `create_quarantine` from an attempt on; `sequence` are the numbers that
    `RESET_SEQUENCE` yields. -/
def createQuarantineFrom (f : Failure) (base : String) (pid : Nat) (sequence : Nat → Nat)
    (fs : Entries) (attempt : Nat) : Nat → Except StateError String × Entries
  | 0 => (.error (.io .noQuarantine), fs)
  | remaining + 1 =>
    let candidate := quarantineName base pid (sequence attempt)
    if f.at (.createQuarantine attempt) then
      (.error (.io (.failed (.createQuarantine attempt))), fs)
    else match fs candidate with
      | none => (.ok candidate, put fs candidate (some (.dir 0o700 noEntries)))
      | some _ => createQuarantineFrom f base pid sequence fs (attempt + 1) remaining

def createQuarantine (f : Failure) (base : String) (pid : Nat) (sequence : Nat → Nat)
    (fs : Entries) : Except StateError String × Entries :=
  createQuarantineFrom f base pid sequence fs 0 128

/-- The directory `name` moves into the quarantine. -/
def renameAway (name quarantine : String) (fs : Entries) : Entries :=
  put (put fs quarantine (some (.dir 0o700 (put noEntries "state" (fs name))))) name none

/-- The closure `rollback`: `name` is removed, the directory in the quarantine moves back to it, and
    the quarantine is removed. -/
def rollback (name quarantine : String) (fs : Entries) : Entries :=
  match fs quarantine with
  | some (.dir _ entries) => put (put fs name (entries "state")) quarantine none
  | _ => put fs name none

/-- The cause that the caller gives to `rollback`. -/
def rollbackCause : StateError → IoError
  | .io error => error
  | .missing => .other "adapter state directory is required"
  | .unsafeDirectory => .other "adapter state directory must be a private real directory"
  | .invalidMarker => .other "adapter state marker is invalid or belongs to another instance"

/-- `reset_state_directory` after `ensure_state_directory`. -/
def rotate (f : Failure) (instanceId base : String) (pid : Nat) (sequence : Nat → Nat)
    (fs : Entries) : Except StateError Unit × Entries :=
  match createQuarantine f base pid sequence fs with
  | (.error e, fs) => (.error e, fs)
  | (.ok quarantine, fs) =>
    if f.at .renameAway then
      (.error (.io (.failed .renameAway)), put fs quarantine none)
    else
      let fs := renameAway base quarantine fs
      if f.at .createFresh then
        (.error (.io (.failed .createFresh)), rollback base quarantine fs)
      else
        let fs := put fs base (some (.dir 0o700 noEntries))
        match ensureMarkerIn f .mark instanceId base fs with
        | (.error e, fs) => (.error (.io (rollbackCause e)), rollback base quarantine fs)
        | (.ok (), fs) =>
          if f.at .statQuarantine then (.error (.io (.failed .statQuarantine)), fs)
          else match fs quarantine with
          | some (.dir _ _) =>
            if f.at .removeQuarantine then
              (.error (.io (.failed .removeQuarantine)), put fs quarantine f.rest)
            else (.ok (), put fs quarantine none)
          | _ => (.error .unsafeDirectory, fs)

def resetStateDirectory (f : Failure) (instanceId base : String) (pid : Nat) (sequence : Nat → Nat)
    (fs : Entries) : Except StateError Unit × Entries :=
  match ensureStateDirectory f instanceId base fs with
  | (.error e, fs) => (.error e, fs)
  | (.ok (), fs) => rotate f instanceId base pid sequence fs

/-! ## All or nothing -/

/-- A new private directory with the marker of the instance. -/
def freshDirectory (instanceId : String) : Node :=
  .dir 0o700 (put noEntries adapterStateMarker (some (.file 0o600 (utf8 (markerText instanceId)))))

/-- The same node, or two directories with the same entries. -/
def SameContent (node node' : Option Node) : Prop :=
  node = node' ∨
    ∃ mode mode' entries, node = some (.dir mode entries) ∧ node' = some (.dir mode' entries)

/-- After success the state directory is fresh and no other name has changed; after an error the
    state directory holds what it held. -/
def AllOrNothing (instanceId base : String) (before : Entries)
    (outcome : Except StateError Unit × Entries) : Prop :=
  match outcome.1 with
  | .ok () => outcome.2 = put before base (some (freshDirectory instanceId))
  | .error _ => SameContent (outcome.2 base) (before base)

/-- A name for the quarantine is free, and no call up to it fails. -/
def AllocatesFrom (f : Failure) (base : String) (pid : Nat) (sequence : Nat → Nat) (fs : Entries)
    (attempt remaining : Nat) : Prop :=
  ∃ i, attempt ≤ i ∧ i < attempt + remaining ∧
    fs (quarantineName base pid (sequence i)) = none ∧
    ∀ j, attempt ≤ j → j ≤ i → f.at (.createQuarantine j) = false

abbrev Allocates (f : Failure) (base : String) (pid : Nat) (sequence : Nat → Nat) (fs : Entries) :
    Prop :=
  AllocatesFrom f base pid sequence fs 0 128

/-- The file is the marker of the instance. -/
def isMarkerOf (instanceId : String) : Node → Bool
  | .file mode content =>
    isPrivate mode && content.length ≤ 256 && fromUtf8 content = some (markerText instanceId)
  | _ => false

/-- The call is made behind the first check of the directory, and its failure is an error. -/
def Call.ends : Call → Bool
  | .exists_ | .createParents | .createDirectory | .createQuarantine _ => false
  | .verify .read | .mark .read => false
  | _ => true

/-- The call is made before the marker of a directory is created. -/
def Call.beforeMarker : Call → Bool
  | .statDirectory | .canonicalize | .verify .stat | .verify .create => true
  | _ => false

/-- The last check of the quarantine or its removal fails. -/
abbrev Failure.AtQuarantine (f : Failure) : Prop :=
  f.call = some .statQuarantine ∨ f.call = some .removeQuarantine

/-- The condition for all or nothing, on what is there and on the call that fails. Where the
    directory or its marker is missing, no call may fail behind its creation. Where the marker is
    there, the quarantine must be removed or the directory have held nothing else. -/
def Safe (f : Failure) (instanceId base : String) (pid : Nat) (sequence : Nat → Nat)
    (fs : Entries) : Prop :=
  base.isEmpty = true ∨
  match fs base with
  | none =>
    f.call = some .createParents ∨ f.call = some .createDirectory ∨
      (Allocates f base pid sequence fs ∧ f.call.any Call.ends = false)
  | some (.dir mode entries) =>
    isPrivate mode = false ∨
    match entries adapterStateMarker with
    | none =>
      f.call.any Call.beforeMarker = true ∨
        (Allocates f base pid sequence fs ∧ f.call.any Call.ends = false)
    | some marker =>
      isMarkerOf instanceId marker = true → Allocates f base pid sequence fs → f.AtQuarantine →
        SameContent (some (freshDirectory instanceId)) (some (.dir mode entries))
  | some _ => True

variable {f : Failure} {instanceId base : String} {pid : Nat} {sequence : Nat → Nat} {fs : Entries}

/-! ## The quarantine -/

theorem quarantineName_ne (base : String) (pid sequence : Nat) :
    quarantineName base pid sequence ≠ base := by
  intro h
  have hl := congrArg String.length h
  simp only [quarantineName, String.length_append] at hl
  have hdot : ".".length = 1 := rfl
  omega

theorem createQuarantineFrom_spec (attempt remaining : Nat) :
    (¬ AllocatesFrom f base pid sequence fs attempt remaining ∧
      ∃ e, createQuarantineFrom f base pid sequence fs attempt remaining = (.error e, fs)) ∨
    (AllocatesFrom f base pid sequence fs attempt remaining ∧
      ∃ name, fs name = none ∧ name ≠ base ∧
        createQuarantineFrom f base pid sequence fs attempt remaining =
          (.ok name, put fs name (some (.dir 0o700 noEntries)))) := by
  induction remaining generalizing attempt with
  | zero =>
    refine .inl ⟨?_, _, rfl⟩
    rintro ⟨i, hi, hlt, -⟩
    omega
  | succ n ih =>
    unfold createQuarantineFrom
    by_cases hf : f.at (.createQuarantine attempt) = true
    · refine .inl ⟨?_, _, if_pos hf⟩
      rintro ⟨i, hi, -, -, hcalls⟩
      rw [hcalls attempt (Nat.le_refl _) hi] at hf
      cases hf
    · rw [Bool.not_eq_true] at hf
      cases hname : fs (quarantineName base pid (sequence attempt)) with
      | none =>
        refine .inr ⟨⟨attempt, Nat.le_refl _, by omega, hname, fun j h h' => ?_⟩, _, hname,
          quarantineName_ne _ _ _, ?_⟩
        · rw [Nat.le_antisymm h' h]
          exact hf
        · simp [hf, hname]
      | some node =>
        have hiff : AllocatesFrom f base pid sequence fs attempt (n + 1) ↔
            AllocatesFrom f base pid sequence fs (attempt + 1) n := by
          constructor
          · rintro ⟨i, hi, hlt, hfree, hcalls⟩
            have hne : i ≠ attempt := by
              rintro rfl
              rw [hname] at hfree
              cases hfree
            exact ⟨i, by omega, by omega, hfree, fun j h h' => hcalls j (by omega) h'⟩
          · rintro ⟨i, hi, hlt, hfree, hcalls⟩
            refine ⟨i, by omega, by omega, hfree, fun j h h' => ?_⟩
            by_cases he : j = attempt
            · rw [he]
              exact hf
            · exact hcalls j (by omega) h'
        rw [hiff]
        simpa [hf, hname] using ih (attempt + 1)

/-! ## The rotation -/

/-- The call is made between the two renames of a reset that is rolled back. -/
def Call.rolledBack : Call → Bool
  | .renameAway | .createFresh => true
  | .mark .stat | .mark .create | .mark .write | .mark .sync => true
  | _ => false

theorem at_eq_false {p : Call → Bool} (hf : f.call.any p = false) {c : Call} (hc : p c = true) :
    f.at c = false := by
  rw [Failure.at, decide_eq_false_iff_not]
  intro h
  rw [h, Option.any_some, hc] at hf
  cases hf

/-- In an empty directory the marker is created, unless a call on it fails. -/
theorem ensureMarkerIn_empty (hf : f.call.any Call.rolledBack = false) :
    ensureMarkerIn f .mark instanceId base (put fs base (some (.dir 0o700 noEntries))) =
      (.ok (), put fs base (some (freshDirectory instanceId))) := by
  have hat : ∀ c : Call, c.rolledBack = true → f.at c = false := fun c => at_eq_false hf
  simp [ensureMarkerIn, ensureMarker, noEntries, freshDirectory, hat (.mark .stat) rfl,
    hat (.mark .create) rfl, hat (.mark .write) rfl, hat (.mark .sync) rfl]

theorem ensureMarkerIn_fails (instanceId base : String) (fs : Entries) {call : MarkerCall}
    (hf : f.call = some (.mark call)) (hc : (Call.mark call).rolledBack = true) :
    ∃ e new, ensureMarkerIn f .mark instanceId base (put fs base (some (.dir 0o700 noEntries))) =
      (.error e, put fs base new) := by
  cases call with
  | stat => simp [ensureMarkerIn, ensureMarker, Failure.at, hf]
  | create => simp [ensureMarkerIn, ensureMarker, noEntries, Failure.at, hf]
  | write => simp [ensureMarkerIn, ensureMarker, noEntries, Failure.at, hf]
  | sync => simp [ensureMarkerIn, ensureMarker, noEntries, Failure.at, hf]
  | read => cases hc

/-- What is moved into a new quarantine comes back from it, whatever has taken its place. -/
theorem rollback_renameAway (new : Option Node) {name : String} (hname : fs name = none)
    (hne : name ≠ base) :
    rollback base name (put (renameAway base name
      (put fs name (some (.dir 0o700 noEntries)))) base new) = fs := by
  funext k
  simp only [rollback, renameAway]
  by_cases hb : k = base
  · subst hb
    simp [hne, hne.symm]
  · by_cases hk : k = name
    · subst hk
      simp [Function.update_apply, hne, hname]
    · simp [Function.update_apply, hne, hb, hk]

section Rotate

variable {name : String} (hname : fs name = none) (hne : name ≠ base)
  (hq : createQuarantine f base pid sequence fs = (.ok name, put fs name (some (.dir 0o700 noEntries))))

include hname hne hq

/-- A call that fails before the quarantine is looked at leaves everything as it was. -/
theorem rotate_rolledBack (hf : f.call.any Call.rolledBack = true) :
    ∃ e, rotate f instanceId base pid sequence fs = (.error e, fs) := by
  obtain ⟨c, hc, hrolled⟩ := (Option.any_eq_true _ _).mp hf
  have hat : ∀ d, f.at d = decide (c = d) := fun d => by simp [Failure.at, hc]
  have hunmake : put (put fs name (some (.dir 0o700 noEntries))) name none = fs := by
    simp [← hname]
  unfold rotate
  rw [hq]
  cases c with
  | renameAway =>
    refine ⟨.io (.failed .renameAway), ?_⟩
    simp only [hat, decide_true, if_true, hunmake]
  | createFresh =>
    refine ⟨.io (.failed .createFresh), ?_⟩
    have hgone : put (renameAway base name (put fs name (some (.dir 0o700 noEntries)))) base none =
        renameAway base name (put fs name (some (.dir 0o700 noEntries))) := by
      simp [renameAway]
    have hback := rollback_renameAway none hname hne
    rw [hgone] at hback
    simp only [hat, reduceCtorEq, decide_false, decide_true, Bool.false_eq_true, if_false, if_true,
      hback]
  | mark call =>
    obtain ⟨e, new, hfails⟩ := ensureMarkerIn_fails instanceId base
      (renameAway base name (put fs name (some (.dir 0o700 noEntries)))) hc hrolled
    refine ⟨.io (rollbackCause e), ?_⟩
    simp only [hat, reduceCtorEq, decide_false, Bool.false_eq_true, if_false, hfails]
    rw [rollback_renameAway new hname hne]
  | _ => cases hrolled

/-- Once the fresh directory is marked, only the quarantine is still to be removed. -/
theorem rotate_marked (instanceId : String) (hf : f.call.any Call.rolledBack = false) :
    ∃ fs', fs' base = some (freshDirectory instanceId) ∧
      rotate f instanceId base pid sequence fs =
        if f.at .statQuarantine then (.error (.io (.failed .statQuarantine)), fs')
        else if f.at .removeQuarantine then
          (.error (.io (.failed .removeQuarantine)), put fs' name f.rest)
        else (.ok (), put fs base (some (freshDirectory instanceId))) := by
  have hat : ∀ c : Call, c.rolledBack = true → f.at c = false := fun c => at_eq_false hf
  obtain ⟨fs', hfs'⟩ : ∃ fs', put (renameAway base name (put fs name (some (.dir 0o700 noEntries))))
      base (some (freshDirectory instanceId)) = fs' := ⟨_, rfl⟩
  have hdir : fs' name = some (.dir 0o700 (put noEntries "state" (fs base))) := by
    simp [← hfs', renameAway, hne, hne.symm]
  have hremoved : put fs' name none = put fs base (some (freshDirectory instanceId)) := by
    funext k
    by_cases hk : k = name
    · subst hk
      simp [hne, hname]
    · by_cases hb : k = base
      · subst hb
        simp [← hfs', hne.symm]
      · simp [← hfs', renameAway, Function.update_apply, hb, hk]
  refine ⟨fs', by simp [← hfs'], ?_⟩
  unfold rotate
  rw [hq]
  simp only [hat .renameAway rfl, hat .createFresh rfl, Bool.false_eq_true, if_false,
    ensureMarkerIn_empty hf, hfs', hdir, hremoved]

end Rotate

/-- The outcome of the rotation, for each call that may fail in it. -/
theorem rotate_spec (instanceId : String) :
    (¬ Allocates f base pid sequence fs ∨ f.call.any Call.rolledBack = true) ∧
      (∃ e, rotate f instanceId base pid sequence fs = (.error e, fs)) ∨
    Allocates f base pid sequence fs ∧ f.AtQuarantine ∧
      (∃ e fs', fs' base = some (freshDirectory instanceId) ∧
        rotate f instanceId base pid sequence fs = (.error e, fs')) ∨
    Allocates f base pid sequence fs ∧ ¬ f.AtQuarantine ∧ f.call.any Call.rolledBack = false ∧
      rotate f instanceId base pid sequence fs =
        (.ok (), put fs base (some (freshDirectory instanceId))) := by
  obtain ⟨hnot, e, herr⟩ | ⟨hall, name, hname, hne, hq⟩ :=
    @createQuarantineFrom_spec f base pid sequence fs 0 128
  · refine .inl ⟨.inl hnot, e, ?_⟩
    unfold rotate createQuarantine
    rw [herr]
  · cases hf : f.call.any Call.rolledBack with
    | true => exact .inl ⟨.inr rfl, rotate_rolledBack hname hne hq hf⟩
    | false =>
      obtain ⟨fs', hfresh, heq⟩ := rotate_marked hname hne hq instanceId hf
      rw [heq]
      by_cases hs : f.call = some .statQuarantine
      · refine .inr (.inl ⟨hall, .inl hs, .io (.failed .statQuarantine), fs', hfresh, ?_⟩)
        simp [Failure.at, hs]
      · by_cases hr : f.call = some .removeQuarantine
        · refine .inr (.inl ⟨hall, .inr hr, .io (.failed .removeQuarantine), put fs' name f.rest, ?_,
            ?_⟩)
          · simp [hne.symm, hfresh]
          · simp [Failure.at, hr]
        · refine .inr (.inr ⟨hall, not_or.mpr ⟨hs, hr⟩, rfl, ?_⟩)
          simp [Failure.at, hs, hr]

/-! ## The check of the directory -/

section Ensure

variable (hb : base.isEmpty = false)

include hb

/-- Something that is no private directory is refused as it is. -/
theorem ensure_refused {node : Node} (hnode : fs base = some node)
    (hdir : isPrivateDirectory (some node) = false) :
    ∃ e, ensureStateDirectory f instanceId base fs = (.error e, fs) := by
  unfold ensureStateDirectory
  simp only [hb, hnode, hdir, Option.isNone_some, Bool.and_false, Bool.false_eq_true, if_false,
    Bool.not_false, if_true]
  split
  · exact ⟨_, rfl⟩
  · split
    · exact ⟨_, rfl⟩
    · split
      · exact ⟨_, rfl⟩
      · exact ⟨_, rfl⟩

/-- A private directory is checked by its marker. -/
theorem ensure_dir {mode : Nat} {entries : Entries} (hdir : fs base = some (.dir mode entries))
    (hmode : isPrivate mode = true) :
    ensureStateDirectory f instanceId base fs =
      if f.at .statDirectory then (.error (.io (.failed .statDirectory)), fs)
      else if f.at .canonicalize then (.error (.io (.failed .canonicalize)), fs)
      else ((ensureMarker f .verify instanceId entries).1,
        put fs base (some (.dir mode (ensureMarker f .verify instanceId entries).2))) := by
  have hparents : (!(!f.at .exists_ && true) && f.at .createParents) = false := by
    by_cases h : f.call = some .exists_ <;> simp [Failure.at, h]
  have hcreate : (!(!f.at .exists_ && true) && f.at .createDirectory) = false := by
    by_cases h : f.call = some .exists_ <;> simp [Failure.at, h]
  have hprivate : isPrivateDirectory (some (.dir mode entries)) = true := hmode
  unfold ensureStateDirectory ensureMarkerIn
  simp only [hb, hdir, pathExists, hparents, hcreate, hprivate, Option.isNone_some, Bool.and_false,
    Bool.false_eq_true, if_false, Bool.not_true]

/-- A missing directory is made first. -/
theorem ensure_absent (habsent : fs base = none) :
    ensureStateDirectory f instanceId base fs =
      if f.at .createParents then (.error (.io (.failed .createParents)), fs)
      else if f.at .createDirectory then (.error (.io (.failed .createDirectory)), fs)
      else ensureStateDirectory f instanceId base (put fs base (some (.dir 0o700 noEntries))) := by
  have hmade : (put fs base (some (.dir 0o700 noEntries))) base = some (.dir 0o700 noEntries) := by
    simp
  rw [ensure_dir hb hmade rfl]
  unfold ensureStateDirectory ensureMarkerIn
  simp [hb, habsent, pathExists, isPrivateDirectory, isPrivate]

end Ensure

/-- A marker that is there is accepted as it is, or refused. -/
theorem ensureMarker_present {entries : Entries} {marker : Node}
    (hm : entries adapterStateMarker = some marker) :
    ensureMarker f .verify instanceId entries = (.ok (), entries) ∧
        isMarkerOf instanceId marker = true ∨
      (isMarkerOf instanceId marker = true →
        f.call = some (.verify .stat) ∨ f.call = some (.verify .read)) ∧
        ∃ e, ensureMarker f .verify instanceId entries = (.error e, entries) := by
  unfold ensureMarker
  simp only [hm]
  by_cases hstat : f.call = some (.verify .stat)
  · exact .inr ⟨fun _ => .inl hstat, .io (.failed (.verify .stat)), by simp [Failure.at, hstat]⟩
  · simp only [Failure.at, hstat, decide_false, Bool.false_eq_true, if_false]
    cases marker with
    | file mode content =>
      simp only [isMarkerOf]
      by_cases hmode : (!isPrivate mode || decide (256 < content.length)) = true
      · refine .inr ⟨fun h => ?_, .invalidMarker, by simp only [hmode, if_true]⟩
        simp only [Bool.or_eq_true, Bool.not_eq_true', decide_eq_true_eq, Bool.and_eq_true] at hmode h
        obtain ⟨⟨hp, hl⟩, -⟩ := h
        rw [hp] at hmode
        obtain h | h := hmode
        · cases h
        · omega
      · simp only [hmode, Bool.false_eq_true, if_false]
        by_cases hread : f.call = some (.verify .read)
        · exact .inr ⟨fun _ => .inr hread, .io (.failed (.verify .read)), by simp [hread]⟩
        · simp only [hread, decide_false, Bool.false_eq_true, if_false]
          cases hutf : fromUtf8 content with
          | none => exact .inr ⟨fun h => by simp at h, .io .invalidData, rfl⟩
          | some text =>
            by_cases htext : text = markerText instanceId
            · refine .inl ⟨by simp [htext], ?_⟩
              simp only [Bool.or_eq_true, Bool.not_eq_true', decide_eq_true_eq, not_or,
                Bool.not_eq_false, Nat.not_lt] at hmode
              simp [hmode.1, hmode.2, htext]
            · exact .inr ⟨fun h => by simp [htext] at h, .invalidMarker, by simp [htext]⟩
    | link resolves => exact .inr ⟨nofun, .invalidMarker, rfl⟩
    | special mode => exact .inr ⟨nofun, .invalidMarker, rfl⟩
    | dir mode files => exact .inr ⟨nofun, .invalidMarker, rfl⟩

/-- The marker is created, with the part of its text that was written. -/
theorem ensureMarker_missing (instanceId : String) {entries : Entries}
    (hm : entries adapterStateMarker = none)
    (hf : f.call.any Call.beforeMarker = false) :
    ∃ content, (ensureMarker f .verify instanceId entries).2 =
        put entries adapterStateMarker (some (.file 0o600 content)) ∧
      ((ensureMarker f .verify instanceId entries).1 = .ok () ∧
          f.call ≠ some (.verify .write) ∧ f.call ≠ some (.verify .sync) ∨
        (f.call = some (.verify .write) ∨ f.call = some (.verify .sync)) ∧
          ∃ e, (ensureMarker f .verify instanceId entries).1 = .error e) := by
  have hstat : f.at (.verify .stat) = false := at_eq_false hf rfl
  have hcreate : f.at (.verify .create) = false := at_eq_false hf rfl
  unfold ensureMarker
  simp only [hm, hstat, hcreate, Bool.false_eq_true, if_false]
  by_cases hw : f.call = some (.verify .write)
  · exact ⟨(utf8 (markerText instanceId)).take f.written, by simp [Failure.at, hw]⟩
  · refine ⟨utf8 (markerText instanceId), ?_⟩
    by_cases hs : f.call = some (.verify .sync)
    · simp [Failure.at, hs]
    · simp [Failure.at, hw, hs]

/-! ## The reset, by what is there -/

/-- The directory holds an entry with the name of the marker. -/
def hasMarker : Option Node → Bool
  | some (.dir _ entries) => (entries adapterStateMarker).isSome
  | _ => false

theorem SameContent.hasMarker_eq {a b : Option Node} (h : SameContent a b) :
    hasMarker a = hasMarker b := by
  obtain rfl | ⟨mode, mode', entries, rfl, rfl⟩ := h
  · rfl
  · rfl

theorem SameContent.entries_eq {mode mode' : Nat} {entries entries' : Entries}
    (h : SameContent (some (.dir mode entries)) (some (.dir mode' entries'))) :
    entries = entries' := by
  obtain h | ⟨_, _, files, h, h'⟩ := h
  · cases h
    rfl
  · cases h
    cases h'
    rfl

/-- The quarantine does not depend on the state directory itself. -/
theorem allocates_put (node : Option Node) :
    Allocates f base pid sequence (put fs base node) ↔ Allocates f base pid sequence fs := by
  simp only [Allocates, AllocatesFrom, Function.update_of_ne (quarantineName_ne base pid _)]

theorem ends_of_rolledBack (hf : f.call.any Call.rolledBack = true) :
    f.call.any Call.ends = true := by
  obtain ⟨c, hc, hrolled⟩ := (Option.any_eq_true _ _).mp hf
  refine (Option.any_eq_true _ _).mpr ⟨c, hc, ?_⟩
  cases c with
  | mark call => cases call <;> first | rfl | cases hrolled
  | renameAway => rfl
  | createFresh => rfl
  | _ => cases hrolled

theorem ends_of_beforeMarker (hf : f.call.any Call.beforeMarker = true) :
    f.call.any Call.ends = true := by
  obtain ⟨c, hc, hbefore⟩ := (Option.any_eq_true _ _).mp hf
  refine (Option.any_eq_true _ _).mpr ⟨c, hc, ?_⟩
  cases c with
  | verify call => cases call <;> first | rfl | cases hbefore
  | statDirectory => rfl
  | canonicalize => rfl
  | _ => cases hbefore

theorem ends_of_atQuarantine (hf : f.AtQuarantine) : f.call.any Call.ends = true := by
  obtain h | h := hf
  · rw [h]; rfl
  · rw [h]; rfl

/-- The calls that end a reset, by the part of it that makes them. -/
theorem ends_eq_false (hbefore : f.call.any Call.beforeMarker = false)
    (hnw : f.call ≠ some (.verify .write)) (hns : f.call ≠ some (.verify .sync))
    (hnb : f.call.any Call.rolledBack = false) (hnq : ¬ f.AtQuarantine) :
    f.call.any Call.ends = false := by
  cases hc : f.call with
  | none => rfl
  | some c =>
    simp only [Failure.AtQuarantine, hc, Option.any_some, ne_eq, Option.some.injEq] at *
    revert hbefore hnw hns hnb hnq
    cases c with
    | verify call => cases call <;> simp [Call.ends, Call.beforeMarker]
    | mark call => cases call <;> simp [Call.ends, Call.rolledBack]
    | _ => simp [Call.ends, Call.beforeMarker, Call.rolledBack]

theorem reset_of_ensure_error {e : StateError} {fs' : Entries}
    (h : ensureStateDirectory f instanceId base fs = (.error e, fs')) :
    resetStateDirectory f instanceId base pid sequence fs = (.error e, fs') := by
  unfold resetStateDirectory
  rw [h]

theorem reset_of_ensure_ok {fs' : Entries}
    (h : ensureStateDirectory f instanceId base fs = (.ok (), fs')) :
    resetStateDirectory f instanceId base pid sequence fs =
      rotate f instanceId base pid sequence fs' := by
  unfold resetStateDirectory
  rw [h]

/-- A private directory without a marker: the marker is created on the way, and stays there whatever
    fails behind that. -/
theorem reset_unmarked (hb : base.isEmpty = false) {mode : Nat} {entries : Entries}
    (hdir : fs base = some (.dir mode entries)) (hmode : isPrivate mode = true)
    (hm : entries adapterStateMarker = none) :
    (f.call.any Call.beforeMarker = true ∧
      ∃ e, resetStateDirectory f instanceId base pid sequence fs = (.error e, fs)) ∨
    (Allocates f base pid sequence fs ∧ f.call.any Call.ends = false ∧
      resetStateDirectory f instanceId base pid sequence fs =
        (.ok (), put fs base (some (freshDirectory instanceId)))) ∨
    (f.call.any Call.beforeMarker = false ∧
      ¬ (Allocates f base pid sequence fs ∧ f.call.any Call.ends = false) ∧
      ∃ e fs', hasMarker (fs' base) = true ∧
        resetStateDirectory f instanceId base pid sequence fs = (.error e, fs')) := by
  have hsame : put fs base (some (.dir mode entries)) = fs := by rw [← hdir]; simp
  cases hf : f.call.any Call.beforeMarker with
  | true =>
    refine .inl ⟨rfl, ?_⟩
    obtain ⟨c, hc, hbefore⟩ := (Option.any_eq_true _ _).mp hf
    have hfails : ∃ e, ensureStateDirectory f instanceId base fs = (.error e, fs) := by
      rw [ensure_dir hb hdir hmode]
      cases c with
      | statDirectory => exact ⟨.io (.failed .statDirectory), by simp [Failure.at, hc]⟩
      | canonicalize => exact ⟨.io (.failed .canonicalize), by simp [Failure.at, hc]⟩
      | verify call =>
        refine ⟨.io (.failed (.verify call)), ?_⟩
        cases call with
        | stat => simp [ensureMarker, Failure.at, hc, hsame]
        | create => simp [ensureMarker, Failure.at, hc, hm, hsame]
        | _ => cases hbefore
      | _ => cases hbefore
    obtain ⟨e, he⟩ := hfails
    exact ⟨e, reset_of_ensure_error he⟩
  | false =>
    right
    obtain ⟨content, hmade, hresult⟩ := ensureMarker_missing instanceId hm hf
    obtain ⟨fs₁, hfs₁⟩ : ∃ fs₁, put fs base (some (.dir mode
      (put entries adapterStateMarker (some (.file 0o600 content))))) = fs₁ := ⟨_, rfl⟩
    have hensure : ensureStateDirectory f instanceId base fs =
        ((ensureMarker f .verify instanceId entries).1, fs₁) := by
      rw [ensure_dir hb hdir hmode, hmade, hfs₁, at_eq_false hf rfl, at_eq_false hf rfl]
      rfl
    have hmarker : hasMarker (fs₁ base) = true := by simp [← hfs₁, hasMarker]
    obtain ⟨hok, hnw, hns⟩ | ⟨hlate, e, herr⟩ := hresult
    · rw [hok] at hensure
      rw [reset_of_ensure_ok hensure]
      have hall : Allocates f base pid sequence fs₁ ↔ Allocates f base pid sequence fs := by
        rw [← hfs₁]
        exact allocates_put _
      obtain ⟨hcause, e, he⟩ | ⟨-, hlate, e, fs', hfresh, he⟩ | ⟨hq, hnq, hnb, he⟩ :=
        @rotate_spec f base pid sequence fs₁ instanceId
      · refine .inr ⟨rfl, ?_, e, fs₁, hmarker, he⟩
        rintro ⟨h, hends⟩
        obtain hnot | hrolled := hcause
        · exact hnot (hall.mpr h)
        · rw [ends_of_rolledBack hrolled] at hends
          cases hends
      · refine .inr ⟨rfl, ?_, e, fs', by simp [hfresh, hasMarker, freshDirectory], he⟩
        rintro ⟨-, hends⟩
        rw [ends_of_atQuarantine hlate] at hends
        cases hends
      · refine .inl ⟨hall.mp hq, ?_, ?_⟩
        · exact ends_eq_false hf hnw hns hnb hnq
        · rw [he, ← hfs₁]
          simp
    · rw [herr] at hensure
      refine .inr ⟨rfl, ?_, e, fs₁, hmarker, reset_of_ensure_error hensure⟩
      rintro ⟨-, hends⟩
      obtain h | h := hlate
      · rw [h] at hends
        cases hends
      · rw [h] at hends
        cases hends

/-- A private directory with a marker is left as it is by the check. -/
theorem ensure_marked (hb : base.isEmpty = false) {mode : Nat} {entries : Entries} {marker : Node}
    (hdir : fs base = some (.dir mode entries)) (hmode : isPrivate mode = true)
    (hm : entries adapterStateMarker = some marker) :
    (isMarkerOf instanceId marker = true ∧
      ensureStateDirectory f instanceId base fs = (.ok (), fs)) ∨
    (¬ (isMarkerOf instanceId marker = true ∧ f.AtQuarantine) ∧
      ∃ e, ensureStateDirectory f instanceId base fs = (.error e, fs)) := by
  have hsame : put fs base (some (.dir mode entries)) = fs := by rw [← hdir]; simp
  rw [ensure_dir hb hdir hmode]
  by_cases hs : f.call = some .statDirectory
  · refine .inr ⟨?_, .io (.failed .statDirectory), by simp [Failure.at, hs]⟩
    simp [hs]
  · by_cases hc : f.call = some .canonicalize
    · refine .inr ⟨?_, .io (.failed .canonicalize), by simp [Failure.at, hc]⟩
      simp [hc]
    · simp only [Failure.at, hs, hc, decide_false, Bool.false_eq_true, if_false]
      obtain ⟨hok, hmarker⟩ | ⟨hcall, e, he⟩ :=
        @ensureMarker_present f instanceId entries marker hm
      · rw [hok]
        exact .inl ⟨hmarker, by rw [hsame]⟩
      · rw [he]
        refine .inr ⟨?_, e, by rw [hsame]⟩
        rintro ⟨hmarker, hq⟩
        obtain h | h := hcall hmarker
        · simp [Failure.AtQuarantine, h] at hq
        · simp [Failure.AtQuarantine, h] at hq

/-- Only a failure at the quarantine leaves a marked directory replaced. -/
theorem reset_marked (hb : base.isEmpty = false) {mode : Nat} {entries : Entries} {marker : Node}
    (hdir : fs base = some (.dir mode entries)) (hmode : isPrivate mode = true)
    (hm : entries adapterStateMarker = some marker) :
    (¬ (isMarkerOf instanceId marker = true ∧ Allocates f base pid sequence fs ∧ f.AtQuarantine) ∧
      ((∃ e, resetStateDirectory f instanceId base pid sequence fs = (.error e, fs)) ∨
        resetStateDirectory f instanceId base pid sequence fs =
          (.ok (), put fs base (some (freshDirectory instanceId))))) ∨
    (isMarkerOf instanceId marker = true ∧ Allocates f base pid sequence fs ∧ f.AtQuarantine ∧
      ∃ e fs', fs' base = some (freshDirectory instanceId) ∧
        resetStateDirectory f instanceId base pid sequence fs = (.error e, fs')) := by
  obtain ⟨hmarker, hok⟩ | ⟨hnot, e, he⟩ :=
    @ensure_marked f instanceId base fs hb mode entries marker hdir hmode hm
  · rw [reset_of_ensure_ok hok]
    obtain ⟨hcause, e, he⟩ | ⟨hall, hq, herr⟩ | ⟨-, hnq, -, he⟩ :=
      @rotate_spec f base pid sequence fs instanceId
    · refine .inl ⟨?_, .inl ⟨e, he⟩⟩
      rintro ⟨-, hall, hq⟩
      obtain hnot | hrolled := hcause
      · exact hnot hall
      · obtain h | h := hq
        · rw [h] at hrolled
          cases hrolled
        · rw [h] at hrolled
          cases hrolled
    · exact .inr ⟨hmarker, hall, hq, herr⟩
    · exact .inl ⟨fun h => hnq h.2.2, .inr he⟩
  · refine .inl ⟨fun h => hnot ⟨h.1, h.2.2⟩, .inl ⟨e, reset_of_ensure_error he⟩⟩

/-! ## The condition is exact -/

theorem allOrNothing_unchanged {e : StateError} : AllOrNothing instanceId base fs (.error e, fs) :=
  .inl rfl

theorem allOrNothing_fresh :
    AllOrNothing instanceId base fs (.ok (), put fs base (some (freshDirectory instanceId))) := rfl

theorem allOrNothing_absent (hb : base.isEmpty = false) (habsent : fs base = none) :
    AllOrNothing instanceId base fs (resetStateDirectory f instanceId base pid sequence fs) ↔
      f.call = some .createParents ∨ f.call = some .createDirectory ∨
        (Allocates f base pid sequence fs ∧ f.call.any Call.ends = false) := by
  have hensure := @ensure_absent f instanceId base fs hb habsent
  by_cases hp : f.call = some .createParents
  · simp only [Failure.at, hp, decide_true, if_true] at hensure
    rw [reset_of_ensure_error hensure]
    exact iff_of_true allOrNothing_unchanged (.inl hp)
  · by_cases hd : f.call = some .createDirectory
    · simp only [Failure.at, hd, reduceCtorEq, Option.some.injEq, decide_false, Bool.false_eq_true,
        if_false, decide_true, if_true] at hensure
      rw [reset_of_ensure_error hensure]
      exact iff_of_true allOrNothing_unchanged (.inr (.inl hd))
    · simp only [Failure.at, hp, hd, decide_false, Bool.false_eq_true, if_false] at hensure
      obtain ⟨fs₁, hfs₁⟩ : ∃ fs₁, put fs base (some (.dir 0o700 noEntries)) = fs₁ := ⟨_, rfl⟩
      rw [hfs₁] at hensure
      have hreset : resetStateDirectory f instanceId base pid sequence fs =
          resetStateDirectory f instanceId base pid sequence fs₁ := by
        unfold resetStateDirectory
        rw [hensure]
      have hmade : fs₁ base = some (.dir 0o700 noEntries) := by simp [← hfs₁]
      have hall : Allocates f base pid sequence fs₁ ↔ Allocates f base pid sequence fs := by
        rw [← hfs₁]
        exact allocates_put _
      simp only [hp, hd, false_or]
      rw [hreset]
      obtain ⟨hbefore, e, he⟩ | ⟨hq, hends, hok⟩ | ⟨hbefore, hnot, e, fs', hmarker, he⟩ :=
        @reset_unmarked f instanceId base pid sequence fs₁ hb 0o700 noEntries hmade rfl rfl
      · rw [he]
        refine iff_of_false (fun h => ?_) fun h => ?_
        · have hsame : SameContent (fs₁ base) (fs base) := h
          simp [SameContent, hmade, habsent] at hsame
        · rw [ends_of_beforeMarker hbefore] at h
          cases h.2
      · have hput : put fs₁ base (some (freshDirectory instanceId)) =
            put fs base (some (freshDirectory instanceId)) := by simp [← hfs₁]
        rw [hok, hput]
        exact iff_of_true allOrNothing_fresh ⟨hall.mp hq, hends⟩
      · rw [he]
        refine iff_of_false (fun h => ?_) fun h => hnot ⟨hall.mpr h.1, h.2⟩
        have hsame : hasMarker (fs' base) = hasMarker (fs base) := SameContent.hasMarker_eq h
        rw [hmarker, habsent] at hsame
        cases hsame

theorem allOrNothing_unmarked (hb : base.isEmpty = false) {mode : Nat} {entries : Entries}
    (hdir : fs base = some (.dir mode entries)) (hmode : isPrivate mode = true)
    (hm : entries adapterStateMarker = none) :
    AllOrNothing instanceId base fs (resetStateDirectory f instanceId base pid sequence fs) ↔
      f.call.any Call.beforeMarker = true ∨
        (Allocates f base pid sequence fs ∧ f.call.any Call.ends = false) := by
  obtain ⟨hbefore, e, he⟩ | ⟨hall, hends, hok⟩ | ⟨hbefore, hnot, e, fs', hmarker, he⟩ :=
    @reset_unmarked f instanceId base pid sequence fs hb mode entries hdir hmode hm
  · rw [he]
    exact iff_of_true allOrNothing_unchanged (.inl hbefore)
  · rw [hok]
    exact iff_of_true allOrNothing_fresh (.inr ⟨hall, hends⟩)
  · rw [he]
    refine iff_of_false (fun h => ?_) (not_or.mpr ⟨by simp [hbefore], hnot⟩)
    have hsame : hasMarker (fs' base) = hasMarker (fs base) := SameContent.hasMarker_eq h
    rw [hmarker, hdir] at hsame
    simp [hasMarker, hm] at hsame

theorem allOrNothing_marked (hb : base.isEmpty = false) {mode : Nat} {entries : Entries}
    {marker : Node} (hdir : fs base = some (.dir mode entries)) (hmode : isPrivate mode = true)
    (hm : entries adapterStateMarker = some marker) :
    AllOrNothing instanceId base fs (resetStateDirectory f instanceId base pid sequence fs) ↔
      (isMarkerOf instanceId marker = true → Allocates f base pid sequence fs → f.AtQuarantine →
        SameContent (some (freshDirectory instanceId)) (some (.dir mode entries))) := by
  obtain ⟨hnot, hdone⟩ | ⟨hmarker, hall, hq, e, fs', hfresh, he⟩ :=
    @reset_marked f instanceId base pid sequence fs hb mode entries marker hdir hmode hm
  · refine iff_of_true ?_ fun hmarker hall hq => absurd ⟨hmarker, hall, hq⟩ hnot
    obtain ⟨e, he⟩ | hok := hdone
    · rw [he]
      exact allOrNothing_unchanged
    · rw [hok]
      exact allOrNothing_fresh
  · rw [he]
    show SameContent (fs' base) (fs base) ↔ _
    rw [hfresh, hdir]
    exact ⟨fun h _ _ _ => h, fun h => h hmarker hall hq⟩

/-- The reset is all or nothing exactly under the condition `Safe`. -/
theorem reset_allOrNothing (f : Failure) (instanceId base : String) (pid : Nat)
    (sequence : Nat → Nat) (fs : Entries) :
    AllOrNothing instanceId base fs (resetStateDirectory f instanceId base pid sequence fs) ↔
      Safe f instanceId base pid sequence fs := by
  unfold Safe
  cases hb : base.isEmpty with
  | true =>
    have hensure : ensureStateDirectory f instanceId base fs = (.error .missing, fs) := by
      unfold ensureStateDirectory
      rw [hb]
      rfl
    rw [reset_of_ensure_error hensure]
    exact iff_of_true allOrNothing_unchanged (.inl rfl)
  | false =>
    simp only [Bool.false_eq_true, false_or]
    have hrefused : ∀ {node : Node}, fs base = some node → isPrivateDirectory (some node) = false →
        AllOrNothing instanceId base fs (resetStateDirectory f instanceId base pid sequence fs) := by
      intro node hnode hunsafe
      obtain ⟨e, he⟩ := @ensure_refused f instanceId base fs hb node hnode hunsafe
      rw [reset_of_ensure_error he]
      exact allOrNothing_unchanged
    cases hnode : fs base with
    | none => exact allOrNothing_absent hb hnode
    | some node =>
      cases node with
      | dir mode entries =>
        dsimp only
        cases hmode : isPrivate mode with
        | false => exact iff_of_true (hrefused hnode hmode) (.inl rfl)
        | true =>
          simp only [Bool.true_eq_false, false_or]
          cases hm : entries adapterStateMarker with
          | none => exact allOrNothing_unmarked hb hnode hmode hm
          | some marker => exact allOrNothing_marked hb hnode hmode hm
      | file mode content => exact iff_of_true (hrefused hnode rfl) trivial
      | link resolves => exact iff_of_true (hrefused hnode rfl) trivial
      | special mode => exact iff_of_true (hrefused hnode rfl) trivial

/-- The marked state of the Matter adapter, with one more file in it. -/
def matterState : Entries :=
  put noEntries "matter" (some (.dir 0o700 (put
    (put noEntries "fabrics" (some (.file 0o600 [1])))
    adapterStateMarker (some (.file 0o600 (utf8 "matter\n"))))))

/-- The removal of the quarantine fails: the reset returns the error with the state replaced. -/
theorem not_allOrNothing_at_removal :
    ¬ ∀ (f : Failure) (instanceId base : String) (pid : Nat) (sequence : Nat → Nat) (fs : Entries),
      AllOrNothing instanceId base fs (resetStateDirectory f instanceId base pid sequence fs) := by
  intro h
  have hall := h ⟨some .removeQuarantine, 0, none⟩ "matter" "matter" 1 (fun i => i) matterState
  have hb : "matter".isEmpty = false := by decide
  have hm : isMarkerOf "matter" (.file 0o600 (utf8 "matter\n")) = true := by decide +kernel
  have hq : Allocates ⟨some .removeQuarantine, 0, none⟩ "matter" 1 (fun i => i) matterState := by
    refine ⟨0, by omega, by omega, by decide +kernel, fun j _ _ => rfl⟩
  have hsame := (allOrNothing_marked hb rfl rfl rfl).mp hall hm hq (.inr rfl)
  have hfabrics := congrFun hsame.entries_eq "fabrics"
  have hnone : put noEntries adapterStateMarker (some (.file 0o600 (utf8 (markerText "matter"))))
      "fabrics" = none := rfl
  rw [hnone] at hfabrics
  cases hfabrics

end Oikade.Adapter.State
