/-
  `Storage::open` on a state directory (`oikade-storage/src/store.rs`), for attempts that are
  interrupted or fail at any of their steps.

  An attempt runs through `Step`s. It may stop at one of them: the call there fails, or the process
  is killed before it. A write that is stopped leaves a part of its bytes. Creating the database and
  the schema transaction are atomic (redb), and so is a rename. The directory holds no symbolic
  links, and nothing else writes to it. Permissions are left out, apart from the steps that set
  them: no later step depends on them.

  The database is created before the marker. An attempt that stops in between leaves a database
  without a marker, which every later attempt refuses: `open_after_attempts` says exactly after
  which attempts the next one succeeds.
-/
import Oikade.Storage.Bucket

namespace Oikade.Storage

/-! ## The state directory -/

structure StateMarker where
  engine : String
  format : Nat
  deriving DecidableEq, Repr

def engine : String := "redb"
def stateFormat : Nat := 1
def schemaVersion : Nat := 1

/-- The marker that `open` writes. -/
def currentMarker : StateMarker := ⟨engine, stateFormat⟩

/-- The marker as JSON text (serde_json): what `open` writes, with the newline, is read back. -/
structure MarkerText where
  toVec : StateMarker → Bytes
  read : Bytes → Except String StateMarker
  read_toVec : read (toVec currentMarker ++ [10]) = .ok currentMarker

/-- The database file: the schema version in its `meta` table, and the tables of the namespaces. -/
structure DatabaseFile where
  schema : Option Nat
  tables : Option Database

/-- `temporaries` are the files `runtime-state.tmp-<pid>`. -/
structure StateDirectory where
  present : Bool
  marker : Option Bytes
  database : Option DatabaseFile
  temporaries : Nat → Option Bytes

def StateDirectory.empty (present : Bool) : StateDirectory := ⟨present, none, none, fun _ => none⟩

/-! ## Attempts -/

/-- The calls of an attempt that may fail, in their order. -/
inductive Step where
  | currentDir
  | checkDirectory
  | createDirectory
  | statDirectory
  | secureDirectory
  | checkMarker
  | checkDatabase
  | markerExists
  | databaseExists
  | readMarker
  | createDatabase
  | secureDatabase
  | initializeSchema
  | encodeMarker
  | checkTemporary
  | createTemporary
  | secureTemporary
  | writeMarker
  | writeNewline
  | syncTemporary
  | rename
  | syncDirectory
  deriving DecidableEq, Repr

/-- An attempt of process `pid`. It stops at `stop`, if that is reached; a write that is stopped
    there has written `written` bytes. -/
structure Attempt where
  pid : Nat
  stop : Option Step
  written : Nat
  deriving DecidableEq, Repr

inductive OpenError where
  /-- a call has failed, or the process was killed -/
  | stopped (step : Step)
  /-- ".. exists but .. does not" -/
  | markerWithoutDatabase
  /-- ".. exists without .." -/
  | databaseWithoutMarker
  /-- "state marker: .." -/
  | marker (message : String)
  /-- "unsupported runtime state engine .." -/
  | unsupportedEngine (engine : String)
  /-- "unsupported runtime state format ..; this build supports .." -/
  | unsupportedFormat (found : Nat)
  /-- "runtime database schema .. is newer than supported schema .." -/
  | schemaTooNew (found : Nat)
  /-- the temporary file exists already -/
  | temporaryExists
  deriving DecidableEq, Repr

/-- The first of some steps at which the attempt stops. -/
def Attempt.stopsIn (a : Attempt) (steps : List Step) : Option Step :=
  match a.stop with
  | none => none
  | some s => if s ∈ steps then some s else none

def validateMarker (m : StateMarker) : Except OpenError Unit :=
  if m.engine ≠ engine then .error (.unsupportedEngine m.engine)
  else if m.format ≠ stateFormat then .error (.unsupportedFormat m.format)
  else .ok ()

/-- `initialize_schema`, one transaction. -/
def initializeSchema (db : DatabaseFile) : Except OpenError DatabaseFile :=
  let current := db.schema.getD 0
  if schemaVersion < current then .error (.schemaTooNew current)
  else if current < 1 then
    .ok ⟨some schemaVersion, some (db.tables.getD Database.init)⟩
  else .ok db

def StateDirectory.setTemporary (d : StateDirectory) (pid : Nat) (content : Option Bytes) :
    StateDirectory :=
  { d with temporaries := Function.update d.temporaries pid content }

/-- `write_marker` -/
def writeMarker (T : MarkerText) (a : Attempt) (d : StateDirectory) :
    Except OpenError Unit × StateDirectory :=
  let encoded := T.toVec currentMarker
  match a.stopsIn [.encodeMarker, .checkTemporary, .createTemporary] with
  | some s => (.error (.stopped s), d)
  | none =>
    if (d.temporaries a.pid).isSome then (.error .temporaryExists, d)
    else match a.stop with
      | some .secureTemporary => (.error (.stopped .secureTemporary), d.setTemporary a.pid (some []))
      | some .writeMarker =>
        (.error (.stopped .writeMarker), d.setTemporary a.pid (some (encoded.take a.written)))
      | some .writeNewline => (.error (.stopped .writeNewline), d.setTemporary a.pid (some encoded))
      | some .syncTemporary =>
        (.error (.stopped .syncTemporary), d.setTemporary a.pid (some (encoded ++ [10])))
      | some .rename => (.error (.stopped .rename), d.setTemporary a.pid (some (encoded ++ [10])))
      | some .syncDirectory =>
        (.error (.stopped .syncDirectory), { d with marker := some (encoded ++ [10]) })
      | _ => (.ok (), { d with marker := some (encoded ++ [10]) })

/-- The database is created or opened, its permissions set and its schema initialised. -/
def openDatabase (a : Attempt) (d : StateDirectory) :
    Except OpenError DatabaseFile × StateDirectory :=
  if a.stop = some .createDatabase then (.error (.stopped .createDatabase), d)
  else
    let file := d.database.getD ⟨none, none⟩
    let d := { d with database := some file }
    match a.stopsIn [.secureDatabase, .initializeSchema] with
    | some s => (.error (.stopped s), d)
    | none =>
      match initializeSchema file with
      | .error e => (.error e, d)
      | .ok file => (.ok file, { d with database := some file })

/-- The first part of `open`: whether the state is fresh. -/
def classify (T : MarkerText) (a : Attempt) (d : StateDirectory) : Except OpenError Bool :=
  match d.marker, d.database with
  | none, none => .ok true
  | some content, some _ =>
    if a.stop = some .readMarker then .error (.stopped .readMarker)
    else match T.read content with
      | .error e => .error (.marker e)
      | .ok m => (validateMarker m).map fun _ => false
  | some _, none => .error .markerWithoutDatabase
  | none, some _ => .error .databaseWithoutMarker

/-- `Storage::open`; the database it returns is that of the file. -/
def openStorage (T : MarkerText) (a : Attempt) (d : StateDirectory) :
    Except OpenError DatabaseFile × StateDirectory :=
  match a.stopsIn [.currentDir, .checkDirectory, .createDirectory] with
  | some s => (.error (.stopped s), d)
  | none =>
    let d := { d with present := true }
    match a.stopsIn [.statDirectory, .secureDirectory, .checkMarker, .checkDatabase, .markerExists,
        .databaseExists] with
    | some s => (.error (.stopped s), d)
    | none =>
      match classify T a d with
      | .error e => (.error e, d)
      | .ok fresh =>
        match openDatabase a d with
        | (.error e, d) => (.error e, d)
        | (.ok file, d) =>
          if fresh then
            match writeMarker T a d with
            | (.error e, d) => (.error e, d)
            | (.ok (), d) => (.ok file, d)
          else (.ok file, d)

/-- The directory after some attempts. -/
def afterAttempts (T : MarkerText) (as : List Attempt) (d : StateDirectory) : StateDirectory :=
  as.foldl (fun d a => (openStorage T a d).2) d

/-! ## What an attempt leaves -/

/-- The step is not behind the creation of the database. A fresh attempt reads no marker. -/
def Step.early : Step → Bool
  | .currentDir | .checkDirectory | .createDirectory | .statDirectory | .secureDirectory
  | .checkMarker | .checkDatabase | .markerExists | .databaseExists | .createDatabase => true
  | _ => false

/-- The step is behind the creation of the database and not behind the rename of the marker. -/
def Step.between : Step → Bool
  | .secureDatabase | .initializeSchema | .encodeMarker | .checkTemporary | .createTemporary
  | .secureTemporary | .writeMarker | .writeNewline | .syncTemporary | .rename => true
  | _ => false

/-- The attempt stops before it has created the database. -/
def Attempt.early (a : Attempt) : Bool := a.stop.any Step.early

/-- The attempt stops between the creation of the database and that of the marker. -/
def Attempt.cut (a : Attempt) : Bool := a.stop.any Step.between

/-- No attempt has created the database. -/
structure Fresh (d : StateDirectory) : Prop where
  marker : d.marker = none
  database : d.database = none
  temporaries : d.temporaries = fun _ => none

/-- The marker is valid and the database initialised. -/
structure Settled (T : MarkerText) (d : StateDirectory) : Prop where
  marker : d.marker = some (T.toVec currentMarker ++ [10])
  database : ∃ tables, d.database = some ⟨some schemaVersion, some tables⟩

/-- A database without a marker. -/
structure Stuck (d : StateDirectory) : Prop where
  marker : d.marker = none
  database : d.database.isSome

theorem fresh_empty (present : Bool) : Fresh (StateDirectory.empty present) := ⟨rfl, rfl, rfl⟩

variable {T : MarkerText} {a : Attempt} {d : StateDirectory}

/-- From a fresh directory: an early stop leaves it fresh, a cut attempt leaves a database without
    a marker, and every other attempt leaves both files. -/
theorem openStorage_fresh (hd : Fresh d) :
    (a.early → Fresh (openStorage T a d).2) ∧ (a.cut → Stuck (openStorage T a d).2) ∧
      (a.early = false → a.cut = false → Settled T (openStorage T a d).2) := by
  obtain ⟨present, marker, database, temporaries⟩ := d
  obtain ⟨pid, stop, written⟩ := a
  obtain ⟨hm, hdb, ht⟩ := hd
  simp only at hm hdb ht
  subst hm hdb ht
  -- the steps one by one: each attempt is computed
  refine ⟨fun h => ?_, fun h => ?_, fun h h' => ?_⟩
  · cases stop with
    | none => exact nomatch h
    | some s => cases s <;> first | exact ⟨rfl, rfl, rfl⟩ | exact nomatch h
  · cases stop with
    | none => exact nomatch h
    | some s => cases s <;> first | exact ⟨rfl, rfl⟩ | exact nomatch h
  · cases stop with
    | none => exact ⟨rfl, _, rfl⟩
    | some s =>
      cases s <;> first
        | exact ⟨rfl, _, rfl⟩
        | exact absurd h Bool.noConfusion
        | exact absurd h' Bool.noConfusion

theorem classify_stuck (hd : Stuck d) : classify T a d = .error .databaseWithoutMarker := by
  obtain ⟨file, hfile⟩ := Option.isSome_iff_exists.mp hd.database
  unfold classify
  rw [hd.marker, hfile]

/-- No attempt gets out of a database without a marker. -/
theorem openStorage_stuck (hd : Stuck d) :
    Stuck (openStorage T a d).2 ∧ (openStorage T a d).1.isOk = false := by
  have hp : Stuck { d with present := true } := ⟨hd.marker, hd.database⟩
  unfold openStorage
  split
  · exact ⟨hd, rfl⟩
  · dsimp only
    split
    · exact ⟨hp, rfl⟩
    · rw [classify_stuck hp]
      exact ⟨hp, rfl⟩

theorem classify_settled (hd : Settled T d) :
    classify T a d =
      if a.stop = some .readMarker then .error (.stopped .readMarker) else .ok false := by
  obtain ⟨tables, ht⟩ := hd.database
  unfold classify
  rw [hd.marker, ht]
  simp only [T.read_toVec]
  rfl

/-- The database of a settled directory is opened as it is. -/
theorem openDatabase_settled (hd : Settled T d) :
    (openDatabase a d).2 = d ∧
      (a.stop = none → ∃ file, d.database = some file ∧ (openDatabase a d).1 = .ok file) := by
  obtain ⟨tables, ht⟩ := hd.database
  obtain ⟨present, marker, database, temporaries⟩ := d
  simp only at ht
  subst ht
  unfold openDatabase
  split
  · rename_i hs
    exact ⟨rfl, fun hn => by rw [hn] at hs; cases hs⟩
  · dsimp only
    split
    · rename_i s hs
      refine ⟨rfl, fun hn => ?_⟩
      simp [Attempt.stopsIn, hn] at hs
    · exact ⟨rfl, fun _ => ⟨_, rfl, rfl⟩⟩

/-- A settled directory stays settled, and its database is returned when no step fails. -/
theorem openStorage_settled (hd : Settled T d) :
    Settled T (openStorage T a d).2 ∧
      (a.stop = none → ∃ file, (openStorage T a d).2.database = some file ∧
        (openStorage T a d).1 = .ok file) := by
  have hp : Settled T { d with present := true } := ⟨hd.marker, hd.database⟩
  unfold openStorage
  split
  · rename_i s hs
    refine ⟨hd, fun hn => ?_⟩
    simp [Attempt.stopsIn, hn] at hs
  · dsimp only
    split
    · rename_i s hs
      refine ⟨hp, fun hn => ?_⟩
      simp [Attempt.stopsIn, hn] at hs
    · rw [classify_settled hp]
      by_cases hr : a.stop = some .readMarker
      · rw [if_pos hr]
        exact ⟨hp, fun hn => by rw [hn] at hr; cases hr⟩
      · rw [if_neg hr]
        obtain ⟨hkeep, hfile⟩ := openDatabase_settled (a := a) hp
        obtain ⟨result, d', hopen⟩ : ∃ result d', openDatabase a { d with present := true } =
            (result, d') := ⟨_, _, rfl⟩
        rw [hopen] at hkeep hfile ⊢
        simp only at hkeep hfile
        subst hkeep
        cases result with
        | error e => exact ⟨hp, fun hn => by obtain ⟨_, _, h⟩ := hfile hn; cases h⟩
        | ok file =>
          refine ⟨hp, fun hn => ?_⟩
          obtain ⟨file', hdb, h⟩ := hfile hn
          exact ⟨file', hdb, h⟩

/-! ## Runs of attempts -/

/-- The first attempt that creates the database stops before the marker is there. -/
def cutShort : List Attempt → Bool
  | [] => false
  | a :: as => if a.early then cutShort as else a.cut

theorem afterAttempts_keeps {P : StateDirectory → Prop}
    (step : ∀ a d, P d → P (openStorage T a d).2) (as : List Attempt) (hd : P d) :
    P (afterAttempts T as d) := by
  induction as generalizing d with
  | nil => exact hd
  | cons a as ih => exact ih (step a d hd)

/-- From a fresh directory the attempts lead to a database without a marker exactly if they are cut
    short. -/
theorem afterAttempts_fresh (as : List Attempt) (hd : Fresh d) :
    if cutShort as then Stuck (afterAttempts T as d)
    else Fresh (afterAttempts T as d) ∨ Settled T (afterAttempts T as d) := by
  induction as generalizing d with
  | nil => exact .inl hd
  | cons a as ih =>
    obtain ⟨hearly, hcut, helse⟩ := openStorage_fresh (T := T) (a := a) hd
    show if (if a.early then cutShort as else a.cut) then
        Stuck (afterAttempts T as (openStorage T a d).2)
      else Fresh (afterAttempts T as (openStorage T a d).2) ∨
        Settled T (afterAttempts T as (openStorage T a d).2)
    cases he : a.early with
    | true => exact ih (hearly he)
    | false =>
      cases hc : a.cut with
      | true => exact afterAttempts_keeps (P := Stuck) (fun _ _ h => (openStorage_stuck h).1) as (hcut hc)
      | false =>
        exact .inr (afterAttempts_keeps (P := Settled T) (fun _ _ h => (openStorage_settled h).1) as
          (helse he hc))

/-- The attempt has returned the initialised database of the directory, next to a valid marker. -/
def Opened (T : MarkerText) (result : Except OpenError DatabaseFile × StateDirectory) : Prop :=
  (∃ tables, result.1 = .ok ⟨some schemaVersion, some tables⟩ ∧
    result.2.database = some ⟨some schemaVersion, some tables⟩) ∧
  ∃ content m, result.2.marker = some content ∧ T.read content = .ok m ∧ validateMarker m = .ok ()

theorem validateMarker_current : validateMarker currentMarker = .ok () := by decide

theorem opened_of_settled (hd : Settled T d) (ha : a.stop = none) :
    Opened T (openStorage T a d) := by
  obtain ⟨hs, hfile⟩ := openStorage_settled (a := a) hd
  obtain ⟨tables, ht⟩ := hs.database
  obtain ⟨file, hdb, hresult⟩ := hfile ha
  have heq : file = ⟨some schemaVersion, some tables⟩ := Option.some.inj (hdb.symm.trans ht)
  subst heq
  exact ⟨⟨tables, hresult, ht⟩, _, _, hs.marker, T.read_toVec, validateMarker_current⟩

theorem opened_of_fresh (hd : Fresh d) (ha : a.stop = none) : Opened T (openStorage T a d) := by
  obtain ⟨present, marker, database, temporaries⟩ := d
  obtain ⟨pid, stop, written⟩ := a
  obtain ⟨hm, hdb, ht⟩ := hd
  simp only at hm hdb ht ha
  subst hm hdb ht ha
  exact ⟨⟨_, rfl, rfl⟩, _, _, rfl, T.read_toVec, validateMarker_current⟩

theorem refused_of_stuck (hd : Stuck d) (ha : a.stop = none) :
    (openStorage T a d).1 = .error .databaseWithoutMarker := by
  have hp : Stuck { d with present := true } := ⟨hd.marker, hd.database⟩
  unfold openStorage
  simp only [Attempt.stopsIn, ha, classify_stuck hp]

/-- After any attempts on an empty directory, an attempt in which no step fails opens the initialised
    database next to a valid marker, unless the attempts were cut short: then it finds a database
    without a marker and refuses it. -/
theorem open_after_attempts (T : MarkerText) (present : Bool) (as : List Attempt) (a : Attempt)
    (ha : a.stop = none) :
    (cutShort as = false →
      Opened T (openStorage T a (afterAttempts T as (StateDirectory.empty present)))) ∧
    (cutShort as = true →
      (openStorage T a (afterAttempts T as (StateDirectory.empty present))).1 =
        .error .databaseWithoutMarker) := by
  have hrun := afterAttempts_fresh (T := T) as (fresh_empty present)
  refine ⟨fun hc => ?_, fun hc => ?_⟩
  · rw [hc] at hrun
    obtain hfresh | hsettled := hrun
    · exact opened_of_fresh hfresh ha
    · exact opened_of_settled hsettled ha
  · rw [hc] at hrun
    exact refused_of_stuck hrun ha

/-- The text of a marker with plain characters in it; only the marker of `open` is read. -/
def plainMarkerText : MarkerText where
  toVec m := utf8 ("\x7b\"engine\":\"" ++ m.engine ++ "\",\"format\":" ++ toString m.format ++ "\x7d")
  read content :=
    if content = utf8 "\x7b\"engine\":\"redb\",\"format\":1\x7d" ++ [10] then .ok currentMarker
    else .error "expected value"
  read_toVec := if_pos rfl

/-- Three attempts, stopped while the directory is made, while it is secured and after the rename. -/
theorem open_after_attempts_late :
    Opened plainMarkerText (openStorage plainMarkerText ⟨4, none, 0⟩
      (afterAttempts plainMarkerText
        [⟨1, some .createDirectory, 0⟩, ⟨2, some .secureDirectory, 0⟩, ⟨3, some .syncDirectory, 0⟩]
        (StateDirectory.empty false))) :=
  (open_after_attempts plainMarkerText false _ ⟨4, none, 0⟩ rfl).1 rfl

/-- One attempt that is stopped at the permissions of the new database is enough: the next one finds
    the database without a marker. -/
theorem not_opened_after_cut :
    ¬ ∀ (T : MarkerText) (present : Bool) (as : List Attempt) (a : Attempt), a.stop = none →
      Opened T (openStorage T a (afterAttempts T as (StateDirectory.empty present))) := by
  intro h
  obtain ⟨⟨tables, hresult, -⟩, -⟩ :=
    h plainMarkerText false [⟨1, some .secureDatabase, 0⟩] ⟨2, none, 0⟩ rfl
  have hrefused : (openStorage plainMarkerText ⟨2, none, 0⟩ (afterAttempts plainMarkerText
      [⟨1, some .secureDatabase, 0⟩] (StateDirectory.empty false))).1 =
        .error .databaseWithoutMarker := rfl
  rw [hrefused] at hresult
  cases hresult

end Oikade.Storage
