/-
  Log records of the Matter adapter, from `emit` (`oikade-matter-adapter/src/logging.rs`) over the
  adapter's standard error and the supervisor's reader to the host (`parse_structured_log` and
  `emit_adapter_output` in `oikade-adapter-host/src/instance/output.rs`).

  A record is one line: a prefix and a JSON object. The reader counts the newline when it decides
  whether a line is too long, so a line whose content just fits is marked as truncated, and the mark
  after the object makes it unreadable (`recovers_iff`).

  JSON texts come from `serde_json` (`LogJson`).
-/
import Oikade.Lib.Text
import Oikade.Supervisor.LogReader

namespace Oikade.Adapter.Output

open Lines (lines)
open Supervisor.LogReader (Bytes newline carriageReturn maxLogLine readBuffer LogStream Reader Reads
  logText popTerminators)

/-! ## Records -/

inductive AdapterLogLevel where
  | debug
  | info
  | warn
  | error
  deriving DecidableEq, Repr

structure AdapterLogRecord where
  version : UInt8
  level : AdapterLogLevel
  target : String
  message : String
  deriving DecidableEq

def logRecordPrefix : String := "@oikade-adapter-log "
def logRecordVersion : UInt8 := 1

/-- The texts of records. -/
structure LogJson where
  /-- `serde_json::to_string` -/
  toStr : AdapterLogRecord → Except String String
  /-- `serde_json::from_str` -/
  fromStr : String → Except String AdapterLogRecord

variable (J : LogJson)

/-! ## The adapter -/

/-- What `emit` is called with. -/
structure Emitted where
  level : AdapterLogLevel
  target : String
  message : String
  deriving DecidableEq

def Emitted.record (e : Emitted) : AdapterLogRecord :=
  ⟨logRecordVersion, e.level, e.target, e.message⟩

def encode (e : Emitted) : Option String := (J.toStr e.record).toOption

/-- The line of a record, without the newline. -/
def content (e : Emitted) : Bytes :=
  match encode J e with
  | none => []
  | some encoded => Utf8.encode (logRecordPrefix ++ encoded)

/-- What `emit` writes to standard error. -/
def emit (e : Emitted) : Bytes :=
  match encode J e with
  | none => []
  | some _ => content J e ++ [newline]

/-! ## The host -/

/-- `str::strip_prefix`. -/
def stripPrefix (start text : String) : Option String :=
  (start.toList.isPrefixOf? text.toList).map String.ofList

def parseStructuredLog (line : String) : Option AdapterLogRecord :=
  match stripPrefix logRecordPrefix line with
  | none => none
  | some encoded =>
    match J.fromStr encoded with
    | .error _ => none
    | .ok record => if record.version = logRecordVersion then some record else none

/-- An event of the host's log. -/
structure LogEvent where
  level : AdapterLogLevel
  adapterInstance : String
  adapterId : String
  stream : String
  /-- an unstructured line -/
  line : Option String
  /-- the target and the message of a record -/
  record : Option (String × String)
  deriving DecidableEq

def emitAdapterOutput (instanceId adapterId : String) (stream : LogStream) (line : String) :
    Option LogEvent :=
  if (Text.trim line).isEmpty then none
  else
    let stream := match stream with
      | .stdout => "stdout"
      | .stderr => "stderr"
    match parseStructuredLog J line with
    | none => some ⟨.info, instanceId, adapterId, stream, some line, none⟩
    | some record =>
      some ⟨record.level, instanceId, adapterId, stream, none, some (record.target, record.message)⟩

/-! ## One record -/

/-- Whether a character is white space in JSON. -/
def jsonWhitespace (c : Char) : Bool := c = ' ' || c = '\n' || c = '\t' || c = '\r'

/-- What is relied on of `serde_json` at a record: control characters are escaped, the text is read
    back, and a text with anything but white space after the object is refused. -/
structure LogJson.WrittenAs (J : LogJson) (record : AdapterLogRecord) (encoded : String) : Prop where
  toStr : J.toStr record = .ok encoded
  fromStr : J.fromStr encoded = .ok record
  escaped : ∀ c ∈ encoded.toList, 32 ≤ c.toNat
  trailing : ∀ rest : String, (∃ c ∈ rest.toList, jsonWhitespace c = false) →
    ∃ e, J.fromStr (encoded ++ rest) = .error e

variable {J} {e : Emitted} {encoded : String}

theorem stripPrefix_append (start text : String) : stripPrefix start (start ++ text) = some text := by
  have h : List.isPrefixOf? start.toList (start.toList ++ text.toList) = some text.toList :=
    List.isPrefixOf?_eq_some_iff_append_eq.mpr rfl
  rw [stripPrefix, String.toList_append, h, Option.map_some, String.ofList_toList]

theorem encode_eq (h : J.WrittenAs e.record encoded) : encode J e = some encoded := by
  rw [encode, h.toStr]
  rfl

theorem content_eq (h : J.WrittenAs e.record encoded) :
    content J e = Utf8.encode (logRecordPrefix ++ encoded) := by
  rw [content, encode_eq h]

theorem emit_eq (h : J.WrittenAs e.record encoded) : emit J e = content J e ++ [newline] := by
  rw [emit, encode_eq h]

/-- A text is its list of characters, as a literal is. -/
theorem printable_ofList {chars : List Char} (h : chars.all (32 ≤ ·.toNat) = true) :
    ∀ c ∈ (String.ofList chars).toList, 32 ≤ c.toNat := by
  rw [String.toList_ofList]
  simpa using h

theorem printable_append {a b : String} (ha : ∀ c ∈ a.toList, 32 ≤ c.toNat)
    (hb : ∀ c ∈ b.toList, 32 ≤ c.toNat) : ∀ c ∈ (a ++ b).toList, 32 ≤ c.toNat := by
  intro c hc
  rw [String.toList_append, List.mem_append] at hc
  obtain hc | hc := hc
  · exact ha c hc
  · exact hb c hc

/-- The content has no control characters. -/
theorem not_mem_content (h : J.WrittenAs e.record encoded) {b : UInt8} (hb : b < 32) :
    b ∉ content J e := by
  rw [content_eq h]
  refine Utf8.not_mem_encode (UInt8.lt_trans hb (by decide)) fun c hc => ?_
  have hle := printable_append (printable_ofList (by decide)) h.escaped c hc
  have hlt := UInt8.lt_iff_toNat_lt.mp hb
  have : (32 : UInt8).toNat = 32 := rfl
  omega

theorem popTerminators_content (h : J.WrittenAs e.record encoded) :
    popTerminators (content J e) = content J e := by
  refine List.rdropWhile_eq_self_iff.mpr fun hne hlast => ?_
  have hmem := List.getLast_mem hne
  rw [Bool.or_eq_true, decide_eq_true_eq, decide_eq_true_eq] at hlast
  obtain hlast | hlast := hlast
  · exact not_mem_content h (by decide) (hlast ▸ hmem)
  · exact not_mem_content h (by decide) (hlast ▸ hmem)

/-- A line that is shorter than the limit comes through. -/
theorem logText_short (h : J.WrittenAs e.record encoded) (hlength : (content J e).length < maxLogLine) :
    logText (content J e ++ [newline]) = logRecordPrefix ++ encoded := by
  have hlong : (content J e ++ [newline]).length ≤ maxLogLine := by
    rw [List.length_append, List.length_singleton]
    omega
  have hpop : popTerminators (content J e ++ [newline]) = content J e := by
    rw [popTerminators, List.rdropWhile_concat_pos _ _ _ (by decide)]
    exact popTerminators_content h
  simp only [logText, List.take_of_length_le hlong, hpop, if_neg (Nat.not_lt.mpr hlong)]
  rw [content_eq h, Utf8.fromUtf8Lossy_encode]

/-- A line that reaches the limit is marked, though nothing is missing. -/
theorem logText_full (h : J.WrittenAs e.record encoded) (hlength : (content J e).length = maxLogLine) :
    logText (content J e ++ [newline]) = logRecordPrefix ++ (encoded ++ " [truncated]") := by
  have hlong : maxLogLine < (content J e ++ [newline]).length := by
    rw [List.length_append, List.length_singleton]
    omega
  have htake : (content J e ++ [newline]).take maxLogLine = content J e := by
    rw [← hlength, List.take_left]
  simp only [logText, htake, popTerminators_content h, if_pos hlong]
  rw [content_eq h, Utf8.fromUtf8Lossy_encode, String.append_assoc]

theorem parse_short (h : J.WrittenAs e.record encoded) (hlength : (content J e).length < maxLogLine) :
    parseStructuredLog J (logText (content J e ++ [newline])) = some e.record := by
  rw [logText_short h hlength, parseStructuredLog, stripPrefix_append]
  simp only [h.fromStr]
  rfl

theorem parse_full (h : J.WrittenAs e.record encoded) (hlength : (content J e).length = maxLogLine) :
    parseStructuredLog J (logText (content J e ++ [newline])) = none := by
  have hmark : ∃ c ∈ " [truncated]".toList, jsonWhitespace c = false :=
    ⟨'[', String.toList_ofList ▸ by decide, by decide⟩
  obtain ⟨err, herr⟩ := h.trailing _ hmark
  rw [logText_full h hlength, parseStructuredLog, stripPrefix_append]
  simp only [herr]

/-! ## Runs -/

/-- When the reader has come to the end of the adapter's standard error, what it has passed on reads
    as the records, each once and in order. -/
def Recovers (J : LogJson) (records : List Emitted) (reads : Reads) : Prop :=
  ∃ n, ((Reader.start reads).after .stderr true n).returned = true ∧
    ((Reader.start reads).after .stderr true n).passed.map
        (fun passed => parseStructuredLog J passed.2) =
      records.map fun e => some e.record

variable {records : List Emitted} {reads : Reads}

theorem lines_emit (hwritten : ∀ e ∈ records, ∃ encoded, J.WrittenAs e.record encoded)
    (hreads : reads.bytes = records.flatMap (emit J)) :
    lines newline reads.bytes = records.map fun e => content J e ++ [newline] := by
  have hbytes : records.flatMap (emit J) =
      (records.map (content J)).flatMap (· ++ [newline]) := by
    rw [List.flatMap_map]
    refine List.flatMap_congr fun e he => ?_
    obtain ⟨encoded, h⟩ := hwritten e he
    exact emit_eq h
  rw [hreads, hbytes, Lines.lines_flatMap, List.map_map]
  · rfl
  · intro l hl
    obtain ⟨e, he, rfl⟩ := List.mem_map.mp hl
    obtain ⟨encoded, h⟩ := hwritten e he
    exact not_mem_content h (by decide)

/-- Records are recovered one by one. -/
theorem recovers_iff_forall (hwritten : ∀ e ∈ records, ∃ encoded, J.WrittenAs e.record encoded)
    (hreads : reads.bytes = records.flatMap (emit J)) :
    Recovers J records reads ↔ ∀ e ∈ records,
      parseStructuredLog J (logText (content J e ++ [newline])) = some e.record := by
  have hlines := lines_emit hwritten hreads
  constructor
  · rintro ⟨n, hreturned, hpassed⟩
    rw [Supervisor.LogReader.passed_eq hreturned, hlines] at hpassed
    simpa only [List.map_map, Function.comp_def, List.map_inj_left] using hpassed
  · intro h
    obtain ⟨n, hreturned⟩ := Supervisor.LogReader.exists_returned .stderr reads
    refine ⟨n, hreturned, ?_⟩
    rw [Supervisor.LogReader.passed_eq hreturned, hlines]
    simpa only [List.map_map, Function.comp_def, List.map_inj_left] using h

/-- Every sequence of records whose lines have at most the limit, cut into reads in any way, is
    recovered if and only if no line reaches the limit. -/
theorem recovers_iff (hwritten : ∀ e ∈ records, ∃ encoded, J.WrittenAs e.record encoded)
    (hlength : ∀ e ∈ records, (content J e).length ≤ maxLogLine)
    (hreads : reads.bytes = records.flatMap (emit J)) :
    Recovers J records reads ↔ ∀ e ∈ records, (content J e).length ≠ maxLogLine := by
  rw [recovers_iff_forall hwritten hreads]
  refine forall₂_congr fun e he => ?_
  obtain ⟨encoded, h⟩ := hwritten e he
  constructor
  · intro hparse hfull
    rw [parse_full h hfull] at hparse
    cases hparse
  · intro hne
    exact parse_short h (lt_of_le_of_ne (hlength e he) hne)

/-- A line with a record is logged at the level of the record. -/
theorem emitAdapterOutput_eq {line : String} {record : AdapterLogRecord}
    (h : parseStructuredLog J line = some record) (instanceId adapterId : String) :
    emitAdapterOutput J instanceId adapterId .stderr line =
      some ⟨record.level, instanceId, adapterId, "stderr", none,
        some (record.target, record.message)⟩ := by
  have hstart : '@' ∈ line.toList := by
    rw [parseStructuredLog, stripPrefix] at h
    cases hrest : List.isPrefixOf? logRecordPrefix.toList line.toList with
    | none => simp [hrest] at h
    | some rest =>
      rw [← List.append_eq_of_isPrefixOf?_eq_some hrest]
      refine List.mem_append_left _ ?_
      rw [logRecordPrefix]
      exact String.toList_ofList ▸ List.mem_cons_self
  rw [emitAdapterOutput, Text.trim_isEmpty_of_mem hstart (by decide)]
  simp only [Bool.false_eq_true, if_false, h]

theorem filterMap_of_map {α β γ δ : Type} {xs : List α} {ys : List β} {f : α → Option γ} {g : β → γ}
    {k : α → Option δ} {m : γ → δ} (h : xs.map f = ys.map fun y => some (g y))
    (hk : ∀ x r, f x = some r → k x = some (m r)) : xs.filterMap k = ys.map fun y => m (g y) := by
  induction xs generalizing ys with
  | nil => simp_all
  | cons x xs ih =>
    cases ys with
    | nil => cases h
    | cons y ys =>
      rw [List.map_cons, List.map_cons, List.cons.injEq] at h
      rw [List.filterMap_cons_some (hk x _ h.1), ih h.2, List.map_cons]

/-- Where the records are recovered, the host logs one event for each of them. -/
theorem events_of_recovers (h : Recovers J records reads) (instanceId adapterId : String) :
    ∃ n, ((Reader.start reads).after .stderr true n).returned = true ∧
      ((Reader.start reads).after .stderr true n).passed.filterMap
          (fun passed => emitAdapterOutput J instanceId adapterId passed.1 passed.2) =
        records.map fun e => ⟨e.level, instanceId, adapterId, "stderr", none,
          some (e.target, e.message)⟩ := by
  obtain ⟨n, hreturned, hpassed⟩ := h
  refine ⟨n, hreturned, ?_⟩
  rw [Supervisor.LogReader.passed_eq hreturned, List.map_map] at hpassed
  rw [Supervisor.LogReader.passed_eq hreturned, List.filterMap_map]
  refine filterMap_of_map (m := fun record : AdapterLogRecord => (⟨record.level, instanceId, adapterId,
    "stderr", none, some (record.target, record.message)⟩ : LogEvent)) hpassed ?_
  intro line record hline
  rw [Function.comp_apply] at hline ⊢
  exact emitAdapterOutput_eq hline instanceId adapterId

/-! ## A line that just fits -/

def escape (c : Char) : List Char := if c = '\n' then ['\\', 'n'] else [c]

/-- The text of a record at level `info` with the target of the Matter stack, where only newlines
    need an escape. -/
def plainText (message : String) : String :=
  "\x7b\"version\":1,\"level\":\"info\",\"target\":\"rs_matter\",\"message\":\"" ++
    String.ofList (message.toList.flatMap escape) ++ "\"\x7d"

theorem plainText_eq (message : String) : plainText message =
    "\x7b\"version\":1,\"level\":\"info\",\"target\":\"rs_matter\",\"message\":\"" ++
      String.ofList (message.toList.flatMap escape) ++ "\"\x7d" := rfl

def plain (message : String) : Emitted := ⟨.info, "rs_matter", message⟩

/-- The texts of these records; one of them is read. -/
def plainJson (message : String) : LogJson where
  toStr record := .ok (plainText record.message)
  fromStr text :=
    if text = plainText message then .ok (plain message).record else .error "trailing characters"

theorem ne_append_of_ne {text rest : String} (h : rest.toList ≠ []) : text ++ rest ≠ text := by
  intro heq
  have := congrArg String.toList heq
  rw [String.toList_append, List.append_right_eq_self] at this
  exact h this

theorem written_plain {message : String}
    (h : message.toList.all (fun c => c = '\n' || 32 ≤ c.toNat) = true) :
    (plainJson message).WrittenAs (plain message).record (plainText message) where
  toStr := rfl
  fromStr := by simp only [plainJson, if_true]
  escaped := by
    refine printable_append (printable_append (printable_ofList (by decide)) ?_)
      (printable_ofList (by decide))
    intro c hc
    rw [String.toList_ofList, List.mem_flatMap] at hc
    obtain ⟨d, hd, hc⟩ := hc
    rw [escape] at hc
    split at hc
    · rw [List.mem_pair] at hc
      obtain rfl | rfl := hc <;> decide
    · rename_i hne
      rw [List.mem_singleton.mp hc]
      have hplain := List.all_eq_true.mp h d hd
      simpa [hne] using hplain
  trailing := by
    rintro rest ⟨c, hc, -⟩
    have hne := @ne_append_of_ne (plainText message) rest (List.ne_nil_of_mem hc)
    simp only [plainJson, if_neg hne, Except.error.injEq, exists_eq']

theorem length_plain {message : String}
    (h : (plainJson message).WrittenAs (plain message).record (plainText message)) :
    (content (plainJson message) (plain message)).length =
      82 + (Utf8.encode (String.ofList (message.toList.flatMap escape))).length := by
  have hstart : (Utf8.encode logRecordPrefix).length = 20 :=
    Utf8.length_encode_ascii (by decide)
  have hhead : (Utf8.encode
      "\x7b\"version\":1,\"level\":\"info\",\"target\":\"rs_matter\",\"message\":\"").length = 60 :=
    Utf8.length_encode_ascii (by decide)
  have htail : (Utf8.encode "\"\x7d").length = 2 := Utf8.length_encode_ascii (by decide)
  simp only [content_eq h, plainText_eq, Utf8.encode_append, List.length_append, hstart, hhead, htail]
  omega

/-- Two lines, and a letter that takes two bytes. -/
def twoLines : String := "one\ntwo é"

theorem written_twoLines :
    (plainJson twoLines).WrittenAs (plain twoLines).record (plainText twoLines) :=
  written_plain (by decide)

theorem length_twoLines : (content (plainJson twoLines) (plain twoLines)).length = 93 := by
  rw [length_plain written_twoLines]
  rfl

/-- Their line, read in two parts. -/
def twoLinesReads : Reads where
  chunks := [(emit (plainJson twoLines) (plain twoLines)).take 50,
    (emit (plainJson twoLines) (plain twoLines)).drop 50]
  sized := by
    have hlength : (emit (plainJson twoLines) (plain twoLines)).length = 94 := by
      rw [emit_eq written_twoLines, List.length_append, length_twoLines]
      rfl
    simp only [List.forall_mem_cons, List.length_take, List.length_drop, hlength]
    decide

/-- They are one record. -/
theorem recovers_twoLines : Recovers (plainJson twoLines) [plain twoLines] twoLinesReads := by
  have hbytes : twoLinesReads.bytes = [plain twoLines].flatMap (emit (plainJson twoLines)) := by
    simp [Supervisor.LogReader.Reads.bytes, twoLinesReads]
  refine (recovers_iff (by simpa using ⟨_, written_twoLines⟩) ?_ hbytes).mpr ?_
  · rw [List.forall_mem_singleton, length_twoLines]
    decide
  · rw [List.forall_mem_singleton, length_twoLines]
    decide

/-- A message of `n` letters. -/
def letters (n : Nat) : String := String.ofList (List.replicate n 'a')

theorem written_letters (n : Nat) :
    (plainJson (letters n)).WrittenAs (plain (letters n)).record (plainText (letters n)) := by
  refine written_plain (List.all_eq_true.mpr fun c hc => ?_)
  rw [letters, String.toList_ofList] at hc
  rw [List.eq_of_mem_replicate hc]
  decide

theorem flatMap_escape_letters (n : Nat) :
    (letters n).toList.flatMap escape = List.replicate n 'a' := by
  rw [letters, String.toList_ofList]
  induction n with
  | zero => rfl
  | succ n ih =>
    rw [List.replicate_succ, List.flatMap_cons, ih]
    rfl

theorem length_letters (n : Nat) :
    (content (plainJson (letters n)) (plain (letters n))).length = 82 + n := by
  have hplain : (List.replicate n 'a').all (·.toNat < 128) = true := by
    refine List.all_eq_true.mpr fun c hc => ?_
    rw [List.eq_of_mem_replicate hc]
    decide
  simp only [length_plain (written_letters n), flatMap_escape_letters,
    Utf8.length_encode_ascii hplain, List.length_replicate]

/-- The line of a message of 16302 letters, in three reads. -/
def lettersReads : Reads where
  chunks := [(emit (plainJson (letters 16302)) (plain (letters 16302))).take readBuffer,
    ((emit (plainJson (letters 16302)) (plain (letters 16302))).drop readBuffer).take readBuffer,
    ((emit (plainJson (letters 16302)) (plain (letters 16302))).drop readBuffer).drop readBuffer]
  sized := by
    have hlength : (emit (plainJson (letters 16302)) (plain (letters 16302))).length = 16385 := by
      rw [emit_eq (written_letters 16302), List.length_append, length_letters]
      rfl
    simp only [List.forall_mem_cons, List.length_take, List.length_drop, hlength]
    decide

/-- The line is as long as it may be, and no record is recovered from it. -/
theorem not_recovers_letters :
    (∃ encoded, (plainJson (letters 16302)).WrittenAs (plain (letters 16302)).record encoded) ∧
      (content (plainJson (letters 16302)) (plain (letters 16302))).length = maxLogLine ∧
      lettersReads.bytes = [plain (letters 16302)].flatMap (emit (plainJson (letters 16302))) ∧
      ¬ Recovers (plainJson (letters 16302)) [plain (letters 16302)] lettersReads := by
  have hlength : (content (plainJson (letters 16302)) (plain (letters 16302))).length =
      maxLogLine := by
    rw [length_letters]
    decide
  have hbytes : lettersReads.bytes =
      [plain (letters 16302)].flatMap (emit (plainJson (letters 16302))) := by
    simp only [Supervisor.LogReader.Reads.bytes, lettersReads, List.flatten_cons,
      List.flatten_nil, List.append_nil, List.take_append_drop, List.flatMap_cons,
      List.flatMap_nil]
  have hwritten := written_letters 16302
  refine ⟨⟨_, hwritten⟩, hlength, hbytes, fun h => ?_⟩
  rw [recovers_iff_forall (List.forall_mem_singleton.mpr ⟨_, hwritten⟩) hbytes,
    List.forall_mem_singleton, parse_full hwritten hlength] at h
  cases h

end Oikade.Adapter.Output
