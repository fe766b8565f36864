/-
  Frames on a stream: what is encoded is decoded again, however the stream is cut.

  * `HasFields`: the fields of an envelope among the members of an object. An envelope is read back
    from any members that have them, unless the body is `null`: an optional field that is `null` is
    absent.
  * `Faithful`: what is assumed of serde_json's text for a tree. It is parsed back, it has no raw
    newline and no white space at its ends.
  * `RoundTrips`, `ChunkFree`, `SizeExact`: the laws, and `framing` for both codecs.
-/
import Oikade.Codec.Wire

namespace Oikade.Codec

open Json (Value)

/-! ## Members of an envelope -/

theorem field_idMembers (name : String) (id : UInt64) :
    field name (idMembers id) = if "id" = name ∧ id ≠ 0 then [.number (.posInt id)] else [] := by
  by_cases hid : id = 0 <;> by_cases hn : "id" = name <;> simp [idMembers, hid, hn]

theorem field_bodyMembers (name : String) (body : Option Json) :
    field name (bodyMembers body) = if "body" = name then body.toList else [] := by
  cases body <;> by_cases hn : "body" = name <;> simp [bodyMembers, hn]

theorem field_errorMembers (name : String) (error : Option ProtocolError) :
    field name (errorMembers error) =
      if "error" = name then (error.map ProtocolError.toJson).toList else [] := by
  cases error <;> by_cases hn : "error" = name <;> simp [errorMembers, hn]

/-- The fields that both codecs have. -/
structure HasFields (ms : List (String × Json)) (version : UInt32) (id : UInt64) (method : String)
    (body : Option Json) (error : Option ProtocolError) : Prop where
  version : field "version" ms = [.number (.posInt version.toUInt64)]
  id : field "id" ms = if id = 0 then [] else [.number (.posInt id)]
  method : field "method" ms = [.string method]
  body : field "body" ms = body.toList
  error : field "error" ms = (error.map ProtocolError.toJson).toList

section Read

variable {ms : List (String × Json)} {version : UInt32} {id : UInt64} {method : String}
  {body : Option Json} {error : Option ProtocolError}

theorem readProtocolError_toJson (e : ProtocolError) : readProtocolError e.toJson = some e := by
  simp [readProtocolError, ProtocolError.toJson, structMembers, required, readString]

theorem HasFields.readVersion (h : HasFields ms version id method body error) :
    required readU32 "version" ms = some version := by
  rw [required, h.version]
  exact readU32_toUInt64 version

theorem HasFields.readId (h : HasFields ms version id method body error) :
    defaulted readU64 0 "id" ms = some id := by
  rw [defaulted, h.id]
  by_cases hid : id = 0
  · rw [if_pos hid, hid]
  · rw [if_neg hid]
    rfl

theorem HasFields.readMethod (h : HasFields ms version id method body error) :
    required readString "method" ms = some method := by
  rw [required, h.method]
  rfl

theorem HasFields.readBody (h : HasFields ms version id method body error)
    (hbody : body ≠ some .null) : defaulted (readOption some) none "body" ms = some body := by
  rw [defaulted, h.body]
  cases body with
  | none => rfl
  | some t =>
    simp only [Option.toList_some]
    rw [readOption_of_ne fun ht => hbody (by rw [ht])]
    rfl

theorem HasFields.readError (h : HasFields ms version id method body error) :
    defaulted (readOption readProtocolError) none "error" ms = some error := by
  rw [defaulted, h.error]
  cases error with
  | none => rfl
  | some e =>
    simp only [Option.map_some, Option.toList_some]
    rw [readOption_of_ne (by simp [ProtocolError.toJson]), readProtocolError_toJson]
    rfl

end Read

/-- An envelope whose body is not `null` is read back from its tree. -/
theorem Plugin.readEnvelope_of {ms : List (String × Json)} {e : Plugin.Envelope}
    (h : HasFields ms e.version e.id e.method e.body e.error) (hbody : e.body ≠ some .null) :
    Plugin.readEnvelope (.object ms) = some e := by
  simp only [Plugin.readEnvelope, structMembers, h.readVersion, h.readId, h.readMethod,
    h.readBody hbody, h.readError, Option.bind_eq_bind, Option.bind_some, Option.pure_def]

theorem Plugin.hasFields_toJson (e : Plugin.Envelope) : ∃ ms, e.toJson = .object ms ∧
    HasFields ms e.version e.id e.method e.body e.error := by
  refine ⟨_, rfl, ?_, ?_, ?_, ?_, ?_⟩ <;>
    simp [field_idMembers, field_bodyMembers, field_errorMembers]

theorem Adapter.readKind_text (k : Adapter.FrameKind) : Adapter.readKind (.string k.text) = some k := by
  cases k <;> rfl

theorem Adapter.readEnvelope_of {ms : List (String × Json)} {e : Adapter.Envelope}
    (h : HasFields ms e.version e.id e.method e.body e.error)
    (hkind : field "kind" ms = [.string e.kind.text]) (hbody : e.body ≠ some .null) :
    Adapter.readEnvelope (.object ms) = some e := by
  have hk : required Adapter.readKind "kind" ms = some e.kind := by
    rw [required, hkind]
    exact Adapter.readKind_text e.kind
  simp only [Adapter.readEnvelope, structMembers, h.readVersion, hk, h.readId, h.readMethod,
    h.readBody hbody, h.readError, Option.bind_eq_bind, Option.bind_some, Option.pure_def]

theorem Adapter.hasFields_toJson (e : Adapter.Envelope) : ∃ ms, e.toJson = .object ms ∧
    HasFields ms e.version e.id e.method e.body e.error ∧
    field "kind" ms = [.string e.kind.text] := by
  refine ⟨_, rfl, ⟨?_, ?_, ?_, ?_, ?_⟩, ?_⟩ <;>
    simp [field_idMembers, field_bodyMembers, field_errorMembers]

/-! ## Through a strict value -/

theorem field_of_mem {ms : List (String × Json)} (hnd : (ms.map Prod.fst).Nodup) {name : String}
    {t : Json} (h : (name, t) ∈ ms) : field name ms = [t] := by
  induction ms with
  | nil => cases h
  | cons m ms ih =>
    obtain ⟨key, u⟩ := m
    simp only [List.map_cons, List.nodup_cons] at hnd
    rw [field_cons]
    obtain heq | hmem := List.mem_cons.mp h
    · cases heq
      have hnone : field name ms = [] := by
        refine List.map_eq_nil_iff.mpr (List.filter_eq_nil_iff.mpr ?_)
        intro m hm hk
        exact hnd.1 (List.mem_map.mpr ⟨m, hm, by simpa using hk⟩)
      simp [hnone]
    · have hne : key ≠ name := fun he => hnd.1 (List.mem_map.mpr ⟨_, hmem, he.symm⟩)
      rw [if_neg hne, ih hnd.2 hmem]

theorem field_of_not_mem {ms : List (String × Json)} {name : String} (h : name ∉ ms.map Prod.fst) :
    field name ms = [] := by
  refine List.map_eq_nil_iff.mpr (List.filter_eq_nil_iff.mpr fun m hm hk => h ?_)
  exact List.mem_map.mpr ⟨m, hm, by simpa using hk⟩

theorem membersToJson_eq (vs : List (String × Value)) :
    Json.membersToJson vs = vs.map fun w => (w.1, w.2.toJson) := by
  induction vs with
  | nil => rfl
  | cons w vs ih => rw [Json.membersToJson, ih, List.map_cons]

theorem keys_membersToJson (vs : List (String × Value)) :
    (Json.membersToJson vs).map Prod.fst = SortedMap.keys vs := by
  rw [membersToJson_eq, List.map_map]
  rfl

/-- The tree is accepted, and this is the tree of its value. -/
def Normal (t u : Json) : Prop := ∃ v, Strict.visit t = .ok v ∧ u = v.toJson

/-- An accepted object: each field is the normal form of the field of before. -/
theorem field_normal {ms : List (String × Json)} {u : Json} (hnd : (ms.map Prod.fst).Nodup)
    (h : Normal (.object ms) u) : ∃ ns, u = .object ns ∧
      ∀ name, List.Forall₂ Normal (field name ms) (field name ns) := by
  obtain ⟨v, hv, rfl⟩ := h
  rw [Strict.visit] at hv
  cases hm : Strict.visitMap [] [] ms with
  | error e => simp [hm] at hv
  | ok vs =>
    simp only [hm, Except.ok.injEq] at hv
    subst hv
    have hadds := Strict.visitMap_ok Strict.loop_nil hm
    refine ⟨_, rfl, fun name => ?_⟩
    by_cases hmem : name ∈ ms.map Prod.fst
    · obtain ⟨⟨key, t⟩, ht, rfl⟩ := List.mem_map.mp hmem
      obtain ⟨v, hv, hvs⟩ := hadds.added _ ht
      have hns : (key, v.toJson) ∈ Json.membersToJson vs := by
        rw [membersToJson_eq]
        exact List.mem_map.mpr ⟨_, hvs, rfl⟩
      have hnd' : ((Json.membersToJson vs).map Prod.fst).Nodup := by
        rw [keys_membersToJson]
        exact hadds.sorted.imp ne_of_lt
      rw [field_of_mem hnd ht, field_of_mem hnd' hns]
      exact .cons ⟨v, hv, rfl⟩ .nil
    · have hno : name ∉ (Json.membersToJson vs).map Prod.fst := by
        rw [keys_membersToJson]
        intro hk
        obtain ⟨w, hw, rfl⟩ := List.mem_map.mp hk
        obtain hw | ⟨m, hm, hkey, -⟩ := hadds.only w hw
        · cases hw
        · exact hmem (List.mem_map.mpr ⟨m, hm, hkey⟩)
      rw [field_of_not_mem hmem, field_of_not_mem hno]
      exact .nil

theorem normal_number {n : Json.Number} {u : Json} (h : Normal (.number n) u) : u = .number n := by
  obtain ⟨v, hv, rfl⟩ := h
  rw [Strict.visit, Strict.visitNumber_eq, Except.ok.injEq] at hv
  subst hv
  rfl

theorem normal_string {s : String} {u : Json} (h : Normal (.string s) u) : u = .string s := by
  obtain ⟨v, hv, rfl⟩ := h
  cases hv
  rfl

theorem visit_protocolError (e : ProtocolError) : Strict.visit e.toJson =
    .ok (.object [("code", .string e.code), ("message", .string e.message)]) := by
  have hlt : ¬ "message" < "code" := by decide
  simp [ProtocolError.toJson, Strict.visit, Strict.visitMap, SortedMap.insert, hlt]

theorem normal_protocolError {e : ProtocolError} {u : Json} (h : Normal e.toJson u) :
    u = e.toJson := by
  obtain ⟨v, hv, rfl⟩ := h
  rw [visit_protocolError, Except.ok.injEq] at hv
  subst hv
  rfl

theorem exists_of_forall₂_singleton {α β : Type} {R : α → β → Prop} {a : α} {bs : List β}
    (h : List.Forall₂ R [a] bs) : ∃ b, bs = [b] ∧ R a b := by
  obtain ⟨b, bs, hab, hnil, rfl⟩ := List.forall₂_cons_left_iff.mp h
  cases hnil
  exact ⟨b, rfl, hab⟩

/-- The fields of an accepted envelope: all but the body are as they were. -/
theorem hasFields_normal {ms ns : List (String × Json)} {version : UInt32} {id : UInt64}
    {method : String} {body : Option Json} {error : Option ProtocolError}
    (h : HasFields ms version id method body error)
    (hn : ∀ name, List.Forall₂ Normal (field name ms) (field name ns)) :
    ∃ body', HasFields ns version id method body' error ∧
      List.Forall₂ Normal body.toList body'.toList := by
  have hv := hn "version"
  have hi := hn "id"
  have hm := hn "method"
  have hb := hn "body"
  have he := hn "error"
  rw [h.version] at hv
  rw [h.id] at hi
  rw [h.method] at hm
  rw [h.body] at hb
  rw [h.error] at he
  have hbody : ∃ body' : Option Json, field "body" ns = body'.toList := by
    cases body with
    | none =>
      cases hb' : field "body" ns with
      | nil => exact ⟨none, rfl⟩
      | cons u us => rw [hb'] at hb; cases hb
    | some t =>
      obtain ⟨u, heq, -⟩ := exists_of_forall₂_singleton hb
      exact ⟨some u, heq⟩
  obtain ⟨body', hbody'⟩ := hbody
  refine ⟨body', ⟨?_, ?_, ?_, hbody', ?_⟩, by rwa [hbody'] at hb⟩
  · obtain ⟨u, heq, hu⟩ := exists_of_forall₂_singleton hv
    rw [heq, normal_number hu]
  · by_cases hid : id = 0
    · rw [if_pos hid] at hi ⊢
      exact List.forall₂_nil_left_iff.mp hi
    · rw [if_neg hid] at hi ⊢
      obtain ⟨u, heq, hu⟩ := exists_of_forall₂_singleton hi
      rw [heq, normal_number hu]
  · obtain ⟨u, heq, hu⟩ := exists_of_forall₂_singleton hm
    rw [heq, normal_string hu]
  · cases error with
    | none => exact List.forall₂_nil_left_iff.mp he
    | some e =>
      obtain ⟨u, heq, hu⟩ := exists_of_forall₂_singleton he
      rw [heq, normal_protocolError hu]
      rfl

theorem not_repeatsKey_scalar {t : Json} (h : (∃ n, t = .number n) ∨ ∃ s, t = .string s) :
    ¬ t.RepeatsKey := by
  obtain ⟨n, rfl⟩ | ⟨s, rfl⟩ := h
  · intro hr
    cases hr
  · intro hr
    cases hr

theorem not_repeatsKey_protocolError (e : ProtocolError) : ¬ e.toJson.RepeatsKey := by
  rw [← Strict.visit_error_iff, visit_protocolError]
  rintro ⟨_, h⟩
  cases h

theorem Adapter.nodup_keys {e : Adapter.Envelope} {ms : List (String × Json)}
    (h : e.toJson = .object ms) : (ms.map Prod.fst).Nodup := by
  cases h
  by_cases hid : e.id = 0 <;> cases e.body <;> cases e.error <;>
    simp [idMembers, bodyMembers, errorMembers, hid]

/-- An envelope repeats a key only in its body. -/
theorem Adapter.not_repeatsKey {e : Adapter.Envelope}
    (h : ∀ t, e.body = some t → ¬ t.RepeatsKey) : ¬ e.toJson.RepeatsKey := by
  intro hr
  obtain hnd | ⟨m, hm, hr⟩ := Json.repeatsKey_object.mp hr
  · exact hnd (Adapter.nodup_keys rfl)
  · simp only [List.mem_append, List.mem_cons, List.not_mem_nil, or_false] at hm
    obtain ((((rfl | rfl) | hm) | rfl) | hm) | hm := hm
    · exact not_repeatsKey_scalar (.inl ⟨_, rfl⟩) hr
    · exact not_repeatsKey_scalar (.inr ⟨_, rfl⟩) hr
    · by_cases hid : e.id = 0
      · simp [idMembers, hid] at hm
      · rw [idMembers, if_neg hid, List.mem_singleton] at hm
        subst hm
        exact not_repeatsKey_scalar (.inl ⟨_, rfl⟩) hr
    · exact not_repeatsKey_scalar (.inr ⟨_, rfl⟩) hr
    · cases hb : e.body with
      | none => simp [bodyMembers, hb] at hm
      | some t =>
        rw [hb, bodyMembers, List.mem_singleton] at hm
        subst hm
        exact h t hb hr
    · cases he : e.error with
      | none => simp [errorMembers, he] at hm
      | some x =>
        rw [he, errorMembers, List.mem_singleton] at hm
        subst hm
        exact not_repeatsKey_protocolError x hr

/-! ## The laws -/

/-- The text that serde_json writes for a tree: it is parsed back, and has neither a raw newline
    nor white space at its ends. -/
def Faithful (J : SerdeJson) (t : Json) : Prop :=
  ∀ text, J.toVec t = .ok text →
    J.fromSlice text = .ok t ∧ newline ∉ text ∧ trimAsciiWhitespace text = text

/-- A codec as its callers see it. `Same` compares the bodies as JSON values. -/
structure Protocol (E W : Type) where
  /-- what the encoders check before they write -/
  check : E → Except W Unit
  validate : E → Except W Unit
  toJson : E → Json
  frameTooLarge : W
  encode : E → Except W Bytes
  asyncEncode : E → Except W Bytes
  decode : Reader → Except W (Option E) × Reader
  asyncDecode : Reader → Except W (Option E) × Reader
  Same : E → E → Prop

def bodyValue (body : Option Json) : Option Value := body.map (Json.read .last)

def Plugin.Envelope.Same (e d : Plugin.Envelope) : Prop :=
  d.version = e.version ∧ d.id = e.id ∧ d.method = e.method ∧ d.error = e.error ∧
    bodyValue d.body = bodyValue e.body

def Adapter.Envelope.Same (e d : Adapter.Envelope) : Prop :=
  d.version = e.version ∧ d.kind = e.kind ∧ d.id = e.id ∧ d.method = e.method ∧
    d.error = e.error ∧ bodyValue d.body = bodyValue e.body

def plugin (J : SerdeJson) : Protocol Plugin.Envelope Plugin.WireError where
  check := fun _ => .ok ()
  validate := Plugin.validateEnvelope
  toJson := Plugin.Envelope.toJson
  frameTooLarge := .frameTooLarge
  encode := Plugin.Encoder.encode J
  asyncEncode := Plugin.AsyncEncoder.encode J
  decode := Plugin.Decoder.decode J
  asyncDecode := Plugin.AsyncDecoder.decode J
  Same := Plugin.Envelope.Same

def adapter (J : SerdeJson) : Protocol Adapter.Envelope Adapter.WireError where
  check := Adapter.validateEnvelope
  validate := Adapter.validateEnvelope
  toJson := Adapter.Envelope.toJson
  frameTooLarge := .frameTooLarge
  encode := Adapter.Encoder.encode J
  asyncEncode := Adapter.AsyncEncoder.encode J
  decode := Adapter.Decoder.decode J
  asyncDecode := Adapter.AsyncDecoder.decode J
  Same := Adapter.Envelope.Same

variable {E W : Type}

/-- Envelopes for which `Good` holds are decoded again, and then the stream has ended. -/
def RoundTrips (J : SerdeJson) (c : Protocol E W) (Good : E → Prop) : Prop :=
  ∀ (es : List E) (lines : List Bytes) (r : Reader),
    (∀ e ∈ es, c.validate e = .ok () ∧ Good e ∧ Faithful J (c.toJson e)) →
    List.Forall₂ (fun e line => c.encode e = .ok line) es lines →
    r.failure = none → r.bytes = lines.flatten → ∀ n, ∃ ds, List.Forall₂ c.Same es ds ∧
      Lines.results c.decode (es.length + n) r =
        ds.map (fun d => .ok (some d)) ++ List.replicate n (.ok none) ∧
      Lines.results c.asyncDecode (es.length + n) r =
        ds.map (fun d => .ok (some d)) ++ List.replicate n (.ok none)

/-- The results up to the first error are those of the bytes. -/
def ChunkFree (c : Protocol E W) : Prop :=
  ∀ r s : Reader, r.bytes = s.bytes → r.failure = s.failure → ∀ n,
    Lines.results c.decode n r = Lines.results c.decode n s ∧
    Lines.results c.asyncDecode n r = Lines.results c.decode n s

/-- The encoders reject for size the lines that are over the limit, and so do the decoders. -/
def SizeExact (J : SerdeJson) (c : Protocol E W) : Prop :=
  ∀ e text, c.check e = .ok () → J.toVec (c.toJson e) = .ok text → newline ∉ text →
    (c.encode e = .error c.frameTooLarge ↔ maxFrameSize < (text ++ [newline]).length) ∧
    (c.asyncEncode e = .error c.frameTooLarge ↔ maxFrameSize < (text ++ [newline]).length) ∧
    ∀ (r : Reader) rest, r.bytes = text ++ [newline] ++ rest →
      ((c.decode r).1 = .error c.frameTooLarge ↔ maxFrameSize < (text ++ [newline]).length) ∧
      ((c.asyncDecode r).1 = .error c.frameTooLarge ↔ maxFrameSize < (text ++ [newline]).length)

/-! ## Encoders -/

theorem encodeLine_ok {J : SerdeJson} {encode : String → W} {frameTooLarge : W} {t : Json}
    {line : Bytes} (h : encodeLine J encode frameTooLarge t = .ok line) :
    ∃ text, J.toVec t = .ok text ∧ text.length + 1 ≤ maxFrameSize ∧ line = text ++ [newline] := by
  unfold encodeLine at h
  cases ht : J.toVec t with
  | error e => simp [ht] at h
  | ok text =>
    simp only [ht] at h
    by_cases hlim : maxFrameSize < text.length + 1
    · simp [hlim] at h
    · rw [if_neg hlim, Except.ok.injEq] at h
      exact ⟨text, rfl, Nat.le_of_not_lt hlim, h.symm⟩

theorem encodeLine_tooLarge {J : SerdeJson} {encode : String → W} {frameTooLarge : W} {t : Json}
    {text : Bytes} (ht : J.toVec t = .ok text) :
    encodeLine J encode frameTooLarge t = .error frameTooLarge ↔
      maxFrameSize < (text ++ [newline]).length := by
  simp only [encodeLine, ht, List.length_append, List.length_singleton]
  by_cases hlim : maxFrameSize < text.length + 1 <;> simp [hlim]

theorem dropWhile_eq_of_trim {text : Bytes} (h : trimAsciiWhitespace text = text) :
    text.dropWhile isAsciiWhitespace = text ∧
      text.reverse.dropWhile isAsciiWhitespace = text.reverse := by
  have hlen := fun l : Bytes => (List.dropWhile_suffix (l := l) isAsciiWhitespace).length_le
  have hfront : text.dropWhile isAsciiWhitespace = text := by
    refine (List.dropWhile_suffix _).eq_of_length ?_
    have h₁ := hlen (text.dropWhile isAsciiWhitespace).reverse
    have h₂ := hlen text
    have h₃ := congrArg List.length h
    simp only [trimAsciiWhitespace, List.length_reverse] at h₁ h₃
    omega
  refine ⟨hfront, ?_⟩
  have hback := congrArg List.reverse h
  rwa [trimAsciiWhitespace, hfront, List.reverse_reverse] at hback

/-- Trimming a line takes its newline off. -/
theorem trim_line {text : Bytes} (h : trimAsciiWhitespace text = text) :
    trimAsciiWhitespace (text ++ [newline]) = text := by
  obtain ⟨hfront, hback⟩ := dropWhile_eq_of_trim h
  have hline : (text ++ [newline]).dropWhile isAsciiWhitespace =
      if text = [] then [] else text ++ [newline] := by
    cases text with
    | nil => rfl
    | cons b text =>
      have hb : isAsciiWhitespace b = false := by
        by_contra hb
        rw [List.dropWhile_cons, if_pos (by simpa using hb)] at hfront
        have := (List.dropWhile_suffix (l := text) isAsciiWhitespace).length_le
        rw [hfront, List.length_cons] at this
        omega
      simp [hb]
  rw [trimAsciiWhitespace, hline]
  by_cases hnil : text = []
  · simp [hnil]
  · rw [if_neg hnil, List.reverse_append, List.reverse_singleton, List.singleton_append,
      List.dropWhile_cons, if_pos (by rfl), hback, List.reverse_reverse]

/-! ## Lines decoded again -/

theorem Plugin.decodeLine_line {J : SerdeJson} {e : Plugin.Envelope} {text : Bytes}
    (hvalid : Plugin.validateEnvelope e = .ok ()) (hbody : e.body ≠ some .null)
    (hparse : J.fromSlice text = .ok e.toJson) (htrim : trimAsciiWhitespace text = text) :
    Plugin.decodeLine J (text ++ [newline]) = .ok e := by
  obtain ⟨ms, hms, hfields⟩ := Plugin.hasFields_toJson e
  have hread := Plugin.readEnvelope_of hfields hbody
  rw [← hms] at hread
  simp only [Plugin.decodeLine, trim_line htrim, hparse, hread, hvalid, Except.map]

/-- The body of an accepted envelope is the same JSON value. -/
theorem bodyValue_normal {body body' : Option Json}
    (h : List.Forall₂ Normal body.toList body'.toList) :
    bodyValue body' = bodyValue body ∧ (body ≠ some .null → body' ≠ some .null) := by
  cases body with
  | none =>
    cases body' with
    | none => exact ⟨rfl, fun h => h⟩
    | some u => cases h
  | some t =>
    cases body' with
    | none => cases h
    | some u =>
      obtain ⟨v, hv, rfl⟩ := (List.forall₂_cons.mp h).1
      have hret := Strict.visit_ok hv
      refine ⟨?_, fun hne hu => hne ?_⟩
      · simp [bodyValue, Json.read_toJson .last v hret.ok, hret.read .last]
      · have hnull : v = .null := by
          cases v <;> simp [Value.toJson] at hu ⊢
        rw [hnull] at hret
        have hden := hret.denotes
        cases t <;> simp [Json.Denotes] at hden ⊢

theorem Adapter.decodeLine_line {J : SerdeJson} {e : Adapter.Envelope} {text : Bytes}
    (hvalid : Adapter.validateEnvelope e = .ok ()) (hbody : e.body ≠ some .null)
    (hrep : ∀ t, e.body = some t → ¬ t.RepeatsKey) (hparse : J.fromSlice text = .ok e.toJson)
    (htrim : trimAsciiWhitespace text = text) :
    ∃ d, Adapter.decodeLine J (text ++ [newline]) = .ok d ∧ e.Same d := by
  obtain ⟨ms, hms, hfields, hkind⟩ := Adapter.hasFields_toJson e
  cases hv : Strict.visit e.toJson with
  | error x => exact absurd ((Strict.visit_error_iff _).mp ⟨x, hv⟩) (Adapter.not_repeatsKey hrep)
  | ok value =>
    have hnormal : Normal (.object ms) value.toJson := ⟨value, hms ▸ hv, rfl⟩
    obtain ⟨ns, hns, hn⟩ := field_normal (Adapter.nodup_keys hms) hnormal
    obtain ⟨body', hfields', hbodies⟩ := hasFields_normal hfields hn
    obtain ⟨hvalue, hnull⟩ := bodyValue_normal hbodies
    have hkind' : field "kind" ns = [.string e.kind.text] := by
      have hk := hn "kind"
      rw [hkind] at hk
      obtain ⟨u, heq, hu⟩ := exists_of_forall₂_singleton hk
      rw [heq, normal_string hu]
    let d : Adapter.Envelope := ⟨e.version, e.kind, e.id, e.method, body', e.error⟩
    have hread : Adapter.readEnvelope value.toJson = some d := by
      rw [hns]
      exact Adapter.readEnvelope_of (e := d) hfields' hkind' (hnull hbody)
    have hvalid' : Adapter.validateEnvelope d = .ok () := hvalid
    refine ⟨d, ?_, rfl, rfl, rfl, rfl, rfl, hvalue⟩
    simp only [Adapter.decodeLine, Adapter.decodeEnvelope, trim_line htrim, hparse, hv, hread,
      hvalid', Except.map]

/-! ## Streams of frames -/

/-- Lines that are decoded one by one are decoded from a stream. -/
theorem results_frames {wrap : Lines.Error String → W} {decodeLine : Bytes → Except W E}
    {Same : E → E → Prop} {es : List E} {lines : List Bytes} {r : Reader}
    (hlines : List.Forall₂ (fun e line => ∃ text d, line = text ++ [newline] ∧ newline ∉ text ∧
      text.length + 1 ≤ maxFrameSize ∧ decodeLine line = .ok d ∧ Same e d) es lines)
    (hf : r.failure = none) (hb : r.bytes = lines.flatten) (n : Nat) :
    ∃ ds, List.Forall₂ Same es ds ∧
      Lines.results (Lines.decode newline maxFrameSize wrap decodeLine) (es.length + n) r =
        ds.map (fun d => .ok (some d)) ++ List.replicate n (.ok none) := by
  obtain ⟨texts, ds, hlen, hbytes, htexts, hdec, hsame⟩ :
      ∃ (texts : List Bytes) (ds : List E), texts.length = es.length ∧
        lines.flatten = (texts.map (· ++ [newline])).flatten ∧
        (∀ t ∈ texts, newline ∉ t ∧ t.length + 1 ≤ maxFrameSize) ∧
        List.Forall₂ (fun t d => decodeLine (t ++ [newline]) = .ok d) texts ds ∧
        List.Forall₂ Same es ds := by
    clear hb
    induction hlines with
    | nil => exact ⟨[], [], rfl, rfl, by simp, .nil, .nil⟩
    | cons hline _ ih =>
      obtain ⟨text, d, rfl, hnl, hle, hd, hs⟩ := hline
      obtain ⟨texts, ds, hlen, hbytes, htexts, hdec, hsame⟩ := ih
      exact ⟨text :: texts, d :: ds, by simp [hlen], by simp [hbytes],
        List.forall_mem_cons.mpr ⟨⟨hnl, hle⟩, htexts⟩, .cons hd hdec, .cons hs hsame⟩
  refine ⟨ds, hsame, ?_⟩
  rw [← hlen]
  exact Lines.results_lines hf (hb.trans hbytes) htexts hdec n

/-- A line on a stream is rejected for size exactly when it is over the limit. -/
theorem decode_tooLarge {wrap : Lines.Error String → W} {decodeLine : Bytes → Except W E}
    {frameTooLarge : W} (hwrap : wrap .tooLarge = frameTooLarge)
    (hline : ∀ line, decodeLine line ≠ .error frameTooLarge) {text rest : Bytes}
    (hnl : newline ∉ text) {r : Reader} (hb : r.bytes = text ++ [newline] ++ rest) :
    (Lines.decode newline maxFrameSize wrap decodeLine r).1 = .error frameTooLarge ↔
      maxFrameSize < (text ++ [newline]).length := by
  rw [(Lines.decode_eq _ _ _ _ r).1, hb, List.append_assoc, List.singleton_append,
    (Lines.nextLine_line hnl).1, List.length_append, List.length_singleton]
  by_cases hlim : maxFrameSize < text.length + 1
  · simp [hlim, hwrap]
  · simp only [hlim, if_false, iff_false]
    cases hd : decodeLine (text ++ [newline]) with
    | error e =>
      intro h
      simp only [Except.map, Except.error.injEq] at h
      exact hline _ (by rw [hd, h])
    | ok d => simp [Except.map]

/-- Validation after decoding gives no error but its own. -/
theorem map_ne_error {x : Except W Unit} {w : W} (h : x ≠ .error w) (e : E) :
    x.map (fun _ => e) ≠ .error w := by
  cases x with
  | error y =>
    intro hy
    exact h (by simpa [Except.map] using hy)
  | ok _ => simp [Except.map]

theorem Plugin.validateEnvelope_ne_tooLarge (e : Plugin.Envelope) :
    Plugin.validateEnvelope e ≠ .error .frameTooLarge := by
  unfold Plugin.validateEnvelope
  split
  · simp
  · split <;> simp

theorem Plugin.decodeLine_ne_tooLarge (J : SerdeJson) (line : Bytes) :
    Plugin.decodeLine J line ≠ .error .frameTooLarge := by
  unfold Plugin.decodeLine
  split
  · simp
  · split
    · simp
    · exact map_ne_error (Plugin.validateEnvelope_ne_tooLarge _) _

theorem Adapter.validateEnvelope_ne_tooLarge (e : Adapter.Envelope) :
    Adapter.validateEnvelope e ≠ .error .frameTooLarge := by
  unfold Adapter.validateEnvelope
  split
  · simp
  · split
    · simp
    · split
      · split
        · simp
        · split <;> simp
      · split <;> simp
      · split
        · simp
        · split <;> simp

theorem Adapter.decodeEnvelope_ne_tooLarge (J : SerdeJson) (bytes : Bytes) :
    Adapter.decodeEnvelope J bytes ≠ .error .frameTooLarge := by
  unfold Adapter.decodeEnvelope
  split
  · simp
  · split
    · simp
    · split <;> simp

theorem Adapter.decodeLine_ne_tooLarge (J : SerdeJson) (line : Bytes) :
    Adapter.decodeLine J line ≠ .error .frameTooLarge := by
  unfold Adapter.decodeLine
  split
  · rename_i e he
    exact fun h => Adapter.decodeEnvelope_ne_tooLarge J _ (he.trans h)
  · exact map_ne_error (Adapter.validateEnvelope_ne_tooLarge _) _

theorem plugin_roundTrips (J : SerdeJson) :
    RoundTrips J (plugin J) fun e => e.body ≠ some .null := by
  intro es lines r hes henc hf hb n
  have hlines : List.Forall₂ (fun e line => ∃ text d, line = text ++ [newline] ∧ newline ∉ text ∧
      text.length + 1 ≤ maxFrameSize ∧ Plugin.decodeLine J line = .ok d ∧ (plugin J).Same e d)
      es lines := by
    clear hb
    induction henc with
    | nil => exact .nil
    | @cons e line es lines he _ ih =>
      rw [List.forall_mem_cons] at hes
      obtain ⟨⟨hvalid, hbody, hfaith⟩, hes⟩ := hes
      obtain ⟨text, htext, hle, rfl⟩ := encodeLine_ok he
      obtain ⟨hparse, hnl, htrim⟩ := hfaith text htext
      exact .cons ⟨text, e, rfl, hnl, hle, Plugin.decodeLine_line hvalid hbody hparse htrim,
        rfl, rfl, rfl, rfl, rfl⟩ (ih hes)
  obtain ⟨ds, hsame, hres⟩ := results_frames hlines hf hb n
  exact ⟨ds, hsame, hres, hres⟩

theorem adapter_roundTrips (J : SerdeJson) :
    RoundTrips J (adapter J) fun e =>
      e.body ≠ some .null ∧ ∀ t, e.body = some t → ¬ t.RepeatsKey := by
  intro es lines r hes henc hf hb n
  have hlines : List.Forall₂ (fun e line => ∃ text d, line = text ++ [newline] ∧ newline ∉ text ∧
      text.length + 1 ≤ maxFrameSize ∧ Adapter.decodeLine J line = .ok d ∧ (adapter J).Same e d)
      es lines := by
    clear hb
    induction henc with
    | nil => exact .nil
    | @cons e line es lines he _ ih =>
      rw [List.forall_mem_cons] at hes
      obtain ⟨⟨hvalid, ⟨hbody, hrep⟩, hfaith⟩, hes⟩ := hes
      have hline : encodeLine J Adapter.WireError.encode .frameTooLarge e.toJson = .ok line := by
        have hv : Adapter.validateEnvelope e = .ok () := hvalid
        have he' : Adapter.encodeFrame J e = .ok line := he
        rw [Adapter.encodeFrame, hv] at he'
        exact he'
      obtain ⟨text, htext, hle, rfl⟩ := encodeLine_ok hline
      obtain ⟨hparse, hnl, htrim⟩ := hfaith text htext
      obtain ⟨d, hd, hs⟩ := Adapter.decodeLine_line hvalid hbody hrep hparse htrim
      exact .cons ⟨text, d, rfl, hnl, hle, hd, hs⟩ (ih hes)
  obtain ⟨ds, hsame, hres⟩ := results_frames hlines hf hb n
  exact ⟨ds, hsame, hres, hres⟩

theorem plugin_sizeExact (J : SerdeJson) : SizeExact J (plugin J) := by
  intro e text _ htext hnl
  refine ⟨encodeLine_tooLarge htext, encodeLine_tooLarge htext, fun r rest hb => ?_⟩
  have hwrap : Plugin.wrap .tooLarge = .frameTooLarge := rfl
  have h := decode_tooLarge hwrap (Plugin.decodeLine_ne_tooLarge J) hnl hb
  exact ⟨h, h⟩

theorem adapter_sizeExact (J : SerdeJson) : SizeExact J (adapter J) := by
  intro e text hcheck htext hnl
  have henc : Adapter.encodeFrame J e = .error .frameTooLarge ↔
      maxFrameSize < (text ++ [newline]).length := by
    have hv : Adapter.validateEnvelope e = .ok () := hcheck
    simp only [Adapter.encodeFrame, hv]
    exact encodeLine_tooLarge htext
  refine ⟨henc, henc, fun r rest hb => ?_⟩
  have hwrap : Adapter.wrap .tooLarge = .frameTooLarge := rfl
  have h := decode_tooLarge hwrap (Adapter.decodeLine_ne_tooLarge J) hnl hb
  exact ⟨h, h⟩

/-- Both codecs: frames whose body is not `null` and, for the adapter codec, repeats no key are
    decoded again; results do not depend on the chunks; and the limit is the same for encoders and
    decoders. -/
theorem framing (J : SerdeJson) :
    (RoundTrips J (plugin J) (fun e => e.body ≠ some .null) ∧ ChunkFree (plugin J) ∧
      SizeExact J (plugin J)) ∧
    RoundTrips J (adapter J)
      (fun e => e.body ≠ some .null ∧ ∀ t, e.body = some t → ¬ t.RepeatsKey) ∧
    ChunkFree (adapter J) ∧ SizeExact J (adapter J) :=
  ⟨⟨plugin_roundTrips J, fun _ _ hb hf n =>
      ⟨Lines.results_congr hb hf n, Lines.results_congr hb hf n⟩, plugin_sizeExact J⟩,
    adapter_roundTrips J, fun _ _ hb hf n =>
      ⟨Lines.results_congr hb hf n, Lines.results_congr hb hf n⟩, adapter_sizeExact J⟩

/-! ## Frames of one tree -/

/-- A text layer that knows one tree and its text. -/
def serdeJson (t : Json) (text : Bytes) : SerdeJson where
  toVec := fun _ => .ok text
  fromSlice := fun bytes => if bytes = text then .ok t else .error "expected value"

theorem faithful_serdeJson {t : Json} {text : Bytes}
    (h : newline ∉ text ∧ trimAsciiWhitespace text = text) : Faithful (serdeJson t text) t := by
  intro text' ht
  cases ht
  exact ⟨if_pos rfl, h⟩

/-- A stream of one line in two chunks. -/
def twoChunks (first second : Bytes) (h₁ : first ≠ []) (h₂ : second ≠ []) : Reader where
  chunks := [first, second]
  failure := none
  nonempty := by simp [h₁, h₂]

def ascii (s : String) : Bytes := s.toList.map Char.toUInt8

/-- A text is its list of characters, as a literal is. -/
theorem faithful_ascii {t : Json} {chars : List Char}
    (h : newline ∉ chars.map Char.toUInt8 ∧
      trimAsciiWhitespace (chars.map Char.toUInt8) = chars.map Char.toUInt8) :
    Faithful (serdeJson t (ascii (String.ofList chars))) t := by
  refine faithful_serdeJson ?_
  rw [ascii, String.toList_ofList]
  exact h

def orderedBody : Json := .object [("b", .number (.posInt 1)), ("a", .null)]

def orderedFrame : Adapter.Envelope := ⟨1, .request, 7, "health", some orderedBody, none⟩

def orderedText : Bytes :=
  ascii "\x7b\"version\":1,\"kind\":\"request\",\"id\":7,\"method\":\"health\",\"body\":\x7b\"b\":1,\"a\":null\x7d\x7d"

theorem framing_of_two_chunks :
    ∃ ds, List.Forall₂ Adapter.Envelope.Same [orderedFrame] ds ∧
      Lines.results (Adapter.Decoder.decode (serdeJson orderedFrame.toJson orderedText)) 2
          (twoChunks (orderedText.take 9) (orderedText.drop 9 ++ [newline]) (by decide) (by decide)) =
        ds.map (fun d => .ok (some d)) ++ [.ok none] := by
  have hrep : ¬ orderedBody.RepeatsKey := by
    rw [← Strict.visit_error_iff]
    rintro ⟨e, he⟩
    simp [orderedBody, Strict.visit, Strict.visitMap, Strict.visitNumber, Strict.visitU64] at he
  obtain ⟨ds, hsame, hres, -⟩ := (framing (serdeJson orderedFrame.toJson orderedText)).2.1
    [orderedFrame] [orderedText ++ [newline]]
    (twoChunks (orderedText.take 9) (orderedText.drop 9 ++ [newline]) (by decide) (by decide))
    (by
      intro e he
      rw [List.mem_singleton] at he
      subst he
      refine ⟨rfl, ⟨by simp [orderedFrame, orderedBody], ?_⟩, faithful_ascii (by decide)⟩
      intro t ht
      cases ht
      exact hrep)
    (.cons rfl .nil) rfl (by
      simp only [twoChunks, Lines.Source.bytes, List.flatten_cons, List.flatten_nil, List.append_nil]
      rw [← List.append_assoc, List.take_append_drop]) 1
  exact ⟨ds, hsame, hres⟩

/-- A frame in one chunk. -/
def oneChunk (text : Bytes) : Reader where
  chunks := [text ++ [newline]]
  failure := none
  nonempty := by simp

def nullFrame : Plugin.Envelope := ⟨1, 7, "health", some .null, none⟩

def nullText : Bytes :=
  ascii "\x7b\"version\":1,\"id\":7,\"method\":\"health\",\"body\":null\x7d"

def adapterNullFrame : Adapter.Envelope := ⟨1, .request, 7, "health", some .null, none⟩

def adapterNullText : Bytes :=
  ascii "\x7b\"version\":1,\"kind\":\"request\",\"id\":7,\"method\":\"health\",\"body\":null\x7d"

def repeatedBody : Json := .object [("a", .number (.posInt 1)), ("a", .number (.posInt 2))]

def repeatedFrame : Adapter.Envelope := ⟨1, .request, 7, "health", some repeatedBody, none⟩

def repeatedText : Bytes :=
  ascii "\x7b\"version\":1,\"kind\":\"request\",\"id\":7,\"method\":\"health\",\"body\":\x7b\"a\":1,\"a\":2\x7d\x7d"

/-- The one result is that of the one envelope. -/
theorem same_of_results_one {Same : E → E → Prop} {e d₀ : E} {ds : List E}
    (hsame : List.Forall₂ Same [e] ds) {results : List (Except W (Option E))}
    (hres : results = ds.map (fun d => .ok (some d)) ++ List.replicate 0 (.ok none))
    (hone : results = [.ok (some d₀)]) : Same e d₀ := by
  obtain ⟨d, rfl, hd⟩ := exists_of_forall₂_singleton hsame
  rw [hone] at hres
  simp only [List.map_cons, List.map_nil, List.replicate_zero, List.append_nil, List.cons.injEq,
    Except.ok.injEq, Option.some.injEq, and_true] at hres
  exact hres ▸ hd

theorem results_ne_error {ds : List E} {results : List (Except W (Option E))} {w : W}
    (hres : results = ds.map (fun d => .ok (some d)) ++ List.replicate 0 (.ok none)) :
    results ≠ [.error w] := by
  intro hone
  have hmem : .error w ∈ results := by simp [hone]
  rw [hres] at hmem
  simp at hmem

/-- A body `null` comes back as no body, and the adapter codec does not decode a body that repeats a
    key. -/
theorem not_roundTrips :
    (¬ ∀ J, RoundTrips J (plugin J) fun _ => True) ∧
    (¬ ∀ J, RoundTrips J (adapter J) fun e => ∀ t, e.body = some t → ¬ t.RepeatsKey) ∧
    ¬ ∀ J, RoundTrips J (adapter J) fun e => e.body ≠ some .null := by
  refine ⟨fun h => ?_, fun h => ?_, fun h => ?_⟩
  · obtain ⟨ds, hsame, hres, -⟩ := h (serdeJson nullFrame.toJson nullText) [nullFrame]
      [nullText ++ [newline]] (oneChunk nullText)
      (List.forall_mem_singleton.mpr ⟨rfl, trivial, faithful_ascii (by decide)⟩)
      (.cons rfl .nil) rfl (List.append_nil _) 0
    have hone : Lines.results (plugin (serdeJson nullFrame.toJson nullText)).decode 1
        (oneChunk nullText) = [.ok (some ⟨1, 7, "health", none, none⟩)] := rfl
    have hbody := (same_of_results_one hsame hres hone).2.2.2.2
    cases hbody
  · obtain ⟨ds, hsame, hres, -⟩ := h (serdeJson adapterNullFrame.toJson adapterNullText)
      [adapterNullFrame] [adapterNullText ++ [newline]] (oneChunk adapterNullText)
      (List.forall_mem_singleton.mpr ⟨rfl, fun t ht hr => (by cases ht; cases hr),
        faithful_ascii (by decide)⟩)
      (.cons rfl .nil) rfl (List.append_nil _) 0
    have hone : Lines.results (adapter (serdeJson adapterNullFrame.toJson adapterNullText)).decode 1
        (oneChunk adapterNullText) = [.ok (some ⟨1, .request, 7, "health", none, none⟩)] := rfl
    have hbody := (same_of_results_one hsame hres hone).2.2.2.2.2
    cases hbody
  · obtain ⟨ds, -, hres, -⟩ := h (serdeJson repeatedFrame.toJson repeatedText) [repeatedFrame]
      [repeatedText ++ [newline]] (oneChunk repeatedText)
      (List.forall_mem_singleton.mpr ⟨rfl, by simp [repeatedFrame, repeatedBody],
        faithful_ascii (by decide)⟩)
      (.cons rfl .nil) rfl (List.append_nil _) 0
    have hone : Lines.results (adapter (serdeJson repeatedFrame.toJson repeatedText)).decode 1
        (oneChunk repeatedText) = [.error .decode] := rfl
    exact results_ne_error hres hone

/-! ## Repeated keys -/

/-- `StrictValue` rejects a tree exactly when an object in it repeats a key, and what it returns has
    the structure, the members and the scalars of the tree. So readers that take the first or the
    last of several members read an accepted frame alike. -/
theorem strict_json (t : Json) :
    ((∃ e, Strict.visit t = .error e) ↔ t.RepeatsKey) ∧
    (∀ v, Strict.visit t = .ok v → t.Denotes v) ∧
    ∀ (J : SerdeJson) bytes e, J.fromSlice bytes = .ok t →
      Adapter.decodeEnvelope J bytes = .ok e → t.read .first = t.read .last := by
  refine ⟨Strict.visit_error_iff t, fun v hv => (Strict.visit_ok hv).denotes, ?_⟩
  intro J bytes e hparse hdec
  simp only [Adapter.decodeEnvelope, hparse] at hdec
  cases hv : Strict.visit t with
  | error x => simp [hv] at hdec
  | ok v =>
    have hret := Strict.visit_ok hv
    rw [hret.read .first, hret.read .last]

end Oikade.Codec
