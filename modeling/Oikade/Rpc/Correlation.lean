/-
  Request correlation: which response each request of either side gets.

  `Correlated` says it of a state, for calls and commands. `correlated` proves it of every state of
  every run, and that a command of which a frame was sent is answered once in every fair run of a
  session that does not end.
-/
import Oikade.Rpc.Progress

namespace Oikade.Rpc

open Session (CallId Envelope Accepts)

structure Correlated (F : Formats) (w : World) : Prop where
  /-- a call that returns `Ok` returns the body of the one response to its own request -/
  calls : ∀ (k : CallId) request body, w.host.calls[k]? = some (.returned request (.ok body)) →
    ∃ e, (k, e) ∈ w.ledger.handled ∧ (∀ e', (k, e') ∈ w.ledger.handled → e' = e) ∧
      (k, e.id) ∈ w.ledger.issued ∧ Accepts request e body
  /-- a command completed with a value is completed with what `write_value` returned for it, as the
      wire format gives it back -/
  commands : ∀ c v source, (c, .ok v, source) ∈ w.ledger.completed →
    ∃ effective body, Effected F w.ledger c effective ∧
      F.encodeResponse (Adapter.valueToApi effective) = .ok body ∧ F.decodeResponse body = .ok v ∧
      (F.decodeResponse body = .ok (Adapter.valueToApi effective) → v = Adapter.valueToApi effective)
  /-- no two requests of the host share an identifier -/
  issuedOnce : (w.ledger.issued.map Prod.fst).Nodup ∧ (w.ledger.issued.map Prod.snd).Nodup
  /-- a response to a call is used once, and for the request it answers -/
  consumedOnce : (w.ledger.consumed.map Prod.fst).Nodup ∧
    ∀ (k : CallId) id, (k, some id) ∈ w.ledger.consumed → (k, id) ∈ w.ledger.issued
  /-- a command is completed once, and by no response but its own -/
  completedOnce : (w.ledger.completed.map Prod.fst).Nodup ∧ (taken w.ledger.completed).Nodup ∧
    ∀ c result c', (c, result, some c') ∈ w.ledger.completed → c = c'
  /-- there is a response only to a command that was sent, and at most one -/
  repliedOnce : w.ledger.replied.Nodup ∧ ∀ c ∈ w.ledger.replied, c ∈ w.ledger.sent
  /-- a command that was sent has its one response, or its frame or its task has not been dealt
      with, unless the session has failed -/
  answered : w.host.failure.isSome = false → ∀ c ∈ w.ledger.sent,
    w.ledger.replied.count c = 1 ∨ w.inStream c ∨ ∃ t ∈ w.tasks, t.token = c ∧ t.pc ≠ .ended

section Correlated

variable {F : Formats} {w : World}

theorem handled_unique (h : CallsOk w) {k : CallId} {e e' : Envelope} (he : (k, e) ∈ w.ledger.handled)
    (he' : (k, e') ∈ w.ledger.handled) : e' = e := by
  have hnodup := (List.nodup_append.mp h.flow.handledOnce).2.1
  exact congrArg Prod.snd (List.inj_on_of_nodup_map hnodup he' he rfl)

theorem sent_nodup (h : SideOk F w) : (w.adapter.pending.map Prod.snd ++
    w.ledger.completed.map Prod.fst).Nodup := by
  have hnodup := h.commands.accounted.nodup_iff.mp h.commands.once
  rw [List.append_assoc, List.nodup_append] at hnodup
  exact hnodup.2.1

/-- The commands that responses have completed are among the completed ones. -/
theorem taken_sublist (h : SideOk F w) :
    List.Sublist (taken w.ledger.completed) (w.ledger.completed.map Prod.fst) := by
  have hsource := h.commands.source
  generalize w.ledger.completed = completed at hsource
  induction completed with
  | nil => exact List.Sublist.slnil
  | cons r rs ih =>
    have ih := ih fun r' hr' => hsource r' (List.mem_cons_of_mem _ hr')
    simp only [taken, List.filterMap_cons, List.map_cons]
    cases hr : r.2.2 with
    | none => exact ih.cons _
    | some c =>
      rw [hsource r List.mem_cons_self c hr]
      exact ih.cons_cons _

theorem replied_nodup (h : SideOk F w) : w.ledger.replied.Nodup := by
  have hsplit := List.nodup_append.mp (sent_nodup h)
  have hperm := (h.commands.matched.map Prod.snd)
  refine h.commands.replied.nodup_iff.mpr (List.nodup_append.mpr ⟨?_, ?_, ?_⟩)
  · have hnodup := h.commands.tokens.1
    rw [List.map_append] at hnodup
    exact (List.nodup_append.mp hnodup).2.1
  · exact hsplit.2.1.sublist (taken_sublist h)
  · intro c hc c' hc'
    refine hsplit.2.2 c ?_ c' ((taken_sublist h).subset hc')
    refine hperm.mem_iff.mp ?_
    rw [List.map_append]
    exact List.mem_append_right _ hc

theorem sent_of_replied (h : SideOk F w) {c : Token} (hc : c ∈ w.ledger.replied) :
    c ∈ w.ledger.sent := by
  refine h.commands.sent.mem_iff.mpr ?_
  obtain hc | hc := List.mem_append.mp (h.commands.replied.mem_iff.mp hc)
  · refine List.mem_append_left _ ((h.commands.matched.map Prod.snd).mem_iff.mp ?_)
    rw [List.map_append]
    exact List.mem_append_right _ hc
  · exact List.mem_append_right _ hc

/-- What is in the queues to the adapter or has completed a command was replied. -/
theorem replied_of_place (h : SideOk F w) {c : Token}
    (hc : w.inOutbound c ∨ w.inReturn c ∨ c ∈ taken w.ledger.completed) : c ∈ w.ledger.replied := by
  rw [World.inOutbound, answers_iff, World.inReturn, answers_iff] at hc
  refine h.commands.replied.mem_iff.mpr ?_
  simp only [World.replies, List.map_append, List.mem_append]
  tauto

theorem correlated_of_ok (h : WorldOk F w) : Correlated F w where
  calls k request body hk := by
    obtain ⟨e, he, haccepts⟩ := h.calls.host.returned k request body hk
    exact ⟨e, he, fun e' he' => handled_unique h.calls he he', h.calls.flow.answers (k, e) he, haccepts⟩
  commands c v source hm := by
    obtain ⟨effective, body, heff, henc, hdec⟩ := h.side.completed (c, .ok v, source) hm v rfl
    refine ⟨effective, body, heff, henc, hdec, fun hround => ?_⟩
    rw [hdec, Except.ok.injEq] at hround
    exact hround
  issuedOnce := ⟨h.calls.host.once, h.calls.host.ids⟩
  consumedOnce := ⟨(List.nodup_append.mp h.calls.flow.consumedOnce).2.1,
    fun k id hm => (h.calls.flow.receivers (k, some id) hm).2 id rfl⟩
  completedOnce := by
    have hnodup := (List.nodup_append.mp (sent_nodup h.side)).2.1
    exact ⟨hnodup, hnodup.sublist (taken_sublist h.side), fun c result c' hm =>
      h.side.commands.source (c, result, some c') hm c' rfl⟩
  repliedOnce := ⟨replied_nodup h.side, fun _ hc => sent_of_replied h.side hc⟩
  answered hlive c hc := by
    obtain hin | ⟨t, ht, htc⟩ | hin := place_of_sent h.side hc
    · exact .inr (.inl hin)
    · refine .inr (.inr ⟨t, ht, htc, fun hpc => ?_⟩)
      have hfailed := h.side.closed (.inr ⟨t, ht, hpc⟩)
      simp [hlive] at hfailed
    · exact .inl (List.count_eq_one_of_mem (replied_nodup h.side) (replied_of_place h.side hin))

end Correlated

/-- Every request gets its own response, on both sides of the stream. In every run a call returns
    the body of the response to its request and a command is completed with its effective value; and
    in a fair run of a session that does not end every command frame is answered, once. -/
theorem correlated (F : Formats) :
    (∀ as w, run F World.spawn as = some w → Correlated F w) ∧
    ∀ ρ as, Goes F ρ as → ∀ n, ∀ c ∈ (ρ n).ledger.sent,
      ∃ m, n ≤ m ∧ (ρ m).ledger.replied.count c = 1 ∧ c ∈ taken (ρ m).ledger.completed := by
  constructor
  · intro as w hrun
    exact correlated_of_ok
      (Machine.run_inv (P := WorldOk F) (fun _ _ _ h hs => worldOk_step h hs) worldOk_spawn hrun)
  · intro ρ as h n c hc
    obtain ⟨m, hm, htaken⟩ := h.completes hc
    have hside := (h.ok m).side
    exact ⟨m, hm, List.count_eq_one_of_mem (replied_nodup hside)
      (replied_of_place hside (.inr (.inr htaken))), htaken⟩

/-! ## A session with overlapping identifiers -/

def lampOn : CommandRequest := ⟨"lamp", "on", Adapter.valueToApi (.bool true)⟩

def lampOnText : String := "\x7b\"deviceId\":\"lamp\",\"capabilityId\":\"on\",\"value\":\x7b\"kind\":\"bool\",\"bool\":true\x7d\x7d"

def onText : String := "\x7b\"kind\":\"bool\",\"bool\":true\x7d"

/-- serde_json on the texts of one command. -/
def lampFormats : Formats where
  encodeCommand request := if request = lampOn then .ok lampOnText else .error "other"
  decodeCommand text := if text = lampOnText then .ok lampOn else .error "other"
  encodeResponse value := if value = lampOn.value then .ok onText else .error "other"
  decodeResponse text := if text = onText then .ok lampOn.value else .error "other"
  modelError _ := "invalid identifier"
  runtimeError _ := "stopped"
  debug text := text

def healthCall : Session.Request := ⟨"health", .ok (), .ok⟩

/-- Call `0` and command `7` are both sent as request `1`, and are answered in the other order. -/
def overlap : List Action :=
  [.receive, .start 0 healthCall, .advance 0, .submit 7 lampOn, .forward, .advance 0, .write, .take,
    .receive, .dispatch 0, .answer (.ok "healthy"), .written 0 (.ok (.bool true)), .receive, .reply 0,
    .write, .read, .read, .take, .advance 0]

/-- The session after it. -/
def overlapped : World := (run lampFormats World.spawn overlap).get (by decide)

theorem run_overlap : run lampFormats World.spawn overlap = some overlapped := (Option.some_get _).symm

/-- No process can move in `overlapped`. -/
theorem overlapped_stuck (p : Process) : ¬ Machine.Enabled (step lampFormats) p.Moves overlapped := by
  rintro ⟨a, hmove, hsome⟩
  cases p with
  | readLoop =>
    obtain rfl | rfl := hmove
    · exact absurd hsome (by decide)
    · exact absurd hsome (by decide)
  | writeLoop =>
    obtain rfl : a = .write := hmove
    exact absurd hsome (by decide)
  | requestLoop =>
    obtain rfl | ⟨outcome, rfl⟩ := hmove
    · exact absurd hsome (by decide)
    · have hnone : step lampFormats overlapped (.answer outcome) = none := rfl
      simp [hnone] at hsome
  | task c =>
    obtain ⟨i, t, hi, -⟩ := hmove
    have hnil : overlapped.tasks = [] := rfl
    simp [hnil] at hi

/-- The session and both loops of the adapter go on. -/
def World.alive (w : World) : Bool :=
  w.host.failure.isNone && w.adapter.writer && match w.adapter.loop with
    | .exited => false
    | .select | .handling .. => true

theorem not_ended_of_alive {w : World} (h : w.alive = true) : ¬ w.Ended := by
  rintro (hf | hl | hw)
  · simp [World.alive, ← Option.not_isSome, hf] at h
  · simp [World.alive, hl] at h
  · simp [World.alive, hw] at h

/-- The session goes on for ever. -/
theorem goes_overlap : Goes lampFormats (Machine.extend (step lampFormats) World.spawn overlap)
    fun n => overlap.getD n (.setPid 0) where
  spawn := rfl
  behaves := Machine.behaves_extend run_overlap rfl
  fair p := Machine.fair_extend run_overlap (overlapped_stuck p)
  endless n := by
    refine not_ended_of_alive ?_
    by_cases hn : overlap.length ≤ n
    · rw [Machine.extend_of_le run_overlap hn]
      decide
    · have hall : ∀ i < overlap.length,
          (Machine.extend (step lampFormats) World.spawn overlap i).alive = true := by decide
      exact hall n (by omega)

theorem correlated_overlap :
    overlapped.ledger.issued = [(0, 1)] ∧
      overlapped.host.calls[0]? = some (.returned healthCall (.ok "healthy")) ∧
      overlapped.ledger.completed = [(7, .ok lampOn.value, some 7)] ∧
      Correlated lampFormats overlapped ∧
      ∃ m, 5 ≤ m ∧ (Machine.extend (step lampFormats) World.spawn overlap m).ledger.replied.count 7 = 1 := by
  refine ⟨rfl, rfl, rfl, (correlated lampFormats).1 overlap overlapped run_overlap, ?_⟩
  obtain ⟨m, hm, hcount, -⟩ := (correlated lampFormats).2 _ _ goes_overlap 5 7 (by decide)
  exact ⟨m, hm, hcount⟩

end Oikade.Rpc
