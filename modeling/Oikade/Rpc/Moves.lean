/-
  Where a command is, and what a step does to that.

  A command goes through four places: the stream to the host, a task, the outbound queue, the stream
  to the adapter. `Moved` is what a step can do to these places, as long as the session does not end;
  `WorldOk` is the invariant of both sides. A command that was sent is in one of the places or has
  been completed by its response (`place_of_sent`), and goes through them in order (`places_step`).
-/
import Oikade.Rpc.Commands

namespace Oikade.Rpc

open Session (Sys Envelope CallId)

/-! ## What a step does to the places of the commands -/

/-- The session has failed, or the adapter does not go on with it. -/
def World.Ended (w : World) : Prop :=
  w.host.failure.isSome = true ∨ w.adapter.loop = .exited ∨ w.adapter.writer = false

/-- A step of the task at `i`. -/
def TaskAction (i : Nat) (a : Action) : Prop :=
  a = .dispatch i ∨ (∃ result, a = .written i result) ∨ a = .reply i

/-- How far a task is from its end. -/
def TaskPc.rank : TaskPc → Nat
  | .spawned => 3
  | .writing _ => 2
  | .sending .. => 1
  | .ended => 0

/-- The task that a frame is dispatched to. -/
def AdapterFrame.spawned : AdapterFrame → List Task
  | .request id method body c => [⟨id, method, body, c, .spawned⟩]
  | .hello | .response .. => []

/-- The read loop after a frame. -/
def AdapterFrame.reader : AdapterFrame → Session.Reader
  | .response e _ => .ignored e
  | .hello | .request .. => .decoding

/-- An action that is no move of a process, or leaves the places alone. -/
def Action.Quiet : Action → Prop
  | .receive | .write | .take | .answer _ | .dispatch _ | .written .. | .reply _ => False
  | _ => True

inductive Moved (w w' : World) : Action → Prop where
  | ended {a : Action} (h : w'.Ended) : Moved w w' a
  | still {a : Action} (ha : a.Quiet) (hto : w'.toHost = w.toHost) (htasks : w'.tasks = w.tasks)
      (hout : ∃ frames, w'.outbound = w.outbound ++ frames ∧
        frames.filterMap HostFrame.command = [] ∧
        (frames = [] ∨ w.outbound.length < outboundQueue))
      (hin : w'.toAdapter = w.toAdapter) (hloop : w'.adapter.loop = w.adapter.loop) : Moved w w' a
  | received (frame : AdapterFrame) (hr : w.host.reader = .decoding) (hto : w.toHost = frame :: w'.toHost)
      (htasks : w'.tasks = w.tasks ++ frame.spawned) (hr' : w'.host.reader = frame.reader)
      (hout : w'.outbound = w.outbound) (hin : w'.toAdapter = w.toAdapter)
      (hloop : w'.adapter.loop = w.adapter.loop) : Moved w w' .receive
  | ran {a : Action} {i : Nat} {t : Task} {pc : TaskPc} (hi : w.tasks[i]? = some t)
      (ha : TaskAction i a) (htasks : w'.tasks = w.tasks.set i { t with pc })
      (hrank : pc.rank < t.pc.rank) (hto : w'.toHost = w.toHost) (hout : w'.outbound = w.outbound)
      (hin : w'.toAdapter = w.toAdapter) (hloop : w'.adapter.loop = w.adapter.loop) : Moved w w' a
  | replied {i : Nat} {t : Task} (e : Envelope) (hi : w.tasks[i]? = some t)
      (htasks : w'.tasks = w.tasks.eraseIdx i)
      (hout : w'.outbound = w.outbound ++ [.response e t.token])
      (hroom : w.outbound.length < outboundQueue) (hto : w'.toHost = w.toHost)
      (hin : w'.toAdapter = w.toAdapter) (hloop : w'.adapter.loop = w.adapter.loop) :
      Moved w w' (.reply i)
  | wrote (frame : HostFrame) (hout : w.outbound = frame :: w'.outbound)
      (hin : w'.toAdapter = w.toAdapter ++ [frame]) (hto : w'.toHost = w.toHost)
      (htasks : w'.tasks = w.tasks) (hloop : w'.adapter.loop = w.adapter.loop) : Moved w w' .write
  | took (frame : HostFrame) (hl : w.adapter.loop = .select) (hin : w.toAdapter = frame :: w'.toAdapter)
      (hto : w'.toHost = w.toHost) (htasks : w'.tasks = w.tasks) (hout : w'.outbound = w.outbound) :
      Moved w w' .take
  | answered {outcome : Except ProtocolError String} (id : Nat) (method : String) (k : CallId)
      (e : Envelope) (hl : w.adapter.loop = .handling id method k) (hl' : w'.adapter.loop = .select)
      (hto : w'.toHost = w.toHost ++ [.response e k]) (htasks : w'.tasks = w.tasks)
      (hout : w'.outbound = w.outbound) (hin : w'.toAdapter = w.toAdapter) :
      Moved w w' (.answer outcome)
  | forwarded (id : Nat) (method : String) (body : Option String) (c : Token)
      (hc : c ∈ w.adapter.commands.map Prod.fst)
      (hto : w'.toHost = w.toHost ++ [.request id method body c]) (htasks : w'.tasks = w.tasks)
      (hout : w'.outbound = w.outbound) (hin : w'.toAdapter = w.toAdapter)
      (hloop : w'.adapter.loop = w.adapter.loop) : Moved w w' .forward

section Moved

variable {F : Formats} {w w' : World}

theorem moved_session {a : Session.Action} {b : Action} (hb : b.Quiet) (hs : w.session a = some w') :
    Moved w w' b := by
  obtain ⟨host, -, rfl⟩ := Option.map_eq_some_iff.mp hs
  exact .still hb rfl rfl ⟨[], (List.append_nil _).symm, rfl, .inl rfl⟩ rfl rfl

theorem moved_advance {k : CallId} (hs : w.advance k = some w') : Moved w w' (.advance k) := by
  unfold World.advance at hs
  split at hs
  · rename_i request id hk
    split at hs
    · rename_i hroom
      obtain ⟨host, -, rfl⟩ := Option.map_eq_some_iff.mp hs
      exact .still trivial rfl rfl ⟨[.request id request.method k], rfl, rfl, .inr hroom.2⟩ rfl rfl
    · cases hs
  · exact moved_session trivial hs

theorem moved_refuse {k : CallId} (hs : w.refuse k = some w') : Moved w w' (.refuse k) := by
  unfold World.refuse at hs
  split at hs
  · split at hs
    · cases hs
    · exact moved_session trivial hs
  · exact moved_session trivial hs

theorem moved_read (hs : w.read = some w') : Moved w w' .read := by
  obtain ⟨host, -, rfl⟩ := Option.map_eq_some_iff.mp hs
  split
  all_goals exact .still trivial rfl rfl ⟨[], (List.append_nil _).symm, rfl, .inl rfl⟩ rfl rfl

theorem moved_receive (hc : CallsOk w) (h : SideOk F w) (hs : w.receive = some w') :
    Moved w w' .receive := by
  unfold World.receive at hs
  split at hs
  · rename_i rest hr hto
    simp only [World.session, Session.step_receive _ _ hr] at hs
    obtain ⟨host, hstep, rfl⟩ := Option.map_eq_some_iff.mp hs
    obtain rfl | ⟨-, f, rfl⟩ := Session.receive_hello hstep
    · exact .received .hello hr hto (List.append_nil _).symm hr rfl rfl rfl
    · exact .ended (.inl (Session.isSome_failReader _ _))
  · rename_i e k rest hr hto
    have hhello := hello_of_head hc hto (by simp)
    simp only [World.session, Session.step_receive _ _ hr] at hs
    obtain ⟨host, hstep, rfl⟩ := Option.map_eq_some_iff.mp hs
    obtain rfl := Session.receive_response hhello hstep
    exact .received (.response e k) hr hto (List.append_nil _).symm rfl rfl rfl rfl
  · rename_i id method body c rest hr hto
    have hhello := hello_of_head hc hto (by simp)
    have hm := (h.frames id method body c (by simp [hto])).1
    rw [if_pos ⟨hhello, hm⟩] at hs
    simp only [World.session, Session.step_receive _ _ hr] at hs
    obtain ⟨host, hstep, rfl⟩ := Option.map_eq_some_iff.mp hs
    obtain ⟨-, -, rfl⟩ | ⟨-, f, rfl⟩ := Session.receive_request hstep
    · exact .received (.request id method body c) hr hto rfl hr rfl rfl rfl
    · exact .ended (.inl (Session.isSome_failReader _ _))
  · cases hs

theorem moved_dispatch {i : Nat} {t : Task} (hi : w.tasks[i]? = some t) (hpc : t.pc = .spawned) :
    Moved w (w.dispatch F i t) (.dispatch i) := by
  have hput : ∀ pc : TaskPc, pc.rank < 3 → Moved w (w.putTask i t pc) (.dispatch i) := fun pc hpc' =>
    .ran hi (.inl rfl) rfl (by rw [hpc]; exact hpc') rfl rfl rfl rfl
  unfold World.dispatch
  split
  · split
    · exact hput _ (by simp [TaskPc.rank])
    · split
      · exact hput _ (by simp [TaskPc.rank])
      · split
        · exact hput _ (by simp [TaskPc.rank])
        · exact hput _ (by simp [TaskPc.rank])
  · exact hput _ (by simp [TaskPc.rank])

theorem moved_written {i : Nat} {t : Task} {command : Core.Command} (hi : w.tasks[i]? = some t)
    (hpc : t.pc = .writing command) {result : Except Core.RuntimeError Core.Value}
    (hs : w.written F i t command result = some w') : Moved w w' (.written i result) := by
  have hput : ∀ pc : TaskPc, pc.rank < 2 →
      Moved w ((w.execute t.token command result).putTask i t pc) (.written i result) :=
    fun pc hpc' => .ran hi (.inr (.inl ⟨result, rfl⟩)) rfl (by rw [hpc]; exact hpc') rfl rfl rfl rfl
  simp only [World.written] at hs
  split at hs
  · cases hs
    exact hput _ (by simp [TaskPc.rank])
  · split at hs
    · obtain ⟨host, hstep, rfl⟩ := Option.map_eq_some_iff.mp hs
      exact .ended (.inl (Session.isSome_failure_fail hstep))
    · cases hs
      exact hput _ (by simp [TaskPc.rank])

theorem moved_reply {i : Nat} {t : Task} {e : Envelope} {permit : Bool} (hi : w.tasks[i]? = some t)
    (hpc : t.pc = .sending e permit) (hs : w.reply i t e = some w') : Moved w w' (.reply i) := by
  unfold World.reply at hs
  split at hs
  · split at hs
    · rename_i hroom
      cases hs
      exact .replied e hi rfl rfl hroom rfl rfl rfl
    · cases hs
  · cases hs
    exact .ran hi (.inr (.inr rfl)) rfl (by simp [hpc, TaskPc.rank]) rfl rfl rfl rfl

theorem moved_write (hs : w.write = some w') : Moved w w' .write := by
  unfold World.write at hs
  split at hs
  · rename_i frame rest hw hout
    cases hs
    exact .wrote frame hout rfl rfl rfl rfl
  · cases hs

theorem moved_take (hs : w.take F = some w') : Moved w w' .take := by
  unfold World.take at hs
  split at hs
  · rename_i id method k rest hl hin
    cases hs
    exact .took _ hl hin rfl rfl rfl
  · rename_i e c rest hl hin
    cases hs
    split
    · exact .ended (.inr (.inl rfl))
    · split
      · exact .ended (.inr (.inl rfl))
      · exact .took _ hl hin rfl rfl rfl
  · cases hs

theorem moved_answer {outcome : Except ProtocolError String} (hs : w.answer outcome = some w') :
    Moved w w' (.answer outcome) := by
  unfold World.answer at hs
  split at hs
  · rename_i id method k hl
    cases hs
    split
    · by_cases hm : method = methodShutdown
      · exact .ended (.inr (.inl (if_pos hm)))
      · exact .answered id method k _ hl (if_neg hm) rfl rfl rfl rfl
    · exact .ended (.inr (.inl rfl))
  · cases hs

theorem moved_forward (hs : w.forward F = some w') : Moved w w' .forward := by
  unfold World.forward at hs
  split at hs
  · rename_i c request rest hl hq
    simp only [Option.some.injEq] at hs
    subst hs
    split
    · exact .still trivial rfl rfl ⟨[], (List.append_nil _).symm, rfl, .inl rfl⟩ rfl rfl
    · split
      · exact .forwarded _ _ _ c (by simp [hq]) rfl rfl rfl rfl rfl
      · exact .ended (.inr (.inl rfl))
  · cases hs

theorem moved_step (hc : CallsOk w) (h : SideOk F w) {a : Action} (hs : step F w a = some w') :
    Moved w w' a := by
  cases a with
  | start k request => exact moved_session trivial hs
  | advance k => exact moved_advance hs
  | refuse k => exact moved_refuse hs
  | drop k => exact moved_session trivial hs
  | receive => exact moved_receive hc h hs
  | lose message => exact moved_session trivial hs
  | read => exact moved_read hs
  | fail message => exact moved_session trivial hs
  | drain => exact moved_session trivial hs
  | setPid pid => exact moved_session trivial hs
  | dispatch i =>
    obtain ⟨t, hi, hpc, rfl⟩ := dispatch_eq_some.mp hs
    exact moved_dispatch hi hpc
  | written i result =>
    obtain ⟨t, command, hi, hpc, hs⟩ := written_eq_some.mp hs
    exact moved_written hi hpc hs
  | reply i =>
    obtain ⟨t, e, permit, hi, hpc, hs⟩ := reply_eq_some.mp hs
    exact moved_reply hi hpc hs
  | write => exact moved_write hs
  | writeError message =>
    simp only [step] at hs
    split at hs
    · obtain ⟨host, hstep, rfl⟩ := Option.map_eq_some_iff.mp hs
      exact .ended (.inl (Session.isSome_failure_fail hstep))
    · cases hs
  | submit c request =>
    simp only [step, World.submit] at hs
    split at hs
    · cases hs
      exact .still trivial rfl rfl ⟨[], (List.append_nil _).symm, rfl, .inl rfl⟩ rfl rfl
    · cases hs
  | take => exact moved_take hs
  | answer outcome => exact moved_answer hs
  | forward => exact moved_forward hs
  | leave =>
    cases hs
    exact .ended (.inr (.inl rfl))
  | sever =>
    cases hs
    exact .ended (.inr (.inr rfl))

/-- What a move does to the frames for the host. -/
theorem Moved.toHost_cases {a : Action} (h : Moved w w' a) (hend : ¬ w'.Ended) :
    (a = .receive ∧ w.host.reader = .decoding ∧
      ∃ frame, w.toHost = frame :: w'.toHost ∧ w'.host.reader = frame.reader) ∨
    (a ≠ .receive ∧ ∃ frames, w'.toHost = w.toHost ++ frames) := by
  have hsame : w'.toHost = w.toHost → ∃ frames, w'.toHost = w.toHost ++ frames := fun heq =>
    ⟨[], by rw [heq, List.append_nil]⟩
  cases h with
  | ended he => exact absurd he hend
  | received frame hr hto htasks hr' hout hback hloop => exact .inl ⟨rfl, hr, frame, hto, hr'⟩
  | answered id method k e hl hl' hto htasks hout hback => exact .inr ⟨by simp, _, hto⟩
  | forwarded id method body c hc hto htasks hout hback hloop => exact .inr ⟨by simp, _, hto⟩
  | still ha hto htasks hout hback hloop =>
    refine .inr ⟨?_, hsame hto⟩
    rintro rfl
    exact ha.elim
  | ran hi ha htasks hrank hto hout hback hloop =>
    refine .inr ⟨?_, hsame hto⟩
    rintro rfl
    simp [TaskAction] at ha
  | replied e hi htasks hout hroom hto hback hloop => exact .inr ⟨by simp, hsame hto⟩
  | wrote frame hout hback hto htasks hloop => exact .inr ⟨by simp, hsame hto⟩
  | took frame hl hback hto htasks hout => exact .inr ⟨by simp, hsame hto⟩

/-- What a move does to the outbound queue. -/
theorem Moved.outbound_cases {a : Action} (h : Moved w w' a) (hend : ¬ w'.Ended) :
    (a = .write ∧ ∃ frame, w.outbound = frame :: w'.outbound) ∨
    (a ≠ .write ∧ ∃ frames, w'.outbound = w.outbound ++ frames ∧
      (frames = [] ∨ w.outbound.length < outboundQueue)) := by
  have hsame : w'.outbound = w.outbound → ∃ frames, w'.outbound = w.outbound ++ frames ∧
      (frames = [] ∨ w.outbound.length < outboundQueue) := fun heq =>
    ⟨[], by rw [heq, List.append_nil], .inl rfl⟩
  cases h with
  | ended he => exact absurd he hend
  | wrote frame hout hback hto htasks hloop => exact .inl ⟨rfl, frame, hout⟩
  | still ha hto htasks hout hback hloop =>
    obtain ⟨frames, hout, -, hroom⟩ := hout
    refine .inr ⟨?_, frames, hout, hroom⟩
    rintro rfl
    exact ha.elim
  | replied e hi htasks hout hroom hto hback hloop =>
    exact .inr ⟨by simp, _, hout, .inr hroom⟩
  | ran hi ha htasks hrank hto hout hback hloop =>
    refine .inr ⟨?_, hsame hout⟩
    rintro rfl
    simp [TaskAction] at ha
  | received frame hr hto htasks hr' hout hback hloop => exact .inr ⟨by simp, hsame hout⟩
  | took frame hl hback hto htasks hout => exact .inr ⟨by simp, hsame hout⟩
  | answered id method k e hl hl' hto htasks hout hback => exact .inr ⟨by simp, hsame hout⟩
  | forwarded id method body c hc hto htasks hout hback hloop => exact .inr ⟨by simp, hsame hout⟩

/-- What a move does to the frames for the adapter and to its request loop. -/
theorem Moved.toAdapter_cases {a : Action} (h : Moved w w' a) (hend : ¬ w'.Ended) :
    (a = .take ∧ w.adapter.loop = .select ∧ ∃ frame, w.toAdapter = frame :: w'.toAdapter) ∨
    ((∃ outcome, a = .answer outcome) ∧ (∃ id method k, w.adapter.loop = .handling id method k) ∧
      w'.adapter.loop = .select ∧ w'.toAdapter = w.toAdapter) ∨
    (¬ (a = .take ∨ ∃ outcome, a = .answer outcome) ∧ w'.adapter.loop = w.adapter.loop ∧
      ∃ frames, w'.toAdapter = w.toAdapter ++ frames) := by
  have hsame : w'.toAdapter = w.toAdapter → ∃ frames, w'.toAdapter = w.toAdapter ++ frames :=
    fun heq => ⟨[], by rw [heq, List.append_nil]⟩
  cases h with
  | ended he => exact absurd he hend
  | took frame hl hback hto htasks hout => exact .inl ⟨rfl, hl, frame, hback⟩
  | answered id method k e hl hl' hto htasks hout hback =>
    exact .inr (.inl ⟨⟨_, rfl⟩, ⟨id, method, k, hl⟩, hl', hback⟩)
  | wrote frame hout hback hto htasks hloop =>
    exact .inr (.inr ⟨by simp, hloop, [frame], hback⟩)
  | still ha hto htasks hout hback hloop =>
    refine .inr (.inr ⟨?_, hloop, hsame hback⟩)
    rintro (rfl | ⟨outcome, rfl⟩) <;> exact ha.elim
  | ran hi ha htasks hrank hto hout hback hloop =>
    refine .inr (.inr ⟨?_, hloop, hsame hback⟩)
    rintro (rfl | ⟨outcome, rfl⟩) <;> simp [TaskAction] at ha
  | replied e hi htasks hout hroom hto hback hloop =>
    exact .inr (.inr ⟨by simp, hloop, hsame hback⟩)
  | received frame hr hto htasks hr' hout hback hloop =>
    exact .inr (.inr ⟨by simp, hloop, hsame hback⟩)
  | forwarded id method body c hc hto htasks hout hback hloop =>
    exact .inr (.inr ⟨by simp, hloop, hsame hback⟩)

end Moved

/-! ## The invariant -/

/-- The read loop has returned, or is about to. -/
def Stopped (reader : Session.Reader) : Prop := reader = .draining ∨ reader = .stopped

structure WorldOk (F : Formats) (w : World) : Prop where
  calls : CallsOk w
  side : SideOk F w
  adapter : w.host.host = .adapter
  reader : Stopped w.host.reader → w.host.failure.isSome = true

/-- The step of the session in a step of the world. -/
inductive HostStep (s s' : Sys) : Action → Prop where
  | none {a : Action} (h : s' = s) : HostStep s s' a
  | call {a : Action} {b : Session.Action} {k : CallId} (hb : b.OfCall k)
      (hs : Session.step s b = some s') : HostStep s s' a
  | other {a : Action} {b : Session.Action}
      (hb : (∃ message, b = .fail message) ∨ b = .drain ∨ ∃ pid, b = .setPid pid)
      (hs : Session.step s b = some s') : HostStep s s' a
  | receive (frame : Session.Frame) (hr : s.reader = .decoding) (hs : s.receive frame = some s') :
      HostStep s s' .receive
  | lose (message : Option String) (f : Session.Failure) (hs : s' = s.failReader f) :
      HostStep s s' (.lose message)
  | read (hs : Session.step s .read = some s') : HostStep s s' .read

section World

variable {F : Formats} {w w' : World}

theorem hostStep_call {b : Session.Action} {k : CallId} {a : Action} (hb : b.OfCall k)
    (hs : w.session b = some w') : HostStep w.host w'.host a := by
  obtain ⟨host, hstep, rfl⟩ := Option.map_eq_some_iff.mp hs
  exact .call hb hstep

theorem hostStep_other {b : Session.Action} {a : Action}
    (hb : (∃ message, b = .fail message) ∨ b = .drain ∨ ∃ pid, b = .setPid pid)
    (hs : w.session b = some w') : HostStep w.host w'.host a := by
  obtain ⟨host, hstep, rfl⟩ := Option.map_eq_some_iff.mp hs
  exact .other hb hstep

theorem hostStep_receive (hs : w.receive = some w') : HostStep w.host w'.host .receive := by
  unfold World.receive at hs
  split at hs
  · rename_i rest hr hto
    simp only [World.session, Session.step_receive _ _ hr] at hs
    obtain ⟨host, hstep, rfl⟩ := Option.map_eq_some_iff.mp hs
    exact .receive _ hr hstep
  · rename_i e k rest hr hto
    simp only [World.session, Session.step_receive _ _ hr] at hs
    obtain ⟨host, hstep, rfl⟩ := Option.map_eq_some_iff.mp hs
    exact .receive _ hr hstep
  · rename_i id method body c rest hr hto
    simp only [World.session, Session.step_receive _ _ hr] at hs
    obtain ⟨host, hstep, rfl⟩ := Option.map_eq_some_iff.mp hs
    exact .receive _ hr hstep
  · cases hs

theorem hostStep_lose {message : Option String} (hs : w.session (.receive (lost message)) = some w') :
    HostStep w.host w'.host (.lose message) := by
  obtain ⟨host, hstep, rfl⟩ := Option.map_eq_some_iff.mp hs
  cases hr : w.host.reader with
  | ignored e | pending e | draining | stopped => simp [Session.step, hr] at hstep
  | decoding =>
    rw [Session.step_receive _ _ hr] at hstep
    cases message with
    | none => exact .lose _ .closedTransport (Option.some.inj hstep).symm
    | some message => exact .lose _ (.other message) (Option.some.inj hstep).symm

theorem hostStep_step {a : Action} (hs : step F w a = some w') : HostStep w.host w'.host a := by
  cases a with
  | start k request => exact hostStep_call (.inl ⟨request, rfl⟩) hs
  | advance k =>
    simp only [step, World.advance] at hs
    split at hs
    · split at hs
      · obtain ⟨host, hstep, rfl⟩ := Option.map_eq_some_iff.mp hs
        exact .call (.inr (.inl rfl)) hstep
      · cases hs
    · exact hostStep_call (.inr (.inl rfl)) hs
  | refuse k =>
    simp only [step, World.refuse] at hs
    split at hs
    · split at hs
      · cases hs
      · exact hostStep_call (.inr (.inr (.inl rfl))) hs
    · exact hostStep_call (.inr (.inr (.inl rfl))) hs
  | drop k => exact hostStep_call (.inr (.inr (.inr rfl))) hs
  | receive => exact hostStep_receive hs
  | lose message => exact hostStep_lose hs
  | read =>
    obtain ⟨host, hstep, rfl⟩ := Option.map_eq_some_iff.mp hs
    refine .read ?_
    split <;> exact hstep
  | fail message => exact hostStep_other (.inl ⟨message, rfl⟩) hs
  | drain => exact hostStep_other (.inr (.inl rfl)) hs
  | setPid pid => exact hostStep_other (.inr (.inr ⟨pid, rfl⟩)) hs
  | dispatch i =>
    obtain ⟨t, -, -, rfl⟩ := dispatch_eq_some.mp hs
    refine .none ?_
    unfold World.dispatch
    split
    · split
      · rfl
      · split
        · rfl
        · split <;> rfl
    · rfl
  | written i result =>
    obtain ⟨t, command, -, -, hs⟩ := written_eq_some.mp hs
    simp only [World.written] at hs
    split at hs
    · cases hs
      exact .none rfl
    · split at hs
      · obtain ⟨host, hstep, rfl⟩ := Option.map_eq_some_iff.mp hs
        exact .other (.inl ⟨_, rfl⟩) hstep
      · cases hs
        exact .none rfl
  | reply i =>
    obtain ⟨t, e, permit, -, -, hs⟩ := reply_eq_some.mp hs
    unfold World.reply at hs
    split at hs
    · split at hs
      · cases hs
        exact .none rfl
      · cases hs
    · cases hs
      exact .none rfl
  | write =>
    simp only [step, World.write] at hs
    split at hs
    · cases hs
      exact .none rfl
    · cases hs
  | writeError message =>
    simp only [step] at hs
    split at hs
    · obtain ⟨host, hstep, rfl⟩ := Option.map_eq_some_iff.mp hs
      exact .other (.inl ⟨message, rfl⟩) hstep
    · cases hs
  | submit c request =>
    simp only [step, World.submit] at hs
    split at hs
    · cases hs
      exact .none rfl
    · cases hs
  | take =>
    simp only [step, World.take] at hs
    split at hs
    · cases hs
      exact .none rfl
    · cases hs
      refine .none ?_
      split
      · rfl
      · split <;> rfl
    · cases hs
  | answer outcome =>
    simp only [step, World.answer] at hs
    split at hs
    · cases hs
      refine .none ?_
      split <;> rfl
    · cases hs
  | forward =>
    simp only [step, World.forward] at hs
    split at hs
    · simp only [Option.some.injEq] at hs
      subst hs
      refine .none ?_
      split
      · rfl
      · split <;> rfl
    · cases hs
  | leave =>
    cases hs
    exact .none rfl
  | sever =>
    cases hs
    exact .none rfl

/-- Only a read loop that fails the session stops. -/
theorem stopped_step (hsound : ∀ (k : CallId) t, w.host.calls[k]? = some t → t.Sound)
    (h : Stopped w.host.reader → w.host.failure.isSome = true) {a : Action}
    (hs : HostStep w.host w'.host a) (hstop : Stopped w'.host.reader) :
    w'.host.failure.isSome = true := by
  cases hs with
  | none heq =>
    rw [heq] at hstop ⊢
    exact h hstop
  | call hb hs =>
    have hst := Session.stepped_step hb (hsound _) hs
    exact hst.failure (h (hst.reader ▸ hstop))
  | other hb hs =>
    obtain ⟨ho, hreader⟩ := Session.others_step hb hs
    exact ho.failure (h (hreader ▸ hstop))
  | receive frame hr hs =>
    have hkeep : w'.host.reader = .decoding → w'.host.failure.isSome = true := by
      intro hr'
      simp [Stopped, hr'] at hstop
    cases frame with
    | notification n =>
      simp only [Session.Sys.receive, Option.some.injEq] at hs
      split at hs
      · refine hkeep ?_
        rw [← hs]
        exact hr
      · rw [← hs]
        exact Session.isSome_failReader _ _
    | response e =>
      simp only [Session.Sys.receive, Option.some.injEq] at hs
      split at hs
      · rw [← hs]
        exact Session.isSome_failReader _ _
      · rw [← hs] at hstop
        simp [Stopped] at hstop
    | request id command =>
      obtain ⟨-, -, heq⟩ | ⟨-, f, heq⟩ := Session.receive_request hs
      · exact hkeep (by rw [heq, hr])
      · rw [heq]
        exact Session.isSome_failReader _ _
    | closed =>
      rw [← Option.some.inj hs]
      exact Session.isSome_failReader _ _
    | invalid message =>
      rw [← Option.some.inj hs]
      exact Session.isSome_failReader _ _
  | lose message f hs =>
    rw [hs]
    exact Session.isSome_failReader _ _
  | read hs =>
    cases Session.reads_step hs with
    | passed e hr hr' ho => simp [Stopped, hr'] at hstop
    | ignored e hr hr' ho => simp [Stopped, hr'] at hstop
    | handed e hr hid heq => simp [Stopped, heq] at hstop
    | unknown e hr hid hr' ho hf => exact hf
    | drained hr hr' ho => exact ho.failure (h (.inl hr))

theorem host_eq {a : Action} (hs : HostStep w.host w'.host a) : w'.host.host = w.host.host := by
  cases hs with
  | none heq => rw [heq]
  | call hb hs => exact Session.host_step hs
  | other hb hs => exact Session.host_step hs
  | receive frame hr hs => exact Session.host_receive hs
  | lose message f hs =>
    rw [hs]
    exact Session.host_failReader _ _
  | read hs => exact Session.host_step hs

theorem worldOk_step (h : WorldOk F w) {a : Action} (hs : step F w a = some w') : WorldOk F w' where
  calls := callsOk_step h.calls hs
  side := sideOk_step h.calls h.side hs
  adapter := (host_eq (hostStep_step hs)).trans h.adapter
  reader := stopped_step h.calls.host.sound h.reader (hostStep_step hs)

theorem worldOk_spawn : WorldOk F World.spawn where
  calls := callsOk_spawn
  side := sideOk_spawn
  adapter := rfl
  reader h := by simp [Stopped, World.spawn, Sys.spawn] at h

theorem sent_step {a : Action} (hs : step F w a = some w') {c : Token} (hc : c ∈ w.ledger.sent) :
    c ∈ w'.ledger.sent := by
  have hsession : ∀ {b} {v v' : World}, v.session b = some v' → v.ledger.sent = w.ledger.sent →
      c ∈ v'.ledger.sent := by
    intro b v v' hs hv
    obtain ⟨host, -, rfl⟩ := Option.map_eq_some_iff.mp hs
    exact hv ▸ hc
  cases a with
  | start k request | drop k | lose message | fail message | drain | setPid pid =>
    exact hsession hs rfl
  | advance k =>
    simp only [step, World.advance] at hs
    split at hs
    · split at hs
      · obtain ⟨host, -, rfl⟩ := Option.map_eq_some_iff.mp hs
        exact hc
      · cases hs
    · exact hsession hs rfl
  | refuse k =>
    simp only [step, World.refuse] at hs
    split at hs
    · split at hs
      · cases hs
      · exact hsession hs rfl
    · exact hsession hs rfl
  | receive =>
    simp only [step, World.receive] at hs
    split at hs
    · exact hsession hs rfl
    · exact hsession hs rfl
    · exact hsession hs rfl
    · cases hs
  | read =>
    obtain ⟨host, -, rfl⟩ := Option.map_eq_some_iff.mp hs
    split <;> exact hc
  | dispatch i =>
    obtain ⟨t, -, -, rfl⟩ := dispatch_eq_some.mp hs
    unfold World.dispatch
    split
    · split
      · exact hc
      · split
        · exact hc
        · split <;> exact hc
    · exact hc
  | written i result =>
    obtain ⟨t, command, -, -, hs⟩ := written_eq_some.mp hs
    simp only [World.written] at hs
    split at hs
    · cases hs
      exact hc
    · split at hs
      · exact hsession hs rfl
      · cases hs
        exact hc
  | reply i =>
    obtain ⟨t, e, permit, -, -, hs⟩ := reply_eq_some.mp hs
    unfold World.reply at hs
    split at hs
    · split at hs
      · cases hs
        exact hc
      · cases hs
    · cases hs
      exact hc
  | write =>
    rw [(same_write hs).sent]
    exact hc
  | writeError message =>
    simp only [step] at hs
    split at hs
    · exact hsession hs rfl
    · cases hs
  | submit c request =>
    simp only [step, World.submit] at hs
    split at hs
    · cases hs
      exact hc
    · cases hs
  | take =>
    simp only [step, World.take] at hs
    split at hs
    · cases hs
      exact hc
    · cases hs
      split
      · exact hc
      · split <;> exact hc
    · cases hs
  | answer outcome =>
    rw [(same_answer hs).sent]
    exact hc
  | forward =>
    simp only [step, World.forward] at hs
    split at hs
    · simp only [Option.some.injEq] at hs
      subst hs
      split
      · exact hc
      · split
        · exact List.mem_append_left _ hc
        · exact hc
    · cases hs
  | leave | sever =>
    cases hs
    exact hc

end World

/-! ## Places -/

/-- A frame of command `c`. -/
def AdapterFrame.asks (c : Token) (frame : AdapterFrame) : Bool :=
  frame.command.map Prod.snd = some c

/-- A response to command `c`. -/
def HostFrame.answers (c : Token) (frame : HostFrame) : Bool :=
  frame.command.map Prod.snd = some c

namespace World

def inStream (w : World) (c : Token) : Prop := ∃ frame ∈ w.toHost, frame.asks c = true

def inTask (w : World) (c : Token) : Prop := ∃ t ∈ w.tasks, t.token = c

def inOutbound (w : World) (c : Token) : Prop := ∃ frame ∈ w.outbound, frame.answers c = true

def inReturn (w : World) (c : Token) : Prop := ∃ frame ∈ w.toAdapter, frame.answers c = true

end World

section Places

variable {F : Formats} {w w' : World} {c : Token}

theorem inStream_iff : w.inStream c ↔ c ∈ (w.toHost.filterMap AdapterFrame.command).map Prod.snd := by
  simp only [World.inStream, AdapterFrame.asks, decide_eq_true_eq, Option.map_eq_some_iff,
    List.mem_map, List.mem_filterMap]
  constructor
  · rintro ⟨frame, hm, p, hp, rfl⟩
    exact ⟨p, ⟨frame, hm, hp⟩, rfl⟩
  · rintro ⟨p, ⟨frame, hm, hp⟩, rfl⟩
    exact ⟨frame, hm, p, hp, rfl⟩

theorem answers_iff {frames : List HostFrame} : (∃ frame ∈ frames, frame.answers c = true) ↔
    c ∈ (frames.filterMap HostFrame.command).map Prod.snd := by
  simp only [HostFrame.answers, decide_eq_true_eq, Option.map_eq_some_iff, List.mem_map,
    List.mem_filterMap]
  constructor
  · rintro ⟨frame, hm, p, hp, rfl⟩
    exact ⟨p, ⟨frame, hm, hp⟩, rfl⟩
  · rintro ⟨p, ⟨frame, hm, hp⟩, rfl⟩
    exact ⟨frame, hm, p, hp, rfl⟩

theorem inTask_iff : w.inTask c ↔ c ∈ (w.tasks.map Task.command).map Prod.snd := by
  simp [World.inTask, Task.command]

/-- A command that was sent is in one of the places, or a response has completed it. -/
theorem place_of_sent (h : SideOk F w) (hc : c ∈ w.ledger.sent) :
    w.inStream c ∨ w.inTask c ∨ w.inOutbound c ∨ w.inReturn c ∨ c ∈ taken w.ledger.completed := by
  rw [inStream_iff, inTask_iff, World.inOutbound, answers_iff, World.inReturn, answers_iff]
  have hperm := (h.commands.matched.map Prod.snd).append_right (taken w.ledger.completed)
  have hmem := hperm.mem_iff.mpr (h.commands.sent.mem_iff.mp hc)
  simp only [World.unanswered, World.replies, List.map_append, List.mem_append] at hmem
  tauto

/-- A command that was sent is not queued any more. -/
theorem not_queued_of_sent (h : SideOk F w) (hc : c ∈ w.ledger.sent) :
    c ∉ w.adapter.commands.map Prod.fst := by
  have hnodup := h.commands.accounted.nodup_iff.mp h.commands.once
  rw [List.append_assoc, List.nodup_append] at hnodup
  intro hq
  obtain hp | ht := List.mem_append.mp (h.commands.sent.mem_iff.mp hc)
  · exact hnodup.2.2 c hq c (List.mem_append_left _ hp) rfl
  · obtain ⟨r, hr, hrc⟩ := List.mem_filterMap.mp ht
    have hfst := h.commands.source r hr c hrc
    exact hnodup.2.2 c hq c (List.mem_append_right _ (hfst ▸ List.mem_map_of_mem hr)) rfl

/-- A command comes to a place only from there or from the place before. -/
theorem places_step (h : SideOk F w) (hc : c ∈ w.ledger.sent) {a : Action} (hm : Moved w w' a)
    (hend : ¬ w'.Ended) :
    (w'.inStream c → w.inStream c) ∧ (w'.inTask c → w.inStream c ∨ w.inTask c) ∧
      (w'.inOutbound c → w.inTask c ∨ w.inOutbound c) ∧
      (w'.inReturn c → w.inOutbound c ∨ w.inReturn c) := by
  have hquiet : ∀ {frames : List HostFrame}, frames.filterMap HostFrame.command = [] →
      w'.outbound = w.outbound ++ frames → w'.inOutbound c → w.inOutbound c := by
    intro frames hframes hout
    unfold World.inOutbound
    rw [answers_iff, answers_iff, hout, List.filterMap_append, hframes, List.append_nil]
    exact fun h => h
  cases hm with
  | ended he => exact absurd he hend
  | still ha hto htasks hout hin hloop =>
    obtain ⟨frames, hout, hframes, -⟩ := hout
    refine ⟨?_, ?_, fun ho => .inr (hquiet hframes hout ho), ?_⟩
    · simp only [World.inStream, hto, imp_self]
    · simp only [World.inTask, htasks]
      exact .inr
    · simp only [World.inReturn, hin]
      exact .inr
  | received frame hr hto htasks hr' hout hin hloop =>
    refine ⟨?_, ?_, fun ho => .inr (by rwa [World.inOutbound, hout] at ho),
      fun hi => .inr (by rwa [World.inReturn, hin] at hi)⟩
    · rintro ⟨f, hf, hfc⟩
      exact ⟨f, by rw [hto]; exact List.mem_cons_of_mem _ hf, hfc⟩
    · rintro ⟨t, ht, htc⟩
      rw [htasks] at ht
      obtain ht | ht := List.mem_append.mp ht
      · exact .inr ⟨t, ht, htc⟩
      · refine .inl ⟨frame, by simp [hto], ?_⟩
        cases frame with
        | hello | response e k => cases ht
        | request id method body c' =>
          rw [AdapterFrame.spawned, List.mem_singleton] at ht
          subst ht
          simp [AdapterFrame.asks, AdapterFrame.command, ← htc]
  | ran hi ha htasks hrank hto hout hin hloop =>
    refine ⟨?_, ?_, fun ho => .inr (by rwa [World.inOutbound, hout] at ho),
      fun hi => .inr (by rwa [World.inReturn, hin] at hi)⟩
    · simp only [World.inStream, hto, imp_self]
    · rintro ⟨t', ht', htc⟩
      rw [htasks] at ht'
      obtain ht' | rfl := List.mem_or_eq_of_mem_set ht'
      · exact .inr ⟨t', ht', htc⟩
      · exact .inr ⟨_, List.mem_of_getElem? hi, htc⟩
  | replied e hi htasks hout hroom hto hin hloop =>
    refine ⟨?_, ?_, ?_, fun hi => .inr (by rwa [World.inReturn, hin] at hi)⟩
    · simp only [World.inStream, hto, imp_self]
    · rintro ⟨t', ht', htc⟩
      rw [htasks] at ht'
      exact .inr ⟨t', List.mem_of_mem_eraseIdx ht', htc⟩
    · rintro ⟨f, hf, hfc⟩
      rw [hout] at hf
      obtain hf | hf := List.mem_append.mp hf
      · exact .inr ⟨f, hf, hfc⟩
      · rw [List.mem_singleton] at hf
        subst hf
        refine .inl ⟨_, List.mem_of_getElem? hi, ?_⟩
        simpa [HostFrame.answers, HostFrame.command] using hfc
  | wrote frame hout hin hto htasks hloop =>
    refine ⟨?_, ?_, ?_, ?_⟩
    · simp only [World.inStream, hto, imp_self]
    · simp only [World.inTask, htasks]
      exact .inr
    · rintro ⟨f, hf, hfc⟩
      exact .inr ⟨f, by rw [hout]; exact List.mem_cons_of_mem _ hf, hfc⟩
    · rintro ⟨f, hf, hfc⟩
      rw [hin] at hf
      obtain hf | hf := List.mem_append.mp hf
      · exact .inr ⟨f, hf, hfc⟩
      · rw [List.mem_singleton.mp hf] at hfc
        exact .inl ⟨frame, by simp [hout], hfc⟩
  | took frame hl hin hto htasks hout =>
    refine ⟨?_, ?_, fun ho => .inr (by rwa [World.inOutbound, hout] at ho), ?_⟩
    · simp only [World.inStream, hto, imp_self]
    · simp only [World.inTask, htasks]
      exact .inr
    · rintro ⟨f, hf, hfc⟩
      exact .inr ⟨f, by rw [hin]; exact List.mem_cons_of_mem _ hf, hfc⟩
  | answered id method k e hl hl' hto htasks hout hin =>
    refine ⟨?_, ?_, fun ho => .inr (by rwa [World.inOutbound, hout] at ho),
      fun hi => .inr (by rwa [World.inReturn, hin] at hi)⟩
    · rintro ⟨f, hf, hfc⟩
      rw [hto] at hf
      obtain hf | hf := List.mem_append.mp hf
      · exact ⟨f, hf, hfc⟩
      · rw [List.mem_singleton.mp hf] at hfc
        cases hfc
    · simp only [World.inTask, htasks]
      exact .inr
  | forwarded id method body c' hc' hto htasks hout hin hloop =>
    refine ⟨?_, ?_, fun ho => .inr (by rwa [World.inOutbound, hout] at ho),
      fun hi => .inr (by rwa [World.inReturn, hin] at hi)⟩
    · rintro ⟨f, hf, hfc⟩
      rw [hto] at hf
      obtain hf | hf := List.mem_append.mp hf
      · exact ⟨f, hf, hfc⟩
      · rw [List.mem_singleton.mp hf] at hfc
        have heq : c' = c := by simpa [AdapterFrame.asks, AdapterFrame.command] using hfc
        exact absurd (heq ▸ hc') (not_queued_of_sent h hc)
    · simp only [World.inTask, htasks]
      exact .inr

end Places

end Oikade.Rpc
