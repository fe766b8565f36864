/-
  What must happen to a command: in a fair run of a session that does not end, every command whose
  frame the adapter sends is completed by a response.

  In each place a process brings the command nearer to the next place: the read loop, the task, the
  write loop, the request loop. That a run is fair to a task says that `write_value` returns and that
  a sender waiting for the outbound queue gets its turn; of the request loop, that `handle_request`
  returns.
-/
import Oikade.Lib.Fair
import Oikade.Rpc.Moves

namespace Oikade.Rpc

open Machine (Behaves Enabled Fair)

/-! ## Processes -/

inductive Process where
  | readLoop
  | writeLoop
  | requestLoop
  /-- the task of `dispatch_command` for a command -/
  | task (c : Token)

def Process.Moves : Process → World → Action → Prop
  | .readLoop, _, a => a = .receive ∨ a = .read
  | .writeLoop, _, a => a = .write
  | .requestLoop, _, a => a = .take ∨ ∃ outcome, a = .answer outcome
  | .task c, w, a => ∃ i t, w.tasks[i]? = some t ∧ t.token = c ∧ TaskAction i a

/-- A fair run of a session that does not end. -/
structure Goes (F : Formats) (ρ : Nat → World) (as : Nat → Action) : Prop where
  spawn : ρ 0 = World.spawn
  behaves : Behaves (step F) ρ as
  fair : ∀ p : Process, Fair (step F) p.Moves ρ as
  endless : ∀ n, ¬ (ρ n).Ended

/-! ## Queues -/

section Queues

variable {α : Type} {p : α → Bool}

theorem findIdx_append_of_exists {xs : List α} (ys : List α) (h : ∃ x ∈ xs, p x = true) :
    (xs ++ ys).findIdx p = xs.findIdx p := by
  rw [List.findIdx_append, if_pos (List.findIdx_lt_length.mpr h)]

theorem findIdx_cons_of_not {x : α} (xs : List α) (h : ¬ p x = true) :
    (x :: xs).findIdx p = xs.findIdx p + 1 := by
  rw [List.findIdx_cons, Bool.eq_false_iff.mpr h]
  rfl

end Queues

section Goes

variable {F : Formats} {ρ : Nat → World} {as : Nat → Action} {c : Token} {n : Nat}

theorem Goes.ok (h : Goes F ρ as) (n : Nat) : WorldOk F (ρ n) :=
  Machine.invariant_of_behaves (P := WorldOk F) (fun _ _ _ hw hs => worldOk_step hw hs) h.behaves
    (h.spawn ▸ worldOk_spawn) (Nat.zero_le n)

theorem Goes.moved (h : Goes F ρ as) (n : Nat) : Moved (ρ n) (ρ (n + 1)) (as n) :=
  moved_step (h.ok n).calls (h.ok n).side (h.behaves n)

theorem Goes.sent (h : Goes F ρ as) (hc : c ∈ (ρ n).ledger.sent) {m : Nat} (hm : n ≤ m) :
    c ∈ (ρ m).ledger.sent :=
  Machine.invariant_of_behaves (P := fun w => c ∈ w.ledger.sent) (fun _ _ _ hw hs => sent_step hs hw)
    h.behaves hc hm

theorem Goes.writing (h : Goes F ρ as) (n : Nat) : (ρ n).writing = true := by
  by_contra hw
  exact h.endless n (.inl ((h.ok n).side.closed (.inl (Bool.eq_false_iff.mpr hw))))

/-! ## From the stream into a task -/

/-- The await points between two frames. -/
def stage : Session.Reader → Nat
  | .ignored _ => 2
  | .pending _ => 1
  | .decoding | .draining | .stopped => 0

theorem Goes.stage_le (h : Goes F ρ as) (n : Nat) (ha : as n ≠ .receive) :
    stage (ρ (n + 1)).host.reader ≤ stage (ρ n).host.reader := by
  have hend := h.endless (n + 1)
  have hs := hostStep_step (h.behaves n)
  generalize hb : as n = b at hs ha
  cases hs with
  | none heq => exact Nat.le_of_eq (by rw [heq])
  | call hb' hs =>
    have hreader := (Session.stepped_step hb' ((h.ok n).calls.host.sound _) hs).reader
    exact Nat.le_of_eq (by rw [hreader])
  | other hb' hs =>
    have hreader := (Session.others_step hb' hs).2
    exact Nat.le_of_eq (by rw [hreader])
  | receive frame hr hs => exact absurd rfl ha
  | lose message f hs =>
    exact absurd (.inl (hs ▸ Session.isSome_failReader _ _)) hend
  | read hs =>
    cases Session.reads_step hs with
    | passed e hr hr' ho => simp [hr, hr', stage]
    | ignored e hr hr' ho => simp [hr, hr', stage]
    | handed e hr hid heq => simp [heq, stage]
    | unknown e hr hid hr' ho hf => exact absurd (.inl hf) hend
    | drained hr hr' ho => simp [hr, hr', stage]

theorem Goes.stage_lt (h : Goes F ρ as) (n : Nat) (ha : as n = .read) :
    stage (ρ (n + 1)).host.reader < stage (ρ n).host.reader := by
  have hs := h.behaves n
  rw [ha] at hs
  obtain ⟨host, hstep, heq⟩ := Option.map_eq_some_iff.mp hs
  have hhost : (ρ (n + 1)).host = host := by
    rw [← heq]
    split <;> rfl
  rw [hhost]
  cases Session.reads_step hstep with
  | passed e hr hr' ho => simp [hr, hr', stage]
  | ignored e hr hr' ho => simp [hr, hr', stage]
  | handed e hr hid heq => simp [hr, heq, stage]
  | unknown e hr hid hr' ho hf => exact absurd (.inl (hhost ▸ hf)) (h.endless (n + 1))
  | drained hr hr' ho => exact absurd (.inl ((h.ok n).reader (.inl hr))) (h.endless n)

/-- The frame of a command is on the stream once. -/
theorem not_inStream_of_head {w w' : World} (hok : SideOk F w) {frame : AdapterFrame}
    (hto : w.toHost = frame :: w'.toHost) (hframe : frame.asks c = true) : ¬ w'.inStream c := by
  rw [inStream_iff]
  intro hm
  have hnodup := hok.commands.tokens.1
  simp only [AdapterFrame.asks, decide_eq_true_eq, Option.map_eq_some_iff] at hframe
  obtain ⟨p, hp, rfl⟩ := hframe
  simp only [World.unanswered, hto, List.filterMap_cons, hp, List.map_append, List.map_cons,
    List.append_assoc, List.cons_append, List.nodup_cons, List.mem_append, not_or] at hnodup
  exact hnodup.1.1 hm

theorem Goes.receive_enabled (h : Goes F ρ as) (hr : (ρ n).host.reader = .decoding)
    (hto : (ρ n).toHost ≠ []) : (step F (ρ n) .receive).isSome = true := by
  have hhost := (h.ok n).adapter
  simp only [step, World.receive, hr]
  cases hq : (ρ n).toHost with
  | nil => exact absurd hq hto
  | cons frame rest =>
    cases frame with
    | hello => simp [World.session, Session.step, hr, Session.Sys.receive]
    | response e k => simp [World.session, Session.step, hr, Session.Sys.receive]
    | request id method body c => simp [World.session, Session.step, hr, Session.Sys.receive, hhost]

theorem Goes.leaves_stream (h : Goes F ρ as) (n : Nat) : ∃ m, n ≤ m ∧ ¬ (ρ m).inStream c := by
  have hstep : ∀ m, (ρ m).inStream c → ¬ (ρ (m + 1)).inStream c ∨
      (as m = .receive → 3 * (ρ (m + 1)).toHost.findIdx (AdapterFrame.asks c) +
        stage (ρ (m + 1)).host.reader <
          3 * (ρ m).toHost.findIdx (AdapterFrame.asks c) + stage (ρ m).host.reader) ∧
      (as m ≠ .receive → (ρ (m + 1)).toHost.findIdx (AdapterFrame.asks c) =
        (ρ m).toHost.findIdx (AdapterFrame.asks c)) := by
    intro m hin
    obtain ⟨ha, hr, frame, hto, hr'⟩ | ⟨ha, frames, hto⟩ :=
      (h.moved m).toHost_cases (h.endless (m + 1))
    · by_cases hframe : frame.asks c = true
      · exact .inl (not_inStream_of_head (h.ok m).side hto hframe)
      · refine .inr ⟨fun _ => ?_, fun hne => absurd ha hne⟩
        rw [hto, findIdx_cons_of_not _ hframe, hr', hr]
        cases frame <;> simp only [AdapterFrame.reader, stage] <;> omega
    · refine .inr ⟨fun heq => absurd heq ha, fun _ => ?_⟩
      rw [hto, findIdx_append_of_exists _ hin]
  refine Machine.eventually_of_rank (fun w => ¬ w.inStream c)
    (fun w => 3 * w.toHost.findIdx (AdapterFrame.asks c) + stage w.host.reader)
    (h.fair .readLoop) ?_ ?_ ?_
  · intro m _ hin
    obtain hg | ⟨hreceive, hother⟩ := hstep m (not_not.mp hin)
    · exact .inl hg
    · by_cases ha : as m = .receive
      · exact .inr (Nat.le_of_lt (hreceive ha))
      · have hstage := h.stage_le m ha
        refine .inr ?_
        rw [hother ha]
        omega
  · intro m _ hin hmove
    obtain hg | ⟨hreceive, hother⟩ := hstep m (not_not.mp hin)
    · exact .inl hg
    · obtain ha | ha := hmove
      · exact .inr (hreceive ha)
      · have hstage := h.stage_lt m ha
        refine .inr ?_
        rw [hother (by simp [ha])]
        omega
  · intro hno m hm
    obtain ⟨frame, hframe, -⟩ := not_not.mp (hno m hm)
    have hread : ∀ e, (ρ m).host.reader = .ignored e ∨ (ρ m).host.reader = .pending e →
        (step F (ρ m) .read).isSome = true := by
      intro e he
      rcases he with he | he <;> simp [step, World.read, Session.step, Session.Sys.readStep, he]
    refine ⟨m, Nat.le_refl m, ?_⟩
    cases hr : (ρ m).host.reader with
    | decoding =>
      exact ⟨.receive, .inl rfl, h.receive_enabled hr (List.ne_nil_of_mem hframe)⟩
    | ignored e => exact ⟨.read, .inr rfl, hread e (.inl hr)⟩
    | pending e => exact ⟨.read, .inr rfl, hread e (.inr hr)⟩
    | draining => exact absurd (.inl ((h.ok m).reader (.inl hr))) (h.endless m)
    | stopped => exact absurd (.inl ((h.ok m).reader (.inr hr))) (h.endless m)

/-! ## From a task into the outbound queue -/

/-- The outbound queue does not stay full. -/
theorem Goes.room (h : Goes F ρ as) (n : Nat) :
    ∃ m, n ≤ m ∧ (ρ m).outbound.length < outboundQueue := by
  refine Machine.eventually_of_rank (fun w => w.outbound.length < outboundQueue)
    (fun w => w.outbound.length) (h.fair .writeLoop) ?_ ?_ ?_
  · intro m _ hfull
    obtain ⟨-, frame, hout⟩ | ⟨-, frames, hout, rfl | hroom⟩ :=
      (h.moved m).outbound_cases (h.endless (m + 1))
    · exact .inr (by simp [hout])
    · exact .inr (by simp [hout])
    · exact absurd hroom hfull
  · intro m _ hfull hmove
    obtain ⟨-, frame, hout⟩ | ⟨ha, -⟩ := (h.moved m).outbound_cases (h.endless (m + 1))
    · exact .inr (by simp [hout])
    · exact absurd hmove ha
  · intro hno m hm
    refine ⟨m, Nat.le_refl m, .write, rfl, ?_⟩
    cases hq : (ρ m).outbound with
    | nil =>
      have := hno m hm
      simp [hq, outboundQueue] at this
    | cons frame rest => simp [step, World.write, h.writing m, hq]

/-- How far the tasks of a command are from their ends. -/
def tasksRank (c : Token) (tasks : List Task) : Nat :=
  (tasks.map fun t => if t.token = c then t.pc.rank else 0).sum

theorem tasksRank_append (c : Token) (us vs : List Task) :
    tasksRank c (us ++ vs) = tasksRank c us + tasksRank c vs := by
  simp [tasksRank]

theorem tasksRank_cons (c : Token) (t : Task) (ts : List Task) :
    tasksRank c (t :: ts) = (if t.token = c then t.pc.rank else 0) + tasksRank c ts := by
  simp [tasksRank]

/-- A task that goes on is nearer to its end. -/
theorem tasksRank_set {tasks : List Task} {i : Nat} {t : Task} {pc : TaskPc}
    (hi : tasks[i]? = some t) (hrank : pc.rank < t.pc.rank) :
    tasksRank c (tasks.set i { t with pc }) ≤ tasksRank c tasks ∧
      (t.token = c → tasksRank c (tasks.set i { t with pc }) < tasksRank c tasks) := by
  obtain ⟨us, vs, htasks, hset, -⟩ := split_at hi
  rw [hset]
  subst htasks
  simp only [tasksRank_append, tasksRank_cons]
  by_cases hc : t.token = c
  · rw [if_pos hc, if_pos hc]
    omega
  · rw [if_neg hc, if_neg hc]
    exact ⟨Nat.le_refl _, fun h => absurd h hc⟩

theorem Goes.leaves_task (h : Goes F ρ as) (hstream : ∀ m, n ≤ m → ¬ (ρ m).inStream c) :
    ∃ m, n ≤ m ∧ ¬ (ρ m).inTask c := by
  refine Machine.eventually_of_rank (fun w => ¬ w.inTask c)
    (fun w => tasksRank c w.tasks) (h.fair (.task c)) ?_ ?_ ?_
  · intro m hm hin
    have hmoved := h.moved m
    generalize as m = a at hmoved
    cases hmoved with
    | ended he => exact absurd he (h.endless (m + 1))
    | still ha hto htasks hout hback hloop => exact .inr (Nat.le_of_eq (by rw [htasks]))
    | received frame hr hto htasks hr' hout hback hloop =>
      refine .inr ?_
      -- the task that is spawned is not one of `c`
      have hnew : tasksRank c frame.spawned = 0 := by
        cases frame with
        | hello => rfl
        | response e k => rfl
        | request id method body c' =>
          have hne : c' ≠ c := by
            rintro rfl
            exact hstream m hm ⟨_, by rw [hto]; exact List.mem_cons_self, by
              simp [AdapterFrame.asks, AdapterFrame.command]⟩
          simp [AdapterFrame.spawned, tasksRank, hne]
      rw [htasks, tasksRank_append, hnew]
      exact Nat.le_refl _
    | ran hi ha htasks hrank hto hout hback hloop =>
      rw [htasks]
      exact .inr (tasksRank_set hi hrank).1
    | replied e hi htasks hout hroom hto hback hloop =>
      obtain ⟨us, vs, hsplit, -, herase⟩ := split_at hi
      refine .inr ?_
      rw [htasks, herase, hsplit, tasksRank_append, tasksRank_append, tasksRank_cons]
      omega
    | wrote frame hout hback hto htasks hloop => exact .inr (Nat.le_of_eq (by rw [htasks]))
    | took frame hl hback hto htasks hout => exact .inr (Nat.le_of_eq (by rw [htasks]))
    | answered id method k e hl hl' hto htasks hout hback => exact .inr (Nat.le_of_eq (by rw [htasks]))
    | forwarded id method body c' hc' hto htasks hout hback hloop => exact .inr (Nat.le_of_eq (by rw [htasks]))
  · rintro m hm hin ⟨i, t, hi, htc, ha⟩
    have hmoved := h.moved m
    generalize as m = a at hmoved ha
    cases hmoved with
    | ended he => exact absurd he (h.endless (m + 1))
    | still hquiet hto htasks hout hback hloop =>
      rcases ha with rfl | ⟨result, rfl⟩ | rfl <;> exact hquiet.elim
    | @ran _ j t' pc hj ha' htasks hrank hto hout hback hloop =>
      have hij : i = j := by
        rcases ha with rfl | ⟨result, rfl⟩ | rfl <;> simpa [TaskAction] using ha'
      subst hij
      rw [hi, Option.some.injEq] at hj
      subst hj
      rw [htasks]
      exact .inr ((tasksRank_set hi hrank).2 htc)
    | @replied j t' e hj htasks hout hroom hto hback hloop =>
      have hij : i = j := by simpa [TaskAction, eq_comm] using ha
      subst hij
      rw [hi, Option.some.injEq] at hj
      subst hj
      obtain ⟨us, vs, hsplit, -, herase⟩ := split_at hi
      refine .inl ?_
      rintro ⟨t', ht', htc'⟩
      rw [htasks, herase] at ht'
      exact (token_unique (h.ok m).side hsplit).1 t' ht' (htc'.trans htc.symm)
    | received frame hr hto htasks hr' hout hback hloop => simp [TaskAction] at ha
    | wrote frame hout hback hto htasks hloop => simp [TaskAction] at ha
    | took frame hl hback hto htasks hout => simp [TaskAction] at ha
    | answered id method k e hl hl' hto htasks hout hback => simp [TaskAction] at ha
    | forwarded id method body c' hc' hto htasks hout hback hloop => simp [TaskAction] at ha
  · intro hno m hm
    obtain ⟨m', hm', hroom⟩ := h.room m
    obtain ⟨t, ht, htc⟩ := not_not.mp (hno m' (Nat.le_trans hm hm'))
    obtain ⟨i, hi⟩ := List.mem_iff_getElem?.mp ht
    refine ⟨m', hm', ?_⟩
    cases hpc : t.pc with
    | spawned =>
      exact ⟨.dispatch i, ⟨i, t, hi, htc, .inl rfl⟩, by
        rw [dispatch_eq_some.mpr ⟨t, hi, hpc, rfl⟩]
        rfl⟩
    | writing command =>
      refine ⟨.written i (.error .stopped), ⟨i, t, hi, htc, .inr (.inl ⟨_, rfl⟩)⟩, ?_⟩
      rw [written_eq_some.mpr ⟨t, command, hi, hpc, rfl⟩]
      rfl
    | sending e permit =>
      refine ⟨.reply i, ⟨i, t, hi, htc, .inr (.inr rfl)⟩, ?_⟩
      have hreply : ∃ w', (ρ m').reply i t e = some w' := by
        unfold World.reply
        rw [if_pos (h.writing m'), if_pos hroom]
        exact ⟨_, rfl⟩
      obtain ⟨w', hw'⟩ := hreply
      rw [reply_eq_some.mpr ⟨t, e, permit, hi, hpc, hw'⟩]
      rfl
    | ended =>
      exact absurd (.inl ((h.ok m').side.closed (.inr ⟨t, ht, hpc⟩))) (h.endless m')

/-! ## To the adapter -/

/-- The response to a command is in the queues once. -/
theorem not_answers_of_head {w : World} (hok : SideOk F w) {frame : HostFrame} {us vs : List HostFrame}
    (hq : w.outbound = frame :: us ∨ w.toAdapter = frame :: us) (hvs : vs = us)
    (hframe : frame.answers c = true) : ¬ ∃ f ∈ vs, f.answers c = true := by
  subst hvs
  rw [answers_iff]
  intro hm
  have hnodup := hok.commands.tokens.1
  simp only [HostFrame.answers, decide_eq_true_eq, Option.map_eq_some_iff] at hframe
  obtain ⟨p, hp, rfl⟩ := hframe
  rw [List.map_append, List.nodup_append] at hnodup
  have hreplies := hnodup.2.1
  rcases hq with hq | hq
  · simp only [World.replies, hq, List.filterMap_cons, hp, List.map_append, List.map_cons,
      List.cons_append, List.nodup_cons, List.mem_append, not_or] at hreplies
    exact hreplies.1.1 hm
  · simp only [World.replies, hq, List.filterMap_cons, hp, List.map_append, List.map_cons,
      List.nodup_append, List.nodup_cons] at hreplies
    exact hreplies.2.1.1 hm

theorem Goes.leaves_outbound (h : Goes F ρ as) (n : Nat) :
    ∃ m, n ≤ m ∧ ¬ (ρ m).inOutbound c := by
  have hstep : ∀ m, (ρ m).inOutbound c → ¬ (ρ (m + 1)).inOutbound c ∨
      (as m = .write → (ρ (m + 1)).outbound.findIdx (HostFrame.answers c) <
        (ρ m).outbound.findIdx (HostFrame.answers c)) ∧
      (as m ≠ .write → (ρ (m + 1)).outbound.findIdx (HostFrame.answers c) =
        (ρ m).outbound.findIdx (HostFrame.answers c)) := by
    intro m hin
    obtain ⟨ha, frame, hout⟩ | ⟨ha, frames, hout, -⟩ :=
      (h.moved m).outbound_cases (h.endless (m + 1))
    · by_cases hframe : frame.answers c = true
      · exact .inl (not_answers_of_head (h.ok m).side (.inl hout) rfl hframe)
      · refine .inr ⟨fun _ => ?_, fun hne => absurd ha hne⟩
        rw [hout, findIdx_cons_of_not _ hframe]
        exact Nat.lt_succ_self _
    · refine .inr ⟨fun heq => absurd heq ha, fun _ => ?_⟩
      rw [hout, findIdx_append_of_exists _ hin]
  refine Machine.eventually_of_rank (fun w => ¬ w.inOutbound c)
    (fun w => w.outbound.findIdx (HostFrame.answers c)) (h.fair .writeLoop) ?_ ?_ ?_
  · intro m _ hin
    obtain hg | ⟨hwrite, hother⟩ := hstep m (not_not.mp hin)
    · exact .inl hg
    · by_cases ha : as m = .write
      · exact .inr (Nat.le_of_lt (hwrite ha))
      · exact .inr (Nat.le_of_eq (hother ha))
  · intro m _ hin hmove
    obtain hg | ⟨hwrite, -⟩ := hstep m (not_not.mp hin)
    · exact .inl hg
    · exact .inr (hwrite hmove)
  · intro hno m hm
    obtain ⟨frame, hframe, -⟩ := not_not.mp (hno m hm)
    refine ⟨m, Nat.le_refl m, .write, rfl, ?_⟩
    cases hq : (ρ m).outbound with
    | nil => simp [hq] at hframe
    | cons frame' rest => simp [step, World.write, h.writing m, hq]

/-- The request loop waits for `handle_request`. -/
def busy : Loop → Nat
  | .handling .. => 1
  | .select | .exited => 0

theorem busy_le (l : Loop) : busy l ≤ 1 := by
  cases l <;> simp [busy]

theorem Goes.leaves_return (h : Goes F ρ as) (n : Nat) : ∃ m, n ≤ m ∧ ¬ (ρ m).inReturn c := by
  have hstep : ∀ m, (ρ m).inReturn c → ¬ (ρ (m + 1)).inReturn c ∨
      ((as m = .take ∨ ∃ outcome, as m = .answer outcome) →
        2 * (ρ (m + 1)).toAdapter.findIdx (HostFrame.answers c) + busy (ρ (m + 1)).adapter.loop <
          2 * (ρ m).toAdapter.findIdx (HostFrame.answers c) + busy (ρ m).adapter.loop) ∧
      (¬ (as m = .take ∨ ∃ outcome, as m = .answer outcome) →
        2 * (ρ (m + 1)).toAdapter.findIdx (HostFrame.answers c) + busy (ρ (m + 1)).adapter.loop =
          2 * (ρ m).toAdapter.findIdx (HostFrame.answers c) + busy (ρ m).adapter.loop) := by
    intro m hin
    obtain ⟨ha, hl, frame, hback⟩ | ⟨ha, ⟨id, method, k, hl⟩, hl', hback⟩ |
        ⟨ha, hloop, frames, hback⟩ := (h.moved m).toAdapter_cases (h.endless (m + 1))
    · by_cases hframe : frame.answers c = true
      · exact .inl (not_answers_of_head (h.ok m).side (.inr hback) rfl hframe)
      · refine .inr ⟨fun _ => ?_, fun hne => absurd (.inl ha) hne⟩
        have hbusy := busy_le (ρ (m + 1)).adapter.loop
        rw [hback, findIdx_cons_of_not _ hframe, hl, show busy .select = 0 from rfl]
        omega
    · refine .inr ⟨fun _ => ?_, fun hne => absurd (.inr ha) hne⟩
      rw [hback, hl, hl']
      simp only [busy]
      omega
    · refine .inr ⟨fun heq => absurd heq ha, fun _ => ?_⟩
      rw [hback, findIdx_append_of_exists _ hin, hloop]
  refine Machine.eventually_of_rank (fun w => ¬ w.inReturn c)
    (fun w => 2 * w.toAdapter.findIdx (HostFrame.answers c) + busy w.adapter.loop)
    (h.fair .requestLoop) ?_ ?_ ?_
  · intro m _ hin
    obtain hg | ⟨hmine, hother⟩ := hstep m (not_not.mp hin)
    · exact .inl hg
    · by_cases ha : as m = .take ∨ ∃ outcome, as m = .answer outcome
      · exact .inr (Nat.le_of_lt (hmine ha))
      · exact .inr (Nat.le_of_eq (hother ha))
  · intro m _ hin hmove
    obtain hg | ⟨hmine, -⟩ := hstep m (not_not.mp hin)
    · exact .inl hg
    · exact .inr (hmine hmove)
  · intro hno m hm
    obtain ⟨frame, hframe, -⟩ := not_not.mp (hno m hm)
    refine ⟨m, Nat.le_refl m, ?_⟩
    cases hl : (ρ m).adapter.loop with
    | exited => exact absurd (.inr (.inl hl)) (h.endless m)
    | handling id method k =>
      exact ⟨.answer (.ok ""), .inr ⟨_, rfl⟩, by simp [step, World.answer, hl]⟩
    | select =>
      refine ⟨.take, .inl rfl, ?_⟩
      cases hq : (ρ m).toAdapter with
      | nil => simp [hq] at hframe
      | cons frame' rest => cases frame' <;> simp [step, World.take, hl, hq]

/-! ## The end of a command -/

/-- A place that a command has left it does not come back to, once it has left the place before. -/
theorem stays_left (before : Nat → Prop) {here : Nat → Prop}
    (hstep : ∀ m, n ≤ m → here (m + 1) → before m ∨ here m)
    (hbefore : ∀ m, n ≤ m → ¬ before m) (hn : ¬ here n) : ∀ m, n ≤ m → ¬ here m := by
  intro m hm
  induction m, hm using Nat.le_induction with
  | base => exact hn
  | succ m hm ih =>
    intro hin
    obtain hin | hin := hstep m hm hin
    · exact hbefore m hm hin
    · exact ih hin

/-- Every command that the adapter sends is completed by a response. -/
theorem Goes.completes (h : Goes F ρ as) (hc : c ∈ (ρ n).ledger.sent) :
    ∃ m, n ≤ m ∧ c ∈ taken (ρ m).ledger.completed := by
  have hplaces : ∀ m, n ≤ m →
      ((ρ (m + 1)).inStream c → (ρ m).inStream c) ∧
      ((ρ (m + 1)).inTask c → (ρ m).inStream c ∨ (ρ m).inTask c) ∧
      ((ρ (m + 1)).inOutbound c → (ρ m).inTask c ∨ (ρ m).inOutbound c) ∧
      ((ρ (m + 1)).inReturn c → (ρ m).inOutbound c ∨ (ρ m).inReturn c) := fun m hm =>
    places_step (h.ok m).side (h.sent hc hm) (h.moved m) (h.endless (m + 1))
  obtain ⟨m₁, hm₁, hstream⟩ := h.leaves_stream (c := c) n
  have hstream' : ∀ m, m₁ ≤ m → ¬ (ρ m).inStream c :=
    stays_left (fun _ => False) (fun m hm hin => .inr ((hplaces m (by omega)).1 hin))
      (fun _ _ => not_false) hstream
  obtain ⟨m₂, hm₂, htask⟩ := h.leaves_task hstream'
  have htask' : ∀ m, m₂ ≤ m → ¬ (ρ m).inTask c :=
    stays_left _ (fun m hm hin => (hplaces m (by omega)).2.1 hin)
      (fun m hm => hstream' m (by omega)) htask
  obtain ⟨m₃, hm₃, hout⟩ := h.leaves_outbound (c := c) m₂
  have hout' : ∀ m, m₃ ≤ m → ¬ (ρ m).inOutbound c :=
    stays_left _ (fun m hm hin => (hplaces m (by omega)).2.2.1 hin)
      (fun m hm => htask' m (by omega)) hout
  obtain ⟨m₄, hm₄, hback⟩ := h.leaves_return (c := c) m₃
  refine ⟨m₄, by omega, ?_⟩
  obtain hin | hin | hin | hin | hin := place_of_sent (h.ok m₄).side (h.sent hc (by omega))
  · exact absurd hin (hstream' m₄ (by omega))
  · exact absurd hin (htask' m₄ (by omega))
  · exact absurd hin (hout' m₄ (by omega))
  · exact absurd hin hback
  · exact hin

end Goes

end Oikade.Rpc
