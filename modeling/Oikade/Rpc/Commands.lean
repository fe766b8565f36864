/-
  The commands of the adapter: whose response completes each of them.

  `pending` holds exactly the commands that are in flight: on the way to the host, in a task of
  `dispatch_command`, or on the way back as a response, under the identifier their frames carry
  (`CommandsOk.matched`). The allocator skips the identifiers that are pending, so an identifier is
  used again only when no frame carries it any more (`freeId_fresh`).
-/
import Oikade.Rpc.Calls
import Mathlib.Data.List.Perm.Basic

namespace Oikade.Rpc

open Session (Sys Envelope)

/-! ## The allocator -/

section Allocator

variable {pending : List (Nat × Token)}

/-- The identifiers that the loop tries. -/
def tried (id : Nat) : Nat → List Nat
  | 0 => []
  | n + 1 => id :: tried ((id + 1) % 2 ^ 64) n

theorem mem_tried {n id x : Nat} (h : x ∈ tried id n) (hid : id < 2 ^ 64) :
    ∃ i < n, x = (id + i) % 2 ^ 64 := by
  induction n generalizing id with
  | zero => cases h
  | succ n ih =>
    obtain rfl | h := List.mem_cons.mp h
    · exact ⟨0, Nat.succ_pos n, (Nat.mod_eq_of_lt hid).symm⟩
    · obtain ⟨i, hi, rfl⟩ := ih h (Nat.mod_lt _ (by decide))
      refine ⟨i + 1, Nat.succ_lt_succ hi, ?_⟩
      omega

theorem length_tried (n id : Nat) : (tried id n).length = n := by
  induction n generalizing id with
  | zero => rfl
  | succ n ih => exact congrArg (· + 1) (ih _)

theorem nodup_tried {n id : Nat} (hn : n ≤ 2 ^ 64) (hid : id < 2 ^ 64) : (tried id n).Nodup := by
  induction n generalizing id with
  | zero => exact List.nodup_nil
  | succ n ih =>
    refine List.nodup_cons.mpr ⟨fun h => ?_, ih (by omega) (Nat.mod_lt _ (by decide))⟩
    obtain ⟨i, hi, heq⟩ := mem_tried h (Nat.mod_lt _ (by decide))
    omega

/-- The loop stops at an identifier that it may use, or every identifier it tried is refused. -/
theorem freeId_or (n id : Nat) (hid : id < 2 ^ 64) :
    Matter.World.freeId pending n id < 2 ^ 64 ∧
      ((Matter.World.freeId pending n id ≠ 0 ∧
        Matter.World.freeId pending n id ∉ pending.map Prod.fst) ∨
      ∀ x ∈ tried id n, x ∈ 0 :: pending.map Prod.fst) := by
  induction n generalizing id with
  | zero => exact ⟨hid, .inr (by simp [tried])⟩
  | succ n ih =>
    unfold Matter.World.freeId
    by_cases hbad : id = 0 ∨ id ∈ pending.map Prod.fst
    · rw [if_pos hbad]
      obtain ⟨hlt, h⟩ := ih ((id + 1) % 2 ^ 64) (Nat.mod_lt _ (by decide))
      refine ⟨hlt, h.imp_right fun hall x hx => ?_⟩
      obtain rfl | hx := List.mem_cons.mp hx
      · exact List.mem_cons.mpr hbad
      · exact hall x hx
    · rw [if_neg hbad]
      rw [not_or] at hbad
      exact ⟨hid, .inl hbad⟩

/-- While fewer than `MAX_PENDING_COMMANDS` are pending, the loop over `next_request_id` ends with an
    identifier that is neither zero nor pending. -/
theorem freeId_fresh {id : Nat} (hid : id < 2 ^ 64) (hroom : pending.length < Matter.maxPendingCommands) :
    Matter.World.freeId pending (Matter.maxPendingCommands + 1) id < 2 ^ 64 ∧
      Matter.World.freeId pending (Matter.maxPendingCommands + 1) id ≠ 0 ∧
      Matter.World.freeId pending (Matter.maxPendingCommands + 1) id ∉ pending.map Prod.fst := by
  obtain ⟨hlt, hfree | hall⟩ := @freeId_or pending (Matter.maxPendingCommands + 1) id hid
  · exact ⟨hlt, hfree⟩
  · -- more identifiers are tried than can be refused
    have hle := (List.subperm_of_subset (nodup_tried (by decide) hid) hall).length_le
    rw [length_tried, List.length_cons, List.length_map] at hle
    omega

end Allocator

/-! ## Commands in flight -/

/-- The response to a command. -/
def HostFrame.command : HostFrame → Option (Nat × Token)
  | .response e c => some (e.id, c)
  | .request .. => none

/-- The request of a command. -/
def AdapterFrame.command : AdapterFrame → Option (Nat × Token)
  | .request id _ _ c => some (id, c)
  | .hello | .response .. => none

def Task.command (t : Task) : Nat × Token := (t.id, t.token)

/-- The responses to commands that the adapter has not taken. -/
def World.replies (w : World) : List (Nat × Token) :=
  w.outbound.filterMap HostFrame.command ++ w.toAdapter.filterMap HostFrame.command

/-- The commands that the host has not replied to. -/
def World.unanswered (w : World) : List (Nat × Token) :=
  w.toHost.filterMap AdapterFrame.command ++ w.tasks.map Task.command

/-- The commands that a response has completed. -/
def taken (completed : List (Token × Except Unit Adapter.Value × Option Token)) : List Token :=
  completed.filterMap fun r => r.2.2

/-- `unanswered` and `replies` are the commands in flight. -/
structure CommandsOk (unanswered replies pending : List (Nat × Token)) (queued : List Token)
    (l : Ledger) : Prop where
  matched : List.Perm (unanswered ++ replies) pending
  keys : (pending.map Prod.fst).Nodup
  once : (l.submitted.map Prod.fst).Nodup
  accounted : List.Perm (l.submitted.map Prod.fst)
    (queued ++ pending.map Prod.snd ++ l.completed.map Prod.fst)
  sent : List.Perm l.sent (pending.map Prod.snd ++ taken l.completed)
  replied : List.Perm l.replied (replies.map Prod.snd ++ taken l.completed)
  source : ∀ r ∈ l.completed, ∀ c, r.2.2 = some c → r.1 = c

section Commands

variable {unanswered replies pending unanswered' replies' : List (Nat × Token)} {queued : List Token}
  {l : Ledger}

/-- Commands go from one place to another. -/
theorem commandsOk_perm (h : CommandsOk unanswered replies pending queued l)
    (hun : List.Perm unanswered' unanswered) (hre : List.Perm replies' replies) :
    CommandsOk unanswered' replies' pending queued l where
  __ := h
  matched := (hun.append hre).trans h.matched
  replied := h.replied.trans ((hre.symm.map Prod.snd).append_right _)

theorem commandsOk_submit (h : CommandsOk unanswered replies pending queued l) {c : Token}
    (request : CommandRequest) (hc : c ∉ l.submitted.map Prod.fst) :
    CommandsOk unanswered replies pending (queued ++ [c])
      { l with submitted := l.submitted ++ [(c, request)] } where
  __ := h
  once := by
    rw [List.map_append]
    exact List.concat_eq_append ▸ h.once.concat hc
  accounted := by
    refine List.perm_iff_count.mpr fun x => ?_
    have hx := List.perm_iff_count.mp h.accounted x
    simp only [List.map_append, List.map_cons, List.map_nil, List.count_append, List.count_cons,
      List.count_nil] at hx ⊢
    omega

/-- The request loop sends the frame of a command. -/
theorem commandsOk_send {c : Token} (h : CommandsOk unanswered replies pending (c :: queued) l)
    {id : Nat} (hid : id ∉ pending.map Prod.fst) :
    CommandsOk ((id, c) :: unanswered) replies (pending ++ [(id, c)]) queued
      { l with sent := l.sent ++ [c] } where
  __ := h
  matched := (h.matched.cons (id, c)).trans (List.perm_append_singleton _ _).symm
  keys := by
    rw [List.map_append]
    exact List.concat_eq_append ▸ h.keys.concat hid
  accounted := by
    refine h.accounted.trans (List.perm_iff_count.mpr fun x => ?_)
    simp only [List.map_append, List.map_cons, List.map_nil, List.count_append, List.count_cons,
      List.count_nil]
    omega
  sent := by
    refine (h.sent.append_right [c]).trans (List.perm_iff_count.mpr fun x => ?_)
    simp only [List.map_append, List.map_cons, List.map_nil, List.count_append, List.count_cons,
      List.count_nil]
    omega

/-- A command is completed without a response. -/
theorem commandsOk_refuse {c : Token} (h : CommandsOk unanswered replies pending (c :: queued) l)
    (result : Except Unit Adapter.Value) :
    CommandsOk unanswered replies pending queued
      { l with completed := l.completed ++ [(c, result, none)] } where
  __ := h
  accounted := by
    refine h.accounted.trans (List.perm_iff_count.mpr fun x => ?_)
    simp only [List.map_append, List.map_cons, List.map_nil, List.count_append, List.count_cons,
      List.count_nil]
    omega
  sent := by simpa [taken] using h.sent
  replied := by simpa [taken] using h.replied
  source r hr := by
    obtain hr | hr := List.mem_append.mp hr
    · exact h.source r hr
    · rw [List.mem_singleton.mp hr]
      simp

/-- The host replies to a command. -/
theorem commandsOk_reply {id : Nat} {c : Token}
    (h : CommandsOk ((id, c) :: unanswered) replies pending queued l) :
    CommandsOk unanswered ((id, c) :: replies) pending queued
      { l with replied := l.replied ++ [c] } where
  __ := h
  matched := List.perm_middle.trans h.matched
  replied := (List.perm_append_singleton c _).trans (h.replied.cons c)

theorem find?_of_mem {p : Nat × Token} (hkeys : (pending.map Prod.fst).Nodup) (hp : p ∈ pending) :
    (pending.find? fun q => q.1 = p.1) = some p := by
  cases hf : pending.find? fun q => q.1 = p.1 with
  | none =>
    have := List.find?_eq_none.mp hf p hp
    simp at this
  | some q =>
    have hq := List.find?_some hf
    rw [decide_eq_true_eq] at hq
    rw [List.inj_on_of_nodup_map hkeys (List.mem_of_find?_eq_some hf) hp hq]

theorem eraseP_perm {p : Nat × Token} (hkeys : (pending.map Prod.fst).Nodup) (hp : p ∈ pending) :
    List.Perm pending (p :: pending.eraseP fun q => q.1 = p.1) := by
  obtain ⟨q, xs, ys, hxs, hq, heq, herase⟩ :=
    List.exists_of_eraseP (p := fun q : Nat × Token => q.1 = p.1) hp (by simp)
  rw [decide_eq_true_eq] at hq
  have hqp : q = p := List.inj_on_of_nodup_map hkeys (by simp [heq]) hp hq
  rw [herase, heq, hqp]
  exact List.perm_middle

/-- The request loop takes the response to a command: the entry is that of the command. -/
theorem commandsOk_take {id : Nat} {c : Token}
    (h : CommandsOk unanswered ((id, c) :: replies) pending queued l)
    (result : Except Unit Adapter.Value) :
    (pending.find? fun p => p.1 = id) = some (id, c) ∧
      CommandsOk unanswered replies (pending.eraseP fun p => p.1 = id) queued
        { l with completed := l.completed ++ [(c, result, some c)] } := by
  have hmem : (id, c) ∈ pending := h.matched.mem_iff.mp (by simp)
  have hperm := eraseP_perm h.keys hmem
  refine ⟨find?_of_mem h.keys hmem, ?_, ?_, h.once, ?_, ?_, ?_, ?_⟩
  · exact List.Perm.cons_inv (List.perm_middle.symm.trans (h.matched.trans hperm))
  · exact (List.nodup_cons.mp ((hperm.map Prod.fst).nodup_iff.mp h.keys)).2
  · refine h.accounted.trans ?_
    rw [List.map_append, ← List.append_assoc]
    refine List.Perm.trans ?_ (List.perm_append_singleton c _).symm
    have hsnd : List.Perm (pending.map Prod.snd) (c :: (pending.eraseP fun p => p.1 = id).map Prod.snd) :=
      hperm.map Prod.snd
    exact ((hsnd.append_left queued).append_right _).trans (List.perm_middle.append_right _)
  · refine h.sent.trans ?_
    have hsnd : List.Perm (pending.map Prod.snd) (c :: (pending.eraseP fun p => p.1 = id).map Prod.snd) :=
      hperm.map Prod.snd
    simp only [taken, List.filterMap_append, List.filterMap_cons, List.filterMap_nil,
      ← List.append_assoc]
    exact (hsnd.append_right _).trans (List.perm_append_singleton c _).symm
  · refine h.replied.trans ?_
    simp only [taken, List.filterMap_append, List.filterMap_cons, List.filterMap_nil,
      ← List.append_assoc]
    exact (List.perm_append_singleton c _).symm
  · intro r hr c' hc'
    obtain hr | hr := List.mem_append.mp hr
    · exact h.source r hr c' hc'
    · rw [List.mem_singleton.mp hr] at hc' ⊢
      exact Option.some.inj hc'

/-- The commands in flight are distinct, were submitted, and are not queued any more. -/
theorem CommandsOk.tokens (h : CommandsOk unanswered replies pending queued l) :
    ((unanswered ++ replies).map Prod.snd).Nodup ∧
      (∀ c ∈ (unanswered ++ replies).map Prod.snd, c ∉ queued ∧ c ∈ l.submitted.map Prod.fst) := by
  have hperm := h.matched.map Prod.snd
  have hnodup := h.accounted.nodup_iff.mp h.once
  rw [List.append_assoc, List.nodup_append] at hnodup
  obtain ⟨-, hrest, hdisjoint⟩ := hnodup
  refine ⟨hperm.nodup_iff.mpr (List.nodup_append.mp hrest).1, fun c hc => ?_⟩
  have hc' := hperm.mem_iff.mp hc
  refine ⟨fun hq => hdisjoint c hq c (List.mem_append_left _ hc') rfl, ?_⟩
  exact h.accounted.mem_iff.mpr (List.mem_append_left _ (List.mem_append_right _ hc'))

end Commands

/-! ## Values -/

section Values

variable {F : Formats} {l l' : Ledger} {c : Token}

/-- `body` is that of the frame of command `c`. -/
def Asked (F : Formats) (l : Ledger) (c : Token) (body : Option String) : Prop :=
  ∃ request text, (c, request) ∈ l.submitted ∧ F.encodeCommand request = .ok text ∧ body = some text

/-- `command` is what the host reads in the frame of command `c`. -/
def Ordered (F : Formats) (l : Ledger) (c : Token) (command : Core.Command) : Prop :=
  ∃ request text wire, (c, request) ∈ l.submitted ∧ F.encodeCommand request = .ok text ∧
    F.decodeCommand text = .ok wire ∧ coreCommand F wire = .ok command

/-- `write_value` has been called for command `c` with what its frame says, and has returned
    `effective`. -/
def Effected (F : Formats) (l : Ledger) (c : Token) (effective : Core.Value) : Prop :=
  ∃ command, Ordered F l c command ∧ l.executed c = some (command, .ok effective)

/-- `e` is a response to command `c`. -/
def Answers (F : Formats) (l : Ledger) (c : Token) (e : Envelope) : Prop :=
  e.method = methodCommand ∧ (e.error = none → ∃ effective body, Effected F l c effective ∧
    F.encodeResponse (Adapter.valueToApi effective) = .ok body ∧ e.body = some body)

def TaskOk (F : Formats) (l : Ledger) (t : Task) : Prop :=
  t.method = methodCommand ∧ match t.pc with
    | .spawned => Asked F l t.token t.body ∧ l.executed t.token = none
    | .writing command => Ordered F l t.token command ∧ l.executed t.token = none
    | .sending e _ => e.id = t.id ∧ Answers F l t.token e
    | .ended => True

/-- A command that was completed with a value was completed with what `write_value` returned. -/
def CompletedOk (F : Formats) (l : Ledger) : Prop :=
  ∀ r ∈ l.completed, ∀ v, r.2.1 = .ok v → ∃ effective body, Effected F l r.1 effective ∧
    F.encodeResponse (Adapter.valueToApi effective) = .ok body ∧ F.decodeResponse body = .ok v

/-- More commands have been submitted and more calls of `write_value` have returned. -/
structure Extends (l l' : Ledger) : Prop where
  submitted : ∀ r ∈ l.submitted, r ∈ l'.submitted
  executed : ∀ c x, l.executed c = some x → l'.executed c = some x

theorem Ordered.mono (hl : Extends l l') {command : Core.Command} (h : Ordered F l c command) :
    Ordered F l' c command := by
  obtain ⟨request, text, wire, h1, h2⟩ := h
  exact ⟨request, text, wire, hl.submitted _ h1, h2⟩

theorem Asked.mono (hl : Extends l l') {body : Option String} (h : Asked F l c body) :
    Asked F l' c body := by
  obtain ⟨request, text, h1, h2⟩ := h
  exact ⟨request, text, hl.submitted _ h1, h2⟩

theorem Effected.mono (hl : Extends l l') {effective : Core.Value} (h : Effected F l c effective) :
    Effected F l' c effective := by
  obtain ⟨command, h1, h2⟩ := h
  exact ⟨command, h1.mono hl, hl.executed _ _ h2⟩

theorem Answers.mono (hl : Extends l l') {e : Envelope} (h : Answers F l c e) : Answers F l' c e := by
  refine ⟨h.1, fun he => ?_⟩
  obtain ⟨effective, body, h1, h2⟩ := h.2 he
  exact ⟨effective, body, h1.mono hl, h2⟩

/-- A task keeps what is known of it, if its command has not been executed since. -/
theorem TaskOk.mono (hl : Extends l l') {t : Task}
    (hnone : l.executed t.token = none → l'.executed t.token = none) (h : TaskOk F l t) :
    TaskOk F l' t := by
  refine ⟨h.1, ?_⟩
  have h' := h.2
  cases hpc : t.pc with
  | spawned =>
    simp only [hpc] at h' ⊢
    exact ⟨h'.1.mono hl, hnone h'.2⟩
  | writing command =>
    simp only [hpc] at h' ⊢
    exact ⟨h'.1.mono hl, hnone h'.2⟩
  | sending e permit =>
    simp only [hpc] at h' ⊢
    exact ⟨h'.1, h'.2.mono hl⟩
  | ended => trivial

theorem completedOk_mono (hl : Extends l l') (hcompleted : l'.completed = l.completed)
    (h : CompletedOk F l) : CompletedOk F l' := by
  intro r hr v hv
  obtain ⟨effective, body, h1, h2⟩ := h r (hcompleted ▸ hr) v hv
  exact ⟨effective, body, h1.mono hl, h2⟩

/-- What a response to a command completes it with. -/
theorem effective_of_answers {e : Envelope} (h : Answers F l c e) {v : Adapter.Value}
    (hv : World.effective F e = .ok v) : ∃ effective body, Effected F l c effective ∧
      F.encodeResponse (Adapter.valueToApi effective) = .ok body ∧ F.decodeResponse body = .ok v := by
  unfold World.effective at hv
  cases he : e.error with
  | some error => simp [he] at hv
  | none =>
    obtain ⟨effective, body, h1, h2, hbody⟩ := h.2 he
    simp only [he, hbody, Option.isSome_none, Bool.false_eq_true, if_false] at hv
    refine ⟨effective, body, h1, h2, ?_⟩
    cases hd : F.decodeResponse body with
    | error message => simp [hd, Except.mapError] at hv
    | ok v' =>
      simp only [hd, Except.mapError, Except.ok.injEq] at hv
      rw [hv]

end Values

/-! ## The commands of a world -/

/-- What is known of the commands of a world. -/
structure SideOk (F : Formats) (w : World) : Prop where
  commands : CommandsOk w.unanswered w.replies w.adapter.pending (w.adapter.commands.map Prod.fst)
    w.ledger
  frames : ∀ id method body c, .request id method body c ∈ w.toHost →
    method = methodCommand ∧ Asked F w.ledger c body ∧ w.ledger.executed c = none
  tasks : ∀ t ∈ w.tasks, TaskOk F w.ledger t
  answers : ∀ e c, .response e c ∈ w.outbound ++ w.toAdapter → Answers F w.ledger c e
  queued : ∀ r ∈ w.adapter.commands, r ∈ w.ledger.submitted ∧ w.ledger.executed r.1 = none
  fresh : ∀ c, c ∉ w.ledger.submitted.map Prod.fst → w.ledger.executed c = none
  completed : CompletedOk F w.ledger
  nextRequestId : w.adapter.nextRequestId < 2 ^ 64
  closed : w.writing = false ∨ (∃ t ∈ w.tasks, t.pc = .ended) → w.host.failure.isSome = true

/-- A step that leaves the commands alone, or where they are on their way. -/
structure Same (w w' : World) : Prop where
  requests : ∀ id method body c, .request id method body c ∈ w'.toHost →
    .request id method body c ∈ w.toHost
  unanswered : List.Perm w'.unanswered w.unanswered
  responses : ∀ e c, .response e c ∈ w'.outbound ++ w'.toAdapter →
    .response e c ∈ w.outbound ++ w.toAdapter
  replies : List.Perm w'.replies w.replies
  tasks : w'.tasks = w.tasks
  pending : w'.adapter.pending = w.adapter.pending
  commands : w'.adapter.commands = w.adapter.commands
  nextRequestId : w'.adapter.nextRequestId = w.adapter.nextRequestId
  submitted : w'.ledger.submitted = w.ledger.submitted
  sent : w'.ledger.sent = w.ledger.sent
  executed : w'.ledger.executed = w.ledger.executed
  replied : w'.ledger.replied = w.ledger.replied
  completed : w'.ledger.completed = w.ledger.completed
  writing : w'.writing = false → w.writing = false ∨ w'.host.failure.isSome = true
  failure : w.host.failure.isSome = true → w'.host.failure.isSome = true

section Side

variable {F : Formats} {w w' : World}

theorem sideOk_same (h : SideOk F w) (hs : Same w w') : SideOk F w' := by
  have hext : Extends w.ledger w'.ledger :=
    ⟨fun r hr => hs.submitted ▸ hr, fun c x hx => hs.executed ▸ hx⟩
  have hcommands := commandsOk_perm h.commands hs.unanswered hs.replies
  refine ⟨?_, ?_, ?_, ?_, ?_, ?_, ?_, ?_, ?_⟩
  · rw [hs.pending, hs.commands]
    refine ⟨hcommands.matched, hcommands.keys, ?_, ?_, ?_, ?_, ?_⟩
    · rw [hs.submitted]
      exact hcommands.once
    · rw [hs.submitted, hs.completed]
      exact hcommands.accounted
    · rw [hs.sent, hs.completed]
      exact hcommands.sent
    · rw [hs.replied, hs.completed]
      exact hcommands.replied
    · rw [hs.completed]
      exact hcommands.source
  · intro id method body c hm
    obtain ⟨h1, h2, h3⟩ := h.frames id method body c (hs.requests id method body c hm)
    exact ⟨h1, h2.mono hext, hs.executed ▸ h3⟩
  · intro t ht
    rw [hs.tasks] at ht
    exact (h.tasks t ht).mono hext fun hn => hs.executed ▸ hn
  · exact fun e c hm => (h.answers e c (hs.responses e c hm)).mono hext
  · intro r hr
    rw [hs.commands] at hr
    rw [hs.submitted, hs.executed]
    exact h.queued r hr
  · rw [hs.submitted, hs.executed]
    exact h.fresh
  · exact completedOk_mono hext hs.completed h.completed
  · rw [hs.nextRequestId]
    exact h.nextRequestId
  · rw [hs.tasks]
    rintro (hw | ht)
    · obtain hw | hf := hs.writing hw
      · exact hs.failure (h.closed (.inl hw))
      · exact hf
    · exact hs.failure (h.closed (.inr ht))

/-! ## Steps that leave the commands alone -/

/-- A step of the session, and of the queues without their commands. -/
theorem same_session (hsound : ∀ (k : Session.CallId) t, w.host.calls[k]? = some t → t.Sound)
    {a : Session.Action} (hs : w.session a = some w') : Same w w' := by
  obtain ⟨host, hstep, rfl⟩ := Option.map_eq_some_iff.mp hs
  exact ⟨fun _ _ _ _ h => h, List.Perm.refl _, fun _ _ h => h, List.Perm.refl _, rfl, rfl, rfl, rfl,
    rfl, rfl, rfl, rfl, rfl, .inl, Session.failure_step hsound hstep⟩

theorem Same.trans {w'' : World} (h : Same w w') (h' : Same w' w'') : Same w w'' where
  requests id method body c hm := h.requests id method body c (h'.requests id method body c hm)
  unanswered := h'.unanswered.trans h.unanswered
  responses e c hm := h.responses e c (h'.responses e c hm)
  replies := h'.replies.trans h.replies
  tasks := h'.tasks.trans h.tasks
  pending := h'.pending.trans h.pending
  commands := h'.commands.trans h.commands
  nextRequestId := h'.nextRequestId.trans h.nextRequestId
  submitted := h'.submitted.trans h.submitted
  sent := h'.sent.trans h.sent
  executed := h'.executed.trans h.executed
  replied := h'.replied.trans h.replied
  completed := h'.completed.trans h.completed
  writing hw := by
    obtain hw | hf := h'.writing hw
    · obtain hw | hf := h.writing hw
      · exact .inl hw
      · exact .inr (h'.failure hf)
    · exact .inr hf
  failure hf := h'.failure (h.failure hf)

/-- A frame of the host that answers no command. -/
theorem same_outbound (w : World) (id : Nat) (method : String) (k : Session.CallId)
    (issued : List (Session.CallId × Nat)) :
    Same w { w with
      outbound := w.outbound ++ [.request id method k]
      ledger := { w.ledger with issued } } where
  requests _ _ _ _ h := h
  unanswered := List.Perm.refl _
  responses e c hm := by simpa using hm
  replies := by
    simp only [World.replies, List.filterMap_append, List.filterMap_cons, HostFrame.command,
      List.filterMap_nil, List.append_nil]
    exact List.Perm.refl _
  tasks := rfl
  pending := rfl
  commands := rfl
  nextRequestId := rfl
  submitted := rfl
  sent := rfl
  executed := rfl
  replied := rfl
  completed := rfl
  writing := .inl
  failure h := h

/-- The head of the stream to the host, when it is no command. -/
theorem same_skip {frame : AdapterFrame} {rest : List AdapterFrame} (hto : w.toHost = frame :: rest)
    (hframe : frame.command = none) (reading : Option Session.CallId) :
    Same w { w with toHost := rest, reading } where
  requests id method body c hm := by
    rw [hto]
    exact List.mem_cons_of_mem _ hm
  unanswered := by
    simp only [World.unanswered, hto, List.filterMap_cons, hframe]
    exact List.Perm.refl _
  responses _ _ h := h
  replies := List.Perm.refl _
  tasks := rfl
  pending := rfl
  commands := rfl
  nextRequestId := rfl
  submitted := rfl
  sent := rfl
  executed := rfl
  replied := rfl
  completed := rfl
  writing := .inl
  failure h := h

theorem same_exit (w : World) : Same w w.exit :=
  ⟨fun _ _ _ _ h => h, List.Perm.refl _, fun _ _ h => h, List.Perm.refl _, rfl, rfl, rfl, rfl,
    rfl, rfl, rfl, rfl, rfl, .inl, fun h => h⟩

theorem same_advance (hc : CallsOk w) {k : Session.CallId} (hs : w.advance k = some w') :
    Same w w' := by
  unfold World.advance at hs
  split at hs
  · split at hs
    · obtain ⟨host, hstep, rfl⟩ := Option.map_eq_some_iff.mp hs
      have hhost : Same w { w with host } :=
        same_session hc.host.sound (Option.map_eq_some_iff.mpr ⟨host, hstep, rfl⟩)
      exact hhost.trans (same_outbound { w with host } _ _ _ _)
    · cases hs
  · exact same_session hc.host.sound hs

theorem same_refuse (hc : CallsOk w) {k : Session.CallId} (hs : w.refuse k = some w') :
    Same w w' := by
  unfold World.refuse at hs
  split at hs
  · split at hs
    · cases hs
    · exact same_session hc.host.sound hs
  · exact same_session hc.host.sound hs

theorem same_read (hc : CallsOk w) (hs : w.read = some w') : Same w w' := by
  obtain ⟨host, hstep, rfl⟩ := Option.map_eq_some_iff.mp hs
  have hfailure := Session.failure_step hc.host.sound hstep
  split
  all_goals
    exact ⟨fun _ _ _ _ h => h, List.Perm.refl _, fun _ _ h => h, List.Perm.refl _, rfl, rfl, rfl, rfl,
      rfl, rfl, rfl, rfl, rfl, .inl, hfailure⟩

theorem same_write (hs : w.write = some w') : Same w w' := by
  unfold World.write at hs
  cases hw : w.writing with
  | false => simp [hw] at hs
  | true =>
    cases hout : w.outbound with
    | nil => simp [hw, hout] at hs
    | cons frame rest =>
      simp only [hw, hout, Option.some.injEq] at hs
      subst hs
      refine ⟨fun _ _ _ _ h => h, List.Perm.refl _, ?_, ?_, rfl, rfl, rfl, rfl, rfl, rfl, rfl, rfl, rfl,
        ?_, fun h => h⟩
      · intro e c hm
        simp only [hout, List.mem_append, List.mem_cons, List.not_mem_nil, or_false] at hm ⊢
        tauto
      · simp only [World.replies, hout, List.filterMap_append, List.filterMap_cons, List.filterMap_nil]
        cases frame.command with
        | none => simp
        | some r =>
          rw [← List.append_assoc]
          exact List.perm_append_singleton r _
      · rw [hw]
        exact .inl

theorem same_answer {outcome : Except ProtocolError String} (hs : w.answer outcome = some w') :
    Same w w' := by
  unfold World.answer at hs
  split at hs
  · simp only [Option.some.injEq] at hs
    subst hs
    split
    · refine ⟨?_, ?_, fun _ _ h => h, List.Perm.refl _, rfl, rfl, rfl, rfl, rfl, rfl, rfl, rfl, rfl,
        .inl, fun h => h⟩
      · intro id method body c hm
        simpa using hm
      · simp only [World.unanswered, List.filterMap_append, List.filterMap_cons, AdapterFrame.command,
          List.filterMap_nil, List.append_nil]
        exact List.Perm.refl _
    · exact same_exit w
  · cases hs

/-! ## Steps of the tasks -/

theorem split_at {α : Type} {xs : List α} {i : Nat} {a : α} (h : xs[i]? = some a) :
    ∃ us vs, xs = us ++ a :: vs ∧ (∀ b, xs.set i b = us ++ b :: vs) ∧ xs.eraseIdx i = us ++ vs := by
  induction xs generalizing i with
  | nil => simp at h
  | cons x xs ih =>
    cases i with
    | zero =>
      simp only [List.getElem?_cons_zero, Option.some.injEq] at h
      subst h
      exact ⟨[], xs, rfl, fun b => rfl, rfl⟩
    | succ i =>
      rw [List.getElem?_cons_succ] at h
      obtain ⟨us, vs, h1, h2, h3⟩ := ih h
      refine ⟨x :: us, vs, by simp [h1], fun b => by simp [h2], by simp [h3]⟩

/-- The command of a task is in no other task, on no stream and in no queue. -/
theorem token_unique (h : SideOk F w) {us vs : List Task} {t : Task} (htasks : w.tasks = us ++ t :: vs) :
    (∀ t' ∈ us ++ vs, t'.token ≠ t.token) ∧
      (∀ id method body c, .request id method body c ∈ w.toHost → c ≠ t.token) ∧
      (∀ r ∈ w.adapter.commands, r.1 ≠ t.token) ∧ t.token ∈ w.ledger.submitted.map Prod.fst := by
  obtain ⟨hnodup, hplace⟩ := h.commands.tokens
  have hperm : List.Perm (w.unanswered ++ w.replies)
      (t.command :: (w.toHost.filterMap AdapterFrame.command ++ (us ++ vs).map Task.command ++
        w.replies)) := by
    simp only [World.unanswered, htasks, List.map_append, List.map_cons, List.append_assoc]
    rw [← List.append_assoc, ← List.append_assoc (w.toHost.filterMap _)]
    exact List.perm_middle
  have hperm' := hperm.map Prod.snd
  rw [hperm'.nodup_iff, List.map_cons, List.nodup_cons] at hnodup
  have hown : t.token ∈ (w.unanswered ++ w.replies).map Prod.snd := hperm'.mem_iff.mpr (by
    simp [Task.command])
  refine ⟨fun t' ht' heq => hnodup.1 ?_, fun id method body c hm heq => hnodup.1 ?_, ?_,
    (hplace _ hown).2⟩
  · rw [List.map_append, List.map_append]
    refine List.mem_append_left _ (List.mem_append_right _ ?_)
    exact List.mem_map.mpr ⟨t'.command, List.mem_map_of_mem ht', heq⟩
  · rw [List.map_append, List.map_append]
    refine List.mem_append_left _ (List.mem_append_left _ ?_)
    exact List.mem_map.mpr ⟨(id, c), List.mem_filterMap.mpr ⟨_, hm, rfl⟩, heq⟩
  · intro r hr heq
    exact (hplace _ hown).1 (heq ▸ List.mem_map_of_mem hr)

/-- A task goes on. Only its own command can have been executed. -/
theorem sideOk_task (h : SideOk F w) {i : Nat} {t : Task} (hi : w.tasks[i]? = some t) {host : Sys}
    {pc : TaskPc} {executed : Token → Option (Core.Command × Except Core.RuntimeError Core.Value)}
    (hfailure : w.host.failure.isSome = true → host.failure.isSome = true)
    (hsome : ∀ c x, w.ledger.executed c = some x → executed c = some x)
    (hother : ∀ c, c ≠ t.token → executed c = w.ledger.executed c)
    (htask : TaskOk F { w.ledger with executed } { t with pc })
    (hended : pc = .ended → host.failure.isSome = true) :
    SideOk F { w with
      host
      tasks := w.tasks.set i { t with pc }
      ledger := { w.ledger with executed } } := by
  obtain ⟨us, vs, htasks, hset, -⟩ := split_at hi
  obtain ⟨hunique, hframes, hqueued, hsubmitted⟩ := token_unique h htasks
  have hext : Extends w.ledger { w.ledger with executed } := ⟨fun r hr => hr, hsome⟩
  rw [hset]
  refine ⟨?_, ?_, ?_, ?_, ?_, ?_, completedOk_mono hext rfl h.completed, h.nextRequestId, ?_⟩
  · have hun : World.unanswered { w with
        host
        tasks := us ++ { t with pc } :: vs
        ledger := { w.ledger with executed } } = w.unanswered := by
      simp only [World.unanswered, htasks, List.map_append, List.map_cons]
      rfl
    have hc := h.commands
    rw [hun]
    exact ⟨hc.matched, hc.keys, hc.once, hc.accounted, hc.sent, hc.replied, hc.source⟩
  · intro id method body c hm
    obtain ⟨h1, h2, h3⟩ := h.frames id method body c hm
    exact ⟨h1, h2.mono hext, (hother c (hframes id method body c hm)).trans h3⟩
  · intro t' ht'
    have hcases : t' = { t with pc } ∨ t' ∈ us ++ vs := by
      simp only [List.mem_append, List.mem_cons] at ht' ⊢
      tauto
    obtain rfl | ht' := hcases
    · exact htask
    · have hmem : t' ∈ w.tasks := by
        rw [htasks]
        simp only [List.mem_append, List.mem_cons] at ht' ⊢
        tauto
      exact (h.tasks t' hmem).mono hext fun hn => (hother _ (hunique t' ht')).trans hn
  · exact fun e c hm => (h.answers e c hm).mono hext
  · intro r hr
    obtain ⟨h1, h2⟩ := h.queued r hr
    exact ⟨h1, (hother _ (hqueued r hr)).trans h2⟩
  · intro c hc
    refine (hother c fun heq => hc ?_).trans (h.fresh c hc)
    exact heq ▸ hsubmitted
  · rintro (hw | ⟨t', ht', hpc⟩)
    · exact hfailure (h.closed (.inl hw))
    · have hcases : t' = { t with pc } ∨ t' ∈ us ++ vs := by
        simp only [List.mem_append, List.mem_cons] at ht' ⊢
        tauto
      obtain rfl | ht' := hcases
      · exact hended hpc
      · refine hfailure (h.closed (.inr ⟨t', ?_, hpc⟩))
        rw [htasks]
        simp only [List.mem_append, List.mem_cons] at ht' ⊢
        tauto

theorem sideOk_putTask (h : SideOk F w) {i : Nat} {t : Task} (hi : w.tasks[i]? = some t) {pc : TaskPc}
    (htask : TaskOk F w.ledger { t with pc }) (hended : pc ≠ .ended) : SideOk F (w.putTask i t pc) :=
  sideOk_task h hi (fun hf => hf) (fun _ _ hx => hx) (fun _ _ => rfl) htask fun he => absurd he hended

/-- `respond` with an error answers any command. -/
theorem taskOk_error {l : Ledger} {t : Task} (hm : t.method = methodCommand) (error : ProtocolError)
    (permit : Bool) :
    TaskOk F l { t with pc := .sending ⟨t.id, t.method, none, some error⟩ permit } :=
  ⟨hm, rfl, hm, by simp⟩

theorem sideOk_dispatch (h : SideOk F w) {i : Nat} {t : Task} (hi : w.tasks[i]? = some t)
    (hpc : t.pc = .spawned) : SideOk F (w.dispatch F i t) := by
  obtain ⟨hm, hasked⟩ := h.tasks t (List.mem_of_getElem? hi)
  simp only [hpc] at hasked
  obtain ⟨⟨request, text, hreq, henc, hbody⟩, hnone⟩ := hasked
  have herror : ∀ error permit, SideOk F (w.respondError i t error permit) := fun error permit =>
    sideOk_putTask h hi (taskOk_error hm error permit) (by simp)
  unfold World.dispatch
  split
  · simp only [hbody]
    cases hdec : F.decodeCommand text with
    | error message =>
      simp only
      exact herror _ _
    | ok wire =>
      simp only
      cases hcmd : coreCommand F wire with
      | error error =>
        simp only
        exact herror _ _
      | ok command =>
        simp only
        exact sideOk_putTask h hi ⟨hm, ⟨request, text, wire, hreq, henc, hdec, hcmd⟩, hnone⟩ (by simp)
  · exact herror _ _

theorem sideOk_written (h : SideOk F w)
    (hsound : ∀ (k : Session.CallId) t, w.host.calls[k]? = some t → t.Sound) {i : Nat} {t : Task}
    {command : Core.Command} (hi : w.tasks[i]? = some t) (hpc : t.pc = .writing command)
    {result : Except Core.RuntimeError Core.Value} (hs : w.written F i t command result = some w') :
    SideOk F w' := by
  obtain ⟨hm, hordered⟩ := h.tasks t (List.mem_of_getElem? hi)
  simp only [hpc] at hordered
  obtain ⟨hordered, hnone⟩ := hordered
  have hsome : ∀ c x, w.ledger.executed c = some x →
      Function.update w.ledger.executed t.token (some (command, result)) c = some x := by
    intro c x hx
    rw [Function.update_of_ne, hx]
    rintro rfl
    rw [hnone] at hx
    cases hx
  have hother : ∀ c, c ≠ t.token →
      Function.update w.ledger.executed t.token (some (command, result)) c = w.ledger.executed c :=
    fun c hc => Function.update_of_ne hc _ _
  simp only [World.written] at hs
  cases hresult : result with
  | error error =>
    simp only [hresult, commandResponse, Except.mapError, Except.map, Option.some.injEq] at hs
    subst hs
    rw [hresult] at hsome hother
    exact sideOk_task h hi (fun hf => hf) hsome hother (taskOk_error hm _ _) (by simp)
  | ok effective =>
    simp only [hresult, commandResponse, Except.mapError, Except.map] at hs
    rw [hresult] at hsome hother
    cases henc : F.encodeResponse (Adapter.valueToApi effective) with
    | error message =>
      simp only [henc] at hs
      obtain ⟨host, hstep, rfl⟩ := Option.map_eq_some_iff.mp hs
      exact sideOk_task h hi (Session.failure_step hsound hstep) hsome hother ⟨hm, trivial⟩
        fun _ => Session.isSome_failure_fail hstep
    | ok body =>
      simp only [henc, Option.some.injEq] at hs
      subst hs
      refine sideOk_task h hi (fun hf => hf) hsome hother ⟨hm, rfl, hm, fun _ => ?_⟩ (by simp)
      exact ⟨effective, body, ⟨command, hordered, Function.update_self _ _ _⟩, henc, rfl⟩

theorem sideOk_reply (h : SideOk F w) {i : Nat} {t : Task} {e : Envelope} {permit : Bool}
    (hi : w.tasks[i]? = some t) (hpc : t.pc = .sending e permit) (hs : w.reply i t e = some w') :
    SideOk F w' := by
  obtain ⟨hm, hanswer⟩ := h.tasks t (List.mem_of_getElem? hi)
  simp only [hpc] at hanswer
  unfold World.reply at hs
  by_cases hw : w.writing = true
  · rw [if_pos hw] at hs
    by_cases hroom : w.outbound.length < outboundQueue
    · rw [if_pos hroom, Option.some.injEq] at hs
      subst hs
      obtain ⟨us, vs, htasks, -, herase⟩ := split_at hi
      have hmem : ∀ t', t' ∈ us ++ vs → t' ∈ w.tasks := fun t' ht' => by
        rw [htasks]
        simp only [List.mem_append, List.mem_cons] at ht' ⊢
        tauto
      have hext : Extends w.ledger { w.ledger with replied := w.ledger.replied ++ [t.token] } :=
        ⟨fun r hr => hr, fun c x hx => hx⟩
      rw [herase]
      refine ⟨?_, h.frames, ?_, ?_, h.queued, h.fresh, completedOk_mono hext rfl h.completed,
        h.nextRequestId, ?_⟩
      · have hperm : List.Perm w.unanswered ((t.id, t.token) ::
            (w.toHost.filterMap AdapterFrame.command ++ (us ++ vs).map Task.command)) := by
          simp only [World.unanswered, htasks, List.map_append, List.map_cons]
          rw [← List.append_assoc, ← List.append_assoc]
          exact List.perm_middle
        have hreply := commandsOk_reply (commandsOk_perm h.commands hperm.symm (List.Perm.refl _))
        refine commandsOk_perm hreply (List.Perm.refl _) ?_
        simp only [World.replies, List.filterMap_append, List.filterMap_cons, HostFrame.command,
          hanswer.1, List.filterMap_nil, List.append_assoc, List.singleton_append]
        exact List.perm_middle
      · exact fun t' ht' => (h.tasks t' (hmem t' ht')).mono hext fun hn => hn
      · intro e' c hm'
        simp only [List.mem_append, List.mem_cons, List.not_mem_nil, or_false] at hm'
        rcases hm' with (hm' | hm') | hm'
        · exact (h.answers e' c (List.mem_append_left _ hm')).mono hext
        · simp only [HostFrame.response.injEq] at hm'
          obtain ⟨rfl, rfl⟩ := hm'
          exact hanswer.2.mono hext
        · exact (h.answers e' c (List.mem_append_right _ hm')).mono hext
      · rintro (hw' | ⟨t', ht', hpc'⟩)
        · exact h.closed (.inl hw')
        · exact h.closed (.inr ⟨t', hmem t' ht', hpc'⟩)
    · rw [if_neg hroom] at hs
      cases hs
  · rw [if_neg hw, Option.some.injEq] at hs
    subst hs
    exact sideOk_task h hi (fun hf => hf) (fun _ _ hx => hx) (fun _ _ => rfl) ⟨hm, trivial⟩
      fun _ => h.closed (.inl (Bool.eq_false_iff.mpr hw))

/-! ## Steps of the read loop and of the request loop -/

/-- `dispatch_command` takes the frame of a command from the stream. -/
theorem sideOk_spawned (h : SideOk F w) {id : Nat} {method : String} {body : Option String} {c : Token}
    {rest : List AdapterFrame} (hto : w.toHost = .request id method body c :: rest) :
    SideOk F { w with toHost := rest, tasks := w.tasks ++ [⟨id, method, body, c, .spawned⟩] } := by
  obtain ⟨hm, hasked⟩ := h.frames id method body c (by simp [hto])
  refine ⟨?_, ?_, ?_, h.answers, h.queued, h.fresh, h.completed, h.nextRequestId, ?_⟩
  · refine commandsOk_perm h.commands ?_ (List.Perm.refl _)
    simp only [World.unanswered, hto, List.filterMap_cons, AdapterFrame.command, List.map_append,
      List.map_cons, List.map_nil, Task.command, ← List.append_assoc, List.cons_append]
    exact List.perm_append_singleton _ _
  · intro id' method' body' c' hm'
    exact h.frames id' method' body' c' (by rw [hto]; exact List.mem_cons_of_mem _ hm')
  · intro t ht
    obtain ht | ht := List.mem_append.mp ht
    · exact h.tasks t ht
    · rw [List.mem_singleton.mp ht]
      exact ⟨hm, hasked⟩
  · rintro (hw | ⟨t, ht, hpc⟩)
    · exact h.closed (.inl hw)
    · obtain ht | ht := List.mem_append.mp ht
      · exact h.closed (.inr ⟨t, ht, hpc⟩)
      · rw [List.mem_singleton.mp ht] at hpc
        cases hpc

theorem sideOk_receive (hc : CallsOk w) (h : SideOk F w) (hs : w.receive = some w') : SideOk F w' := by
  unfold World.receive at hs
  split at hs
  · rename_i rest hr hto
    have hskip := same_skip hto rfl w.reading
    exact sideOk_same h (hskip.trans (same_session hc.host.sound hs))
  · rename_i e k rest hr hto
    have hskip := same_skip hto rfl (some k)
    exact sideOk_same h (hskip.trans (same_session hc.host.sound hs))
  · rename_i id method body c rest hr hto
    have hhello := hello_of_head hc hto (by simp)
    have hm := (h.frames id method body c (by simp [hto])).1
    rw [if_pos ⟨hhello, hm⟩] at hs
    exact sideOk_same (sideOk_spawned h hto) (same_session hc.host.sound hs)
  · cases hs

theorem sideOk_take (h : SideOk F w) (hs : w.take F = some w') : SideOk F w' := by
  unfold World.take at hs
  split at hs
  · rename_i id method k rest hl hto
    simp only [Option.some.injEq] at hs
    subst hs
    refine sideOk_same h ⟨fun _ _ _ _ h => h, List.Perm.refl _, ?_, ?_, rfl, rfl, rfl, rfl, rfl, rfl,
      rfl, rfl, rfl, .inl, fun h => h⟩
    · intro e c hm
      rw [hto]
      simp only [List.mem_append, List.mem_cons] at hm ⊢
      tauto
    · simp only [World.replies, hto, List.filterMap_cons, HostFrame.command]
      exact List.Perm.refl _
  · rename_i e c rest hl hto
    have hanswer := h.answers e c (by simp [hto])
    have hperm : List.Perm w.replies ((e.id, c) ::
        (w.outbound.filterMap HostFrame.command ++ rest.filterMap HostFrame.command)) := by
      simp only [World.replies, hto, List.filterMap_cons, HostFrame.command]
      exact List.perm_middle
    obtain ⟨hfind, hcommands⟩ := commandsOk_take
      (commandsOk_perm h.commands (List.Perm.refl _) hperm.symm) (World.effective F e)
    simp only [hanswer.1, ne_eq, not_true_eq_false, if_false, hfind, Option.some.injEq] at hs
    subst hs
    refine ⟨hcommands, h.frames, h.tasks, ?_, h.queued, h.fresh, ?_, h.nextRequestId, h.closed⟩
    · intro e' c' hm
      refine h.answers e' c' ?_
      rw [hto]
      simp only [List.mem_append, List.mem_cons] at hm ⊢
      tauto
    · intro r hr v hv
      obtain hr | hr := List.mem_append.mp hr
      · exact h.completed r hr v hv
      · rw [List.mem_singleton.mp hr] at hv ⊢
        exact effective_of_answers hanswer hv
  · cases hs

/-- A command is completed without a response. -/
theorem sideOk_complete (h : SideOk F w) {c : Token} {request : CommandRequest}
    {rest : List (Token × CommandRequest)} (hq : w.adapter.commands = (c, request) :: rest)
    {nextRequestId : Nat} (hnext : nextRequestId < 2 ^ 64) :
    SideOk F (World.complete { w with adapter := { w.adapter with commands := rest, nextRequestId } } c
      (.error ()) none) := by
  have hcommands := h.commands
  rw [hq] at hcommands
  refine ⟨commandsOk_refuse hcommands _, h.frames, h.tasks, h.answers, ?_, h.fresh, ?_, hnext, h.closed⟩
  · intro r hr
    exact h.queued r (by rw [hq]; exact List.mem_cons_of_mem _ hr)
  · intro r hr v hv
    obtain hr | hr := List.mem_append.mp hr
    · exact h.completed r hr v hv
    · rw [List.mem_singleton.mp hr] at hv
      cases hv

theorem sideOk_forward (h : SideOk F w) (hs : w.forward F = some w') : SideOk F w' := by
  unfold World.forward at hs
  split at hs
  · rename_i c request rest hl hq
    simp only [Option.some.injEq] at hs
    subst hs
    by_cases hlim : Matter.maxPendingCommands ≤ w.adapter.pending.length
    · rw [if_pos hlim]
      exact sideOk_complete h hq h.nextRequestId
    · rw [if_neg hlim]
      obtain ⟨hlt, -, hfresh⟩ := freeId_fresh h.nextRequestId (Nat.lt_of_not_le hlim)
      generalize hid : Matter.World.freeId w.adapter.pending (Matter.maxPendingCommands + 1)
        w.adapter.nextRequestId = id at hlt hfresh
      have hnext : (id + 1) % 2 ^ 64 < 2 ^ 64 := Nat.mod_lt _ (by decide)
      split
      · rename_i body henc hwriter
        have hcommands := h.commands
        rw [hq] at hcommands
        have hask := h.queued (c, request) (by simp [hq])
        refine ⟨?_, ?_, h.tasks, h.answers, ?_, h.fresh, h.completed, ?_, h.closed⟩
        · refine commandsOk_perm (commandsOk_send hcommands hfresh) ?_ (List.Perm.refl _)
          simp only [World.unanswered, List.filterMap_append, List.filterMap_cons,
            AdapterFrame.command, List.filterMap_nil, List.append_assoc, List.singleton_append]
          exact List.perm_middle
        · intro id' method' body' c' hm
          obtain hm | hm := List.mem_append.mp hm
          · exact h.frames id' method' body' c' hm
          · simp only [List.mem_singleton, AdapterFrame.request.injEq] at hm
            obtain ⟨-, rfl, rfl, rfl⟩ := hm
            exact ⟨rfl, ⟨request, body, hask.1, henc, rfl⟩, hask.2⟩
        · intro r hr
          exact h.queued r (by rw [hq]; exact List.mem_cons_of_mem _ hr)
        · exact hnext
      · exact sideOk_same (sideOk_complete h hq hnext) (same_exit _)
  · cases hs

theorem sideOk_submit (h : SideOk F w) {c : Token} {request : CommandRequest}
    (hs : w.submit c request = some w') : SideOk F w' := by
  unfold World.submit at hs
  split at hs
  · rename_i hnew
    simp only [Option.some.injEq] at hs
    subst hs
    have hext : Extends w.ledger { w.ledger with submitted := w.ledger.submitted ++ [(c, request)] } :=
      ⟨fun r hr => List.mem_append_left _ hr, fun c x hx => hx⟩
    refine ⟨?_, ?_, ?_, ?_, ?_, ?_, completedOk_mono hext rfl h.completed, h.nextRequestId, h.closed⟩
    · have hcommands := commandsOk_submit h.commands request hnew.1
      simp only [List.map_append, List.map_cons, List.map_nil]
      exact hcommands
    · intro id method body c' hm
      obtain ⟨h1, h2, h3⟩ := h.frames id method body c' hm
      exact ⟨h1, h2.mono hext, h3⟩
    · exact fun t ht => (h.tasks t ht).mono hext fun hn => hn
    · exact fun e c' hm => (h.answers e c' hm).mono hext
    · intro r hr
      obtain hr | hr := List.mem_append.mp hr
      · exact ⟨hext.submitted r (h.queued r hr).1, (h.queued r hr).2⟩
      · rw [List.mem_singleton.mp hr]
        exact ⟨List.mem_append_right _ (List.mem_singleton_self _), h.fresh c hnew.1⟩
    · intro c' hc'
      refine h.fresh c' fun hm => hc' ?_
      rw [List.map_append]
      exact List.mem_append_left _ hm
  · cases hs

/-! ## Every step -/

theorem sideOk_step (hc : CallsOk w) (h : SideOk F w) {a : Action} (hs : step F w a = some w') :
    SideOk F w' := by
  cases a with
  | start k request => exact sideOk_same h (same_session hc.host.sound hs)
  | advance k => exact sideOk_same h (same_advance hc hs)
  | refuse k => exact sideOk_same h (same_refuse hc hs)
  | drop k => exact sideOk_same h (same_session hc.host.sound hs)
  | receive => exact sideOk_receive hc h hs
  | lose message => exact sideOk_same h (same_session hc.host.sound hs)
  | read => exact sideOk_same h (same_read hc hs)
  | fail message => exact sideOk_same h (same_session hc.host.sound hs)
  | drain => exact sideOk_same h (same_session hc.host.sound hs)
  | setPid pid => exact sideOk_same h (same_session hc.host.sound hs)
  | dispatch i =>
    obtain ⟨t, hi, hpc, rfl⟩ := dispatch_eq_some.mp hs
    exact sideOk_dispatch h hi hpc
  | written i result =>
    obtain ⟨t, command, hi, hpc, hs⟩ := written_eq_some.mp hs
    exact sideOk_written h hc.host.sound hi hpc hs
  | reply i =>
    obtain ⟨t, e, permit, hi, hpc, hs⟩ := reply_eq_some.mp hs
    exact sideOk_reply h hi hpc hs
  | write => exact sideOk_same h (same_write hs)
  | writeError message =>
    simp only [step] at hs
    split at hs
    · obtain ⟨host, hstep, rfl⟩ := Option.map_eq_some_iff.mp hs
      exact sideOk_same h ⟨fun _ _ _ _ h => h, List.Perm.refl _, fun _ _ h => h, List.Perm.refl _, rfl,
        rfl, rfl, rfl, rfl, rfl, rfl, rfl, rfl, fun _ => .inr (Session.isSome_failure_fail hstep),
        Session.failure_step hc.host.sound hstep⟩
    · cases hs
  | submit c request => exact sideOk_submit h hs
  | take => exact sideOk_take h hs
  | answer outcome => exact sideOk_same h (same_answer hs)
  | forward => exact sideOk_forward h hs
  | leave =>
    cases hs
    exact sideOk_same h (same_exit w)
  | sever =>
    cases hs
    exact sideOk_same h ⟨fun _ _ _ _ h => h, List.Perm.refl _, fun _ _ h => h, List.Perm.refl _, rfl,
      rfl, rfl, rfl, rfl, rfl, rfl, rfl, rfl, .inl, fun h => h⟩

theorem sideOk_spawn : SideOk F World.spawn := by
  refine ⟨⟨?_, ?_, ?_, ?_, ?_, ?_, ?_⟩, ?_, ?_, ?_, ?_, ?_, ?_, ?_, ?_⟩ <;>
    simp [World.spawn, World.unanswered, World.replies, AdapterFrame.command, taken,
      List.filterMap_cons, CompletedOk]

end Side

end Oikade.Rpc
