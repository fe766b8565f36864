/-
  Runs of commissioning calls.

  * `WindowWorld`: the SDK's window with its owner. The window may close and a controller may open
    its own at any moment between two calls. A call is one step, the adapter does not suspend in it.
    Payloads stay with the windows that Oikade opened as long as controllers open theirs only while
    none is tracked as active (`disclosed_only_for_owned_window`); `disclosed_after_controllerOpen`
    is what happens otherwise.
  * `Calls`: the calls with arbitrary observations and clock readings, against the checks of the
    host (`answers_accepted`).
-/
import Oikade.Matter.Commissioning

namespace Oikade.Matter

open Adapter

/-! ## The window of the SDK and its owner -/

inductive Owner where
  | oikade
  | controller
  deriving DecidableEq, Repr

/-- `sdk` is the window that is open. A reply is kept with the window open when it was made. -/
structure WindowWorld where
  sdk : Option Owner
  clock : Nat
  commissioning : Commissioning
  replies : List (Option Owner × Reply)
  deriving DecidableEq

namespace WindowWorld

def init (clock : Nat) : WindowWorld := ⟨none, clock, Commissioning.init, []⟩

inductive Action where
  | advance (clock : Nat)
  /-- The window expires, or commissioning completes. -/
  | close
  /-- A controller opens a window of its own. -/
  | controllerOpen
  | open (status : Except RpcFailure Unit) (durationSeconds statusAt : Nat)
      (opened : Except RpcFailure Unit) (payload : Except RpcFailure (String × String))
  | info (status : Except RpcFailure Unit) (payload : Except RpcFailure (String × String))

/-- `open_basic_comm_window` -/
def openWindow (opened : Except RpcFailure Unit) (sdk : Option Owner) :
    Except RpcFailure Unit × Option Owner :=
  match opened with
  | .ok () => (.ok (), some .oikade)
  | .error e => (.error e, sdk)

/-- `window_is_open`, which may fail -/
def windowIsOpen (s : WindowWorld) (status : Except RpcFailure Unit) : Except RpcFailure Bool :=
  status.map fun _ => s.sdk.isSome

/-- Add a response that is not a failure. -/
def reply (s : WindowWorld) (r : Except RpcFailure Reply) : WindowWorld :=
  match r with
  | .ok r => { s with replies := s.replies ++ [(s.sdk, r)] }
  | .error _ => s

def step (s : WindowWorld) : Action → Option WindowWorld
  | .advance clock => if s.clock ≤ clock then some { s with clock } else none
  | .close => some { s with sdk := none }
  | .controllerOpen => if s.sdk = none then some { s with sdk := some .controller } else none
  | .open status durationSeconds statusAt opened payload =>
    if s.clock ≤ statusAt then
      let (r, commissioning, sdk) := s.commissioning.openCall (s.windowIsOpen status)
        durationSeconds s.clock statusAt (openWindow opened) payload s.sdk
      some (reply { s with sdk, clock := statusAt, commissioning } (r.map .opened))
    else none
  | .info status payload =>
    let (r, commissioning) := s.commissioning.info (s.windowIsOpen status) s.clock payload
    some (reply { s with commissioning } (r.map .info))

@[simp] theorem reply_sdk (s : WindowWorld) (r : Except RpcFailure Reply) : (s.reply r).sdk = s.sdk := by
  cases r <;> rfl

@[simp] theorem reply_clock (s : WindowWorld) (r : Except RpcFailure Reply) :
    (s.reply r).clock = s.clock := by
  cases r <;> rfl

@[simp] theorem reply_commissioning (s : WindowWorld) (r : Except RpcFailure Reply) :
    (s.reply r).commissioning = s.commissioning := by
  cases r <;> rfl

/-- No window is tracked, or its deadline has passed. -/
def Untracked (s : WindowWorld) : Prop :=
  ∀ w, s.commissioning.trackedWindow = some w → w.deadline ≤ s.clock

instance (s : WindowWorld) : Decidable s.Untracked :=
  match h : s.commissioning.trackedWindow with
  | none => isTrue fun w hw => by simp [h] at hw
  | some w =>
    if hle : w.deadline ≤ s.clock then isTrue fun w' hw' => by
      rw [h, Option.some.injEq] at hw'
      exact hw' ▸ hle
    else isFalse fun hall => hle (hall w h)

/-- A controller opens a window only when none of Oikade is tracked as active. -/
def Apart (s : WindowWorld) (a : Action) : Prop := a = .controllerOpen → s.Untracked

/-- A window tracked as active is not a controller's, and no payload was given for one. -/
structure Owned (s : WindowWorld) : Prop where
  active : ¬ s.Untracked → s.sdk ≠ some .controller
  replies : ∀ e ∈ s.replies, e.2.discloses = true → e.1 = some .oikade

theorem owned_init (clock : Nat) : (init clock).Owned where
  active h := by
    exact absurd (fun w hw => by cases hw) h
  replies e he := by cases he

/-- A reply is added to the end of the history. -/
theorem owned_reply {s : WindowWorld} {r : Except RpcFailure Reply} (hs : s.Owned)
    (hr : ∀ resp, r = .ok resp → resp.discloses = true → s.sdk = some .oikade) :
    (s.reply r).Owned where
  active h := by
    rw [reply_sdk]
    refine hs.active fun hu => h fun w hw => ?_
    rw [reply_clock]
    exact hu w (by rwa [reply_commissioning] at hw)
  replies e he hd := by
    cases r with
    | error _ => exact hs.replies e he hd
    | ok resp =>
      obtain he | he := List.mem_append.mp he
      · exact hs.replies e he hd
      · rw [List.mem_singleton] at he
        subst he
        exact hr resp rfl hd

theorem untracked_of_none {s : WindowWorld} (h : s.commissioning = ⟨none⟩) : s.Untracked := by
  intro w hw
  rw [h] at hw
  cases hw

theorem isSome_of_windowIsOpen {s : WindowWorld} {status : Except RpcFailure Unit} {b : Bool}
    (h : s.windowIsOpen status = .ok b) : s.sdk.isSome = b := by
  cases status with
  | error e => cases h
  | ok u => exact Except.ok.inj h

theorem eq_oikade {s : WindowWorld} (h : s.sdk.isSome = true) (hc : s.sdk ≠ some .controller) :
    s.sdk = some .oikade := by
  cases hs : s.sdk with
  | none => simp [hs] at h
  | some owner =>
    cases owner with
    | oikade => rfl
    | controller => exact absurd hs hc

theorem owned_open {s s' : WindowWorld} {status opened : Except RpcFailure Unit} {duration statusAt : Nat}
    {payload : Except RpcFailure (String × String)} (hs : s.Owned)
    (h : s.step (.open status duration statusAt opened payload) = some s') : s'.Owned := by
  simp only [step] at h
  by_cases hclock : s.clock ≤ statusAt
  · rw [if_pos hclock] at h
    cases hcall : s.commissioning.openCall (s.windowIsOpen status) duration s.clock statusAt
        (openWindow opened) payload s.sdk with
    | mk r rest =>
      obtain ⟨c, sdk⟩ := rest
      simp only [hcall, Option.some.injEq] at h
      subst h
      have hreply : ∀ resp, r = .ok resp → ∃ w, c.trackedWindow = some w ∧ statusAt < w.deadline := by
        rintro resp rfl
        obtain ⟨w, -, hw, hlt, -⟩ := Commissioning.openCall_reply hcall
        exact ⟨w, hw, hlt⟩
      obtain ⟨rfl, rfl, hopen⟩ | ⟨rfl, e, rfl, ho⟩ | ⟨-, rfl, ho⟩ :=
        Commissioning.openCall_state hcall
      · -- Nothing is opened: the tracked window was active before the call.
        have hact : ¬ WindowWorld.Untracked { s with clock := statusAt } → ¬ s.Untracked := by
          intro h hu
          exact h fun w hw => Nat.le_trans (hu w hw) hclock
        refine owned_reply ⟨fun h => hs.active (hact h), hs.replies⟩ fun resp hr hd => ?_
        cases r with
        | error e => cases hr
        | ok resp' =>
          obtain ⟨w, hw, hlt⟩ := hreply resp' rfl
          refine eq_oikade (isSome_of_windowIsOpen (hopen resp' rfl)) (hs.active (hact ?_))
          intro hu
          have := hu w hw
          simp only at this
          omega
      · refine owned_reply ⟨fun h => absurd (untracked_of_none rfl) h, hs.replies⟩ fun resp hr => ?_
        cases hr
      · have hsdk : sdk = some .oikade := by
          cases opened with
          | error e => cases ho
          | ok u => exact (Prod.mk.inj ho).2.symm
        refine owned_reply ⟨fun _ => by simp [hsdk], hs.replies⟩ fun _ _ _ => hsdk
  · rw [if_neg hclock] at h
    cases h

theorem owned_info {s s' : WindowWorld} {status : Except RpcFailure Unit}
    {payload : Except RpcFailure (String × String)} (hs : s.Owned)
    (h : s.step (.info status payload) = some s') : s'.Owned := by
  simp only [step] at h
  cases hcall : s.commissioning.info (s.windowIsOpen status) s.clock payload with
  | mk r c =>
    simp only [hcall, Option.some.injEq] at h
    subst h
    have hact : WindowWorld.Owned { s with commissioning := c } := by
      obtain rfl | rfl := Commissioning.info_state hcall
      · exact hs
      · exact ⟨fun h => absurd (untracked_of_none rfl) h, hs.replies⟩
    refine owned_reply hact fun resp hr hd => ?_
    cases r with
    | error e => cases hr
    | ok resp' =>
      obtain ⟨w, p, hopen, -, hw, hlt, -⟩ | ⟨b, rfl⟩ := Commissioning.info_reply hcall
      · refine eq_oikade (isSome_of_windowIsOpen hopen) (hs.active fun hu => ?_)
        have := hu w hw
        omega
      · cases hr
        simp [Reply.discloses, Reply.manualCode, Reply.qrCode] at hd

theorem owned_step {s s' : WindowWorld} {a : Action} (hs : s.Owned) (hok : s.Apart a)
    (h : s.step a = some s') : s'.Owned := by
  cases a with
  | advance clock =>
    simp only [step] at h
    by_cases hclock : s.clock ≤ clock
    · rw [if_pos hclock, Option.some.injEq] at h
      subst h
      exact ⟨fun h => hs.active fun hu => h fun w hw => Nat.le_trans (hu w hw) hclock, hs.replies⟩
    · rw [if_neg hclock] at h
      cases h
  | close =>
    simp only [step, Option.some.injEq] at h
    subst h
    exact ⟨fun _ => by simp, hs.replies⟩
  | controllerOpen =>
    simp only [step] at h
    by_cases hsdk : s.sdk = none
    · rw [if_pos hsdk, Option.some.injEq] at h
      subst h
      exact ⟨fun h => absurd (hok rfl) h, hs.replies⟩
    · rw [if_neg hsdk] at h
      cases h
  | «open» status duration statusAt opened payload => exact owned_open hs h
  | info status payload => exact owned_info hs h

/-- In a run in which controllers open windows only while none of Oikade is tracked as active, a
    payload is given only for a window that Oikade opened. -/
theorem disclosed_only_for_owned_window {clock : Nat} {as : List Action} {s : WindowWorld}
    (hok : Machine.Meets step Apart (init clock) as)
    (h : Machine.run step (init clock) as = some s) {owner : Option Owner} {r : Reply}
    (hr : (owner, r) ∈ s.replies) (hd : r.discloses = true) : owner = some .oikade :=
  (Machine.run_inv_of_meets (fun _ _ _ hs ha h => owned_step hs ha h) (owned_init clock) hok h).replies
    _ hr hd

theorem disclosed_only_for_owned_window_after_open :
    ∃ s r, Machine.run step (init 0)
      [.open (.ok ()) 900 0 (.ok ()) (.ok ("34970112332", "MT:Y.K9042C00KA0648G00")),
        .info (.ok ()) (.ok ("34970112332", "MT:Y.K9042C00KA0648G00"))] = some s ∧
      (some Owner.oikade, r) ∈ s.replies ∧ r.discloses = true ∧ r.durationSeconds = some 900 ∧
      (∀ owner r, (owner, r) ∈ s.replies → r.discloses = true → owner = some Owner.oikade) := by
  refine ⟨_, _, rfl, List.mem_cons_self .., rfl, rfl, fun owner r hr hd => ?_⟩
  refine @disclosed_only_for_owned_window 0
    [.open (.ok ()) 900 0 (.ok ()) (.ok ("34970112332", "MT:Y.K9042C00KA0648G00")),
      .info (.ok ()) (.ok ("34970112332", "MT:Y.K9042C00KA0648G00"))] _ ?_ rfl owner r hr hd
  exact ⟨nofun, fun _ _ => ⟨nofun, fun _ _ => trivial⟩⟩

/-- The window closes and a controller opens its own between two calls. -/
theorem disclosed_for_controller_window :
    ¬ ∀ clock as s, Machine.run step (init clock) as = some s →
      ∀ e ∈ s.replies, e.2.discloses = true → e.1 = some .oikade := by
  intro h
  have := h 0
    [.open (.ok ()) 900 0 (.ok ()) (.ok ("34970112332", "MT:Y.K9042C00KA0648G00")), .close,
      .advance (30 * nanosPerSecond), .controllerOpen,
      .info (.ok ()) (.ok ("34970112332", "MT:Y.K9042C00KA0648G00"))]
    _ rfl _ (List.mem_cons_of_mem _ (List.mem_cons_self ..)) rfl
  cases this

/-- Where the condition is broken, the next `info` gives the payload for the controller's window. -/
theorem disclosed_after_controllerOpen {s : WindowWorld} (hsdk : s.sdk = none) (hu : ¬ s.Untracked)
    (p : String × String) :
    ∃ s' r, Machine.run step s [.controllerOpen, .info (.ok ()) (.ok p)] = some s' ∧
      (some .controller, r) ∈ s'.replies ∧ r.discloses = true := by
  obtain ⟨w, hw, hlt⟩ : ∃ w, s.commissioning.trackedWindow = some w ∧ s.clock < w.deadline := by
    by_contra hne
    exact hu fun w hw => Nat.le_of_not_lt fun hlt => hne ⟨w, hw, hlt⟩
  have hobs : s.commissioning.observe true s.clock =
      (.ownedActive ⟨true, some w.durationSeconds, some (secondsLeft (w.deadline - s.clock)), true⟩,
        s.commissioning) := by
    simp [Commissioning.observe, hw, Commissioning.activeStatus_of_lt hw hlt]
  let r : Reply := .info ⟨true, some w.durationSeconds, some (secondsLeft (w.deadline - s.clock)),
    some p.1, some p.2⟩
  refine ⟨{ s with sdk := some .controller, replies := s.replies ++ [(some .controller, r)] }, r,
    ?_, by simp, rfl⟩
  simp [Machine.run, step, hsdk, windowIsOpen, Except.map, Commissioning.info,
    Commissioning.infoObserved, hobs, reply, r]

end WindowWorld

/-! ## The seconds left -/

theorem secondsLeft_pos {n : Nat} (h : 0 < n) : 1 ≤ secondsLeft n := by
  unfold secondsLeft nanosPerSecond
  split <;> omega

theorem secondsLeft_le {n d : Nat} (h : n ≤ d * nanosPerSecond) : secondsLeft n ≤ d := by
  unfold secondsLeft
  unfold nanosPerSecond at *
  split <;> omega

theorem secondsLeft_mono {n m : Nat} (h : n ≤ m) : secondsLeft n ≤ secondsLeft m := by
  unfold secondsLeft nanosPerSecond
  split <;> split <;> omega

/-! ## Replies and the checks of the host -/

/-- A reply with the windows opened so far: the last of them is the one it is about. -/
structure Answer where
  openings : List Nat
  reply : Reply
  deriving DecidableEq, Repr

/-- `openings` are the durations of the windows opened so far. -/
structure Calls where
  commissioning : Commissioning
  clock : Nat
  openings : List Nat
  answers : List Answer
  deriving DecidableEq

namespace Calls

def init (clock : Nat) : Calls := ⟨Commissioning.init, clock, [], []⟩

/-- A call with what it observes and the readings of the clock it makes. -/
inductive Action where
  | open (isOpen : Except RpcFailure Bool) (durationSeconds observedAt statusAt : Nat)
      (opened : Except RpcFailure Unit) (payload : Except RpcFailure (String × String))
  | info (isOpen : Except RpcFailure Bool) (now : Nat)
      (payload : Except RpcFailure (String × String))

def openWindow (opened : Except RpcFailure Unit) (durationSeconds : Nat) (openings : List Nat) :
    Except RpcFailure Unit × List Nat :=
  match opened with
  | .ok () => (.ok (), openings ++ [durationSeconds])
  | .error e => (.error e, openings)

/-- Add a response that is not a failure. -/
def answer (s : Calls) (r : Except RpcFailure Reply) : Calls :=
  match r with
  | .ok r => { s with answers := s.answers ++ [⟨s.openings, r⟩] }
  | .error _ => s

/-- The clock does not go back. -/
def step (s : Calls) : Action → Option Calls
  | .open isOpen durationSeconds observedAt statusAt opened payload =>
    if s.clock ≤ observedAt ∧ observedAt ≤ statusAt then
      let (r, commissioning, openings) := s.commissioning.openCall isOpen durationSeconds observedAt
        statusAt (openWindow opened durationSeconds) payload s.openings
      some (answer { s with commissioning, clock := statusAt, openings } (r.map .opened))
    else none
  | .info isOpen now payload =>
    if s.clock ≤ now then
      let (r, commissioning) := s.commissioning.info isOpen now payload
      some (answer { s with commissioning, clock := now } (r.map .info))
    else none

/-- What the host lets through and the adapter asks for by itself. -/
def DurationOk (durationSeconds : Nat) : Prop :=
  (minimumCommissioningWindowSeconds ≤ durationSeconds ∧
    durationSeconds ≤ maximumCommissioningWindowSeconds) ∨ durationSeconds = automaticWindowSeconds

def PayloadOk (payload : Except RpcFailure (String × String)) : Prop :=
  ∀ p, payload = .ok p → validPairingPayload p.1 p.2 = true

/-- The duration is allowed and the pairing payload well formed. -/
def Action.WellFormed : Action → Prop
  | .open _ durationSeconds _ _ _ payload => DurationOk durationSeconds ∧ PayloadOk payload
  | .info _ _ payload => PayloadOk payload

/-- An answer that the host accepts: it is about the window opened last, or has no details. -/
structure Accepted (e : Answer) : Prop where
  valid : e.reply.validate = .ok ()
  duration : ∀ d, e.reply.durationSeconds = some d → e.openings.getLast? = some d
  remaining : ∀ d r, e.reply.durationSeconds = some d → e.reply.remainingSeconds = some r →
    1 ≤ r ∧ r ≤ d
  timing : e.reply.durationSeconds.isSome = e.reply.remainingSeconds.isSome
  payload : e.reply.remainingSeconds.isSome = e.reply.manualCode.isSome
  codes : e.reply.manualCode.isSome = e.reply.qrCode.isSome

/-- Two answers about one window: the later does not report more time. -/
def NotLater (e₁ e₂ : Answer) : Prop :=
  e₁.openings.length = e₂.openings.length → ∀ r₁ r₂, e₁.reply.remainingSeconds = some r₁ →
    e₂.reply.remainingSeconds = some r₂ → r₂ ≤ r₁

/-- The tracked window is the one opened last. What is left of it bounds the answers to come, and
    is bounded by those that were given. -/
structure Tracks (s : Calls) (w : TrackedWindow) : Prop where
  opened : s.openings.getLast? = some w.durationSeconds
  allowed : minimumCommissioningWindowSeconds ≤ w.durationSeconds ∧
    w.durationSeconds ≤ maximumCommissioningWindowSeconds
  deadline : w.deadline ≤ s.clock + w.durationSeconds * nanosPerSecond
  answered : ∀ e ∈ s.answers, e.openings.length = s.openings.length →
    ∀ r, e.reply.remainingSeconds = some r → secondsLeft (w.deadline - s.clock) ≤ r

structure Inv (s : Calls) : Prop where
  accepted : ∀ e ∈ s.answers, Accepted e
  openings : ∀ e ∈ s.answers, e.openings.length ≤ s.openings.length
  tracks : ∀ w, s.commissioning.trackedWindow = some w → Tracks s w
  notLater : s.answers.Pairwise NotLater

theorem inv_init (clock : Nat) : (init clock).Inv where
  accepted e he := by cases he
  openings e he := by cases he
  tracks w hw := by cases hw
  notLater := List.Pairwise.nil

/-- A reply about the tracked window, as `openCall_reply` and `info_reply` give it. -/
structure Reports (w : TrackedWindow) (now : Nat) (r : Reply) : Prop where
  active : now < w.deadline
  duration : r.durationSeconds = some w.durationSeconds
  remaining : r.remainingSeconds = some (secondsLeft (w.deadline - now))
  payload : ∃ m q, r.manualCode = some m ∧ r.qrCode = some q ∧ validPairingPayload m q = true
  isOpen : ∀ i, r = .info i → i.isOpen = true

theorem validTiming_of_tracks {s : Calls} {w : TrackedWindow} (ht : Tracks s w)
    (hlt : s.clock < w.deadline) :
    validTiming w.durationSeconds (secondsLeft (w.deadline - s.clock)) = true := by
  have hpos := secondsLeft_pos (n := w.deadline - s.clock) (by omega)
  have hle := secondsLeft_le (n := w.deadline - s.clock) (d := w.durationSeconds)
    (by have := ht.deadline; omega)
  have := ht.allowed
  simp only [validTiming, Bool.and_eq_true, decide_eq_true_eq]
  omega

theorem validate_of_reports {s : Calls} {w : TrackedWindow} {r : Reply} (ht : Tracks s w)
    (hr : Reports w s.clock r) : r.validate = .ok () := by
  have htime := validTiming_of_tracks ht hr.active
  obtain ⟨m, q, hm, hq, hp⟩ := hr.payload
  cases r with
  | opened o =>
    have hd := Option.some.inj hr.duration
    have hrem : o.remainingSeconds = _ := hr.remaining
    have hmc := Option.some.inj hm
    have hqc := Option.some.inj hq
    simp only [Reply.validate, validateCommissioningResponse, hrem, hd, hmc, hqc, htime, hp,
      Bool.and_self, if_true]
  | info i =>
    have hopen := hr.isOpen i rfl
    have hd : i.durationSeconds = _ := hr.duration
    have hrem : i.remainingSeconds = _ := hr.remaining
    have hmc : i.manualCode = _ := hm
    have hqc : i.qrCode = _ := hq
    simp [Reply.validate, validateCommissioningInfoResponse, hopen, hd, hrem, hmc, hqc, htime, hp]

theorem accepted_of_reports {s : Calls} {w : TrackedWindow} {r : Reply} (ht : Tracks s w)
    (hr : Reports w s.clock r) : Accepted ⟨s.openings, r⟩ := by
  obtain ⟨m, q, hm, hq, -⟩ := hr.payload
  refine ⟨validate_of_reports ht hr, ?_, ?_, ?_, ?_, ?_⟩
  · intro d hd
    rw [hr.duration, Option.some.injEq] at hd
    exact hd ▸ ht.opened
  · intro d rem hd hrem
    rw [hr.duration, Option.some.injEq] at hd
    rw [hr.remaining, Option.some.injEq] at hrem
    subst hd hrem
    refine ⟨secondsLeft_pos (by have := hr.active; omega), secondsLeft_le ?_⟩
    have := ht.deadline
    omega
  · rw [hr.duration, hr.remaining]
    rfl
  · rw [hr.remaining, hm]
    rfl
  · rw [hm, hq]
    rfl

theorem accepted_noDetails (openings : List Nat) (b : Bool) :
    Accepted ⟨openings, .info ⟨b, none, none, none, none⟩⟩ where
  valid := by cases b <;> rfl
  duration d hd := by cases hd
  remaining d r hd := by cases hd
  timing := rfl
  payload := rfl
  codes := rfl

/-- An answer about the tracked window, or one with no details. -/
def Answers (s : Calls) (r : Reply) : Prop :=
  (∃ w, s.commissioning.trackedWindow = some w ∧ Reports w s.clock r) ∨
    ∃ b, r = .info ⟨b, none, none, none, none⟩

theorem inv_answer {s : Calls} {r : Except RpcFailure Reply} (hs : s.Inv)
    (hr : ∀ reply, r = .ok reply → Answers s reply) : (s.answer r).Inv := by
  cases r with
  | error e => exact hs
  | ok reply =>
    obtain hans := hr reply rfl
    have hacc : Accepted ⟨s.openings, reply⟩ := by
      obtain ⟨w, hw, hrep⟩ | ⟨b, rfl⟩ := hans
      · exact accepted_of_reports (hs.tracks w hw) hrep
      · exact accepted_noDetails s.openings b
    refine ⟨?_, ?_, ?_, ?_⟩
    · intro e he
      obtain he | he := List.mem_append.mp he
      · exact hs.accepted e he
      · rw [List.mem_singleton] at he
        exact he ▸ hacc
    · intro e he
      obtain he | he := List.mem_append.mp he
      · exact hs.openings e he
      · rw [List.mem_singleton] at he
        subst he
        exact Nat.le_refl _
    · intro w hw
      have ht := hs.tracks w hw
      refine ⟨ht.opened, ht.allowed, ht.deadline, fun e he hlen rem hrem => ?_⟩
      obtain he | he := List.mem_append.mp he
      · exact ht.answered e he hlen rem hrem
      · rw [List.mem_singleton] at he
        subst he
        obtain ⟨w', hw', hrep⟩ | ⟨b, rfl⟩ := hans
        · have hww : some w' = some w := hw'.symm.trans hw
          cases hww
          have hsome := hrep.remaining.symm.trans hrem
          rw [Option.some.injEq] at hsome
          exact Nat.le_of_eq hsome
        · cases hrem
    · refine List.pairwise_append.mpr ⟨hs.notLater, List.pairwise_singleton _ _, ?_⟩
      intro e he e' he' hlen r₁ r₂ h₁ h₂
      rw [List.mem_singleton] at he'
      subst he'
      obtain ⟨w, hw, hrep⟩ | ⟨b, rfl⟩ := hans
      · rw [hrep.remaining, Option.some.injEq] at h₂
        exact h₂ ▸ (hs.tracks w hw).answered e he hlen r₁ h₁
      · cases h₂

/-- Time passes. -/
theorem inv_clock {s : Calls} {clock : Nat} (hs : s.Inv) (hle : s.clock ≤ clock) :
    Inv { s with clock } where
  accepted := hs.accepted
  openings := hs.openings
  tracks w hw := by
    have ht := hs.tracks w hw
    refine ⟨ht.opened, ht.allowed, by have := ht.deadline; show _ ≤ clock + _; omega, ?_⟩
    intro e he hlen r hr
    have hmono := secondsLeft_mono (n := w.deadline - clock) (m := w.deadline - s.clock) (by omega)
    exact Nat.le_trans hmono (ht.answered e he hlen r hr)
  notLater := hs.notLater

/-- The tracked window is forgotten. -/
theorem inv_forget {s : Calls} (hs : s.Inv) : Inv { s with commissioning := ⟨none⟩ } :=
  ⟨hs.accepted, hs.openings, nofun, hs.notLater⟩

/-- A window is opened. -/
theorem inv_opened {s : Calls} {durationSeconds clock : Nat} (hs : s.Inv)
    (hd : DurationOk durationSeconds) :
    Inv { s with
      commissioning := Commissioning.openedWindow durationSeconds clock
      clock
      openings := s.openings ++ [durationSeconds] } where
  accepted := hs.accepted
  openings e he := by
    have := hs.openings e he
    simp only [List.length_append, List.length_singleton]
    omega
  tracks w hw := by
    cases hw
    refine ⟨by simp, ?_, Nat.le_refl _, fun e he hlen => ?_⟩
    · obtain hd | hd := hd
      · exact hd
      · subst hd
        exact (by decide : minimumCommissioningWindowSeconds ≤ automaticWindowSeconds ∧
          automaticWindowSeconds ≤ maximumCommissioningWindowSeconds)
    · -- No answer yet is about the new window.
      have := hs.openings e he
      simp only [List.length_append, List.length_singleton] at hlen
      omega
  notLater := hs.notLater

theorem inv_open {s s' : Calls} {isOpen : Except RpcFailure Bool}
    {durationSeconds observedAt statusAt : Nat} {opened : Except RpcFailure Unit}
    {payload : Except RpcFailure (String × String)} (hs : s.Inv)
    (hd : DurationOk durationSeconds) (hp : PayloadOk payload)
    (h : s.step (.open isOpen durationSeconds observedAt statusAt opened payload) = some s') :
    s'.Inv := by
  simp only [step] at h
  by_cases hclock : s.clock ≤ observedAt ∧ observedAt ≤ statusAt
  · rw [if_pos hclock] at h
    cases hcall : s.commissioning.openCall isOpen durationSeconds observedAt statusAt
        (openWindow opened durationSeconds) payload s.openings with
    | mk r rest =>
      obtain ⟨c, openings⟩ := rest
      simp only [hcall, Option.some.injEq] at h
      subst h
      have hinv : Inv { s with commissioning := c, clock := statusAt, openings } := by
        obtain ⟨rfl, rfl, -⟩ | ⟨rfl, e, -, ho⟩ | ⟨-, rfl, ho⟩ := Commissioning.openCall_state hcall
        · exact inv_clock hs (by omega)
        · cases opened with
          | ok u => cases ho
          | error e' =>
            cases ho
            exact inv_clock (inv_forget hs) (by show s.clock ≤ _; omega)
        · cases opened with
          | error e => cases ho
          | ok u =>
            cases ho
            exact inv_clock (inv_opened hs hd) hclock.2
      refine inv_answer hinv fun reply hr => .inl ?_
      cases r with
      | error e => cases hr
      | ok o =>
        cases hr
        obtain ⟨w, p, hw, hlt, rfl, rfl⟩ := Commissioning.openCall_reply hcall
        exact ⟨w, hw, hlt, rfl, rfl, ⟨p.1, p.2, rfl, rfl, hp p rfl⟩, nofun⟩
  · rw [if_neg hclock] at h
    cases h

theorem inv_info {s s' : Calls} {isOpen : Except RpcFailure Bool} {now : Nat}
    {payload : Except RpcFailure (String × String)} (hs : s.Inv) (hp : PayloadOk payload)
    (h : s.step (.info isOpen now payload) = some s') : s'.Inv := by
  simp only [step] at h
  by_cases hclock : s.clock ≤ now
  · rw [if_pos hclock] at h
    cases hcall : s.commissioning.info isOpen now payload with
    | mk r c =>
      simp only [hcall, Option.some.injEq] at h
      subst h
      have hinv : Inv { s with commissioning := c, clock := now } := by
        obtain rfl | rfl := Commissioning.info_state hcall
        · exact inv_clock hs hclock
        · exact inv_clock (inv_forget hs) hclock
      refine inv_answer hinv fun reply hr => ?_
      cases r with
      | error e => cases hr
      | ok i =>
        cases hr
        obtain ⟨w, p, -, rfl, hw, hlt, rfl, rfl⟩ | ⟨b, rfl⟩ := Commissioning.info_reply hcall
        · exact .inl ⟨w, hw, hlt, rfl, rfl, ⟨p.1, p.2, rfl, rfl, hp p rfl⟩,
            fun i hi => by cases hi; rfl⟩
        · exact .inr ⟨b, rfl⟩
  · rw [if_neg hclock] at h
    cases h

theorem inv_step {s s' : Calls} {a : Action} (hs : s.Inv) (ha : a.WellFormed)
    (h : s.step a = some s') : s'.Inv := by
  cases a with
  | «open» isOpen durationSeconds observedAt statusAt opened payload =>
    exact inv_open hs ha.1 ha.2 h
  | info isOpen now payload => exact inv_info hs ha h

/-- Every answer passes the check of the host, and answers about one window count down. -/
theorem answers_accepted {clock : Nat} {as : List Action} {s : Calls}
    (ha : ∀ a ∈ as, a.WellFormed) (h : Machine.run step (init clock) as = some s) :
    (∀ e ∈ s.answers, Accepted e) ∧ s.answers.Pairwise NotLater := by
  have hmeets : Machine.Meets step (fun _ a => a.WellFormed) (init clock) as :=
    Machine.meets_of_forall ha
  have hinv := Machine.run_inv_of_meets (fun _ _ _ hs ha h => inv_step hs ha h) (inv_init clock)
    hmeets h
  exact ⟨hinv.accepted, hinv.notLater⟩

theorem answers_accepted_after_open :
    ∃ s e₁ e₂, Machine.run step (init 0)
      [.open (.ok false) 900 0 1 (.ok ()) (.ok ("34970112332", "MT:Y.K9042C00KA0648G00")),
        .info (.ok true) (30 * nanosPerSecond) (.ok ("34970112332", "MT:Y.K9042C00KA0648G00"))] =
        some s ∧ s.answers = [e₁, e₂] ∧ e₁.reply.remainingSeconds = some 900 ∧
      e₂.reply.remainingSeconds = some 870 ∧ Accepted e₁ ∧ Accepted e₂ ∧ NotLater e₁ e₂ := by
  have hpayload : PayloadOk (.ok ("34970112332", "MT:Y.K9042C00KA0648G00")) := by
    intro p hp
    cases hp
    decide
  have h := @answers_accepted 0
    [.open (.ok false) 900 0 1 (.ok ()) (.ok ("34970112332", "MT:Y.K9042C00KA0648G00")),
      .info (.ok true) (30 * nanosPerSecond) (.ok ("34970112332", "MT:Y.K9042C00KA0648G00"))] _
    (by
      intro a ha
      simp only [List.mem_cons, List.not_mem_nil, or_false] at ha
      obtain rfl | rfl := ha
      · exact ⟨.inr rfl, hpayload⟩
      · exact hpayload) rfl
  refine ⟨_, _, _, rfl, rfl, rfl, rfl, h.1 _ (List.mem_cons_self ..),
    h.1 _ (List.mem_cons_of_mem _ (List.mem_cons_self ..)), ?_⟩
  exact (List.pairwise_cons.mp h.2).1 _ (List.mem_cons_self ..)

end Calls

end Oikade.Matter
