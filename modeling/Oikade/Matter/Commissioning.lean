/-
  The commissioning window of the Matter adapter
  (`oikade-matter-adapter/src/commissioning.rs`): `open` and `info` against a window of the SDK of
  which they see only whether it is open.

  Whose window it is, `Commissioning` infers: it remembers the window it opened and its deadline
  until it observes that no window is open.

  `openCall_state`, `openCall_reply`, `info_state` and `info_reply` say what a call does; the proofs
  about runs of calls use nothing else.

  Instants are nanoseconds of a monotonic clock. `openWindow` stands for `open_basic_comm_window`,
  `payload` for `pairing_payload`.
-/
import Oikade.Lib.Machine
import Oikade.Adapter.Validate
import Oikade.Matter.Bridge

namespace Oikade.Matter

open Adapter

def automaticWindowSeconds : Nat := 15 * 60

/-! ## Calls -/

def nanosPerSecond : Nat := 1000000000

structure TrackedWindow where
  durationSeconds : Nat
  deadline : Nat
  deriving DecidableEq, Repr

structure Commissioning where
  trackedWindow : Option TrackedWindow
  deriving DecidableEq, Repr

structure WindowStatus where
  isOpen : Bool
  durationSeconds : Option Nat
  remainingSeconds : Option Nat
  owned : Bool
  deriving DecidableEq, Repr

inductive ObservedWindow where
  | closed
  | ownedActive (status : WindowStatus)
  | ownedExpired
  | untrackedOpen
  deriving DecidableEq, Repr

/-- The seconds of a duration, rounded up, as a `u16`. -/
def secondsLeft (remaining : Nat) : Nat :=
  min (remaining / nanosPerSecond + if 0 < remaining % nanosPerSecond then 1 else 0) 65535

namespace Commissioning

def init : Commissioning := ⟨none⟩

def activeStatus (c : Commissioning) (now : Nat) : Option WindowStatus :=
  match c.trackedWindow with
  | none => none
  | some window =>
    -- `checked_duration_since` has no answer when the deadline lies before `now`.
    if window.deadline < now then none
    else if window.deadline - now = 0 then none
    else some
      { isOpen := true
        durationSeconds := some window.durationSeconds
        remainingSeconds := some (secondsLeft (window.deadline - now))
        owned := true }

def observe (c : Commissioning) (sdkOpen : Bool) (now : Nat) : ObservedWindow × Commissioning :=
  if c.trackedWindow.isSome then
    if sdkOpen then
      match c.activeStatus now with
      | some status => (.ownedActive status, c)
      | none => (.ownedExpired, c)
    else (.closed, ⟨none⟩)
  else if sdkOpen then (.untrackedOpen, c)
  else (.closed, c)

def ownedResponse (status : WindowStatus) (payload : Except RpcFailure (String × String)) :
    Except RpcFailure OpenCommissioningWindowResponse :=
  match status.durationSeconds with
  | none => .error ⟨"status_failed", "window duration is unavailable"⟩
  | some durationSeconds =>
    match status.remainingSeconds with
    | none => .error ⟨"status_failed", "window deadline is unavailable"⟩
    | some remainingSeconds =>
      match payload with
      | .error e => .error e
      | .ok (manualCode, qrCode) =>
        .ok ⟨durationSeconds, some remainingSeconds, manualCode, qrCode⟩

variable {σ : Type}

/-- The first half of `open_observed`: afterwards a window is tracked. `openWindow` acts on the
    state of the SDK. -/
def ensureWindow (c : Commissioning) (sdkOpen : Bool) (durationSeconds : Nat) (observedAt : Nat)
    (openWindow : σ → Except RpcFailure Unit × σ) (sdk : σ) :
    Except RpcFailure Unit × Commissioning × σ :=
  match c.observe sdkOpen observedAt with
  | (.ownedActive _, c) => (.ok (), c, sdk)
  | (.ownedExpired, c) =>
    (.error ⟨"window_closing", "the previous Oikade commissioning window has expired but rs-matter is still closing it; retry shortly"⟩, c, sdk)
  | (.untrackedOpen, c) =>
    (.error ⟨"window_conflict", "a commissioning window not opened by Oikade is already active"⟩,
      c, sdk)
  | (.closed, c) =>
    match openWindow sdk with
    | (.error e, sdk) => (.error e, c, sdk)
    | (.ok (), sdk) =>
      (.ok (), ⟨some ⟨durationSeconds, observedAt + durationSeconds * nanosPerSecond⟩⟩, sdk)

/-- The clock is read twice, before and after the window is opened. -/
def openObserved (c : Commissioning) (sdkOpen : Bool) (durationSeconds : Nat)
    (observedAt statusAt : Nat) (openWindow : σ → Except RpcFailure Unit × σ)
    (payload : Except RpcFailure (String × String)) (sdk : σ) :
    Except RpcFailure OpenCommissioningWindowResponse × Commissioning × σ :=
  match c.ensureWindow sdkOpen durationSeconds observedAt openWindow sdk with
  | (.error e, c, sdk) => (.error e, c, sdk)
  | (.ok (), c, sdk) =>
    match c.activeStatus statusAt with
    | none => (.error ⟨"window_closing", "commissioning window expired"⟩, c, sdk)
    | some status => (ownedResponse status payload, c, sdk)

/-- `open`; `isOpen` is what `window_is_open` returns. -/
def openCall (c : Commissioning) (isOpen : Except RpcFailure Bool) (durationSeconds : Nat)
    (observedAt statusAt : Nat) (openWindow : σ → Except RpcFailure Unit × σ)
    (payload : Except RpcFailure (String × String)) (sdk : σ) :
    Except RpcFailure OpenCommissioningWindowResponse × Commissioning × σ :=
  match isOpen with
  | .error e => (.error e, c, sdk)
  | .ok sdkOpen => c.openObserved sdkOpen durationSeconds observedAt statusAt openWindow payload sdk

def infoObserved (c : Commissioning) (sdkOpen : Bool) (now : Nat)
    (payload : Except RpcFailure (String × String)) :
    Except RpcFailure CommissioningInfoResponse × Commissioning :=
  match c.observe sdkOpen now with
  | (.ownedActive status, c) =>
    match payload with
    | .error e => (.error e, c)
    | .ok (manualCode, qrCode) =>
      (.ok ⟨true, status.durationSeconds, status.remainingSeconds, some manualCode, some qrCode⟩, c)
  | (.ownedExpired, c) | (.untrackedOpen, c) => (.ok ⟨true, none, none, none, none⟩, c)
  | (.closed, c) => (.ok ⟨false, none, none, none, none⟩, c)

/-- `info` -/
def info (c : Commissioning) (isOpen : Except RpcFailure Bool) (now : Nat)
    (payload : Except RpcFailure (String × String)) :
    Except RpcFailure CommissioningInfoResponse × Commissioning :=
  match isOpen with
  | .error e => (.error e, c)
  | .ok sdkOpen => c.infoObserved sdkOpen now payload

/-! ## What a call does -/

theorem activeStatus_eq_some {c : Commissioning} {now : Nat} {status : WindowStatus}
    (h : c.activeStatus now = some status) :
    ∃ w, c.trackedWindow = some w ∧ now < w.deadline ∧
      status = ⟨true, some w.durationSeconds, some (secondsLeft (w.deadline - now)), true⟩ := by
  unfold activeStatus at h
  cases hw : c.trackedWindow with
  | none => simp [hw] at h
  | some w =>
    simp only [hw] at h
    by_cases hlt : w.deadline < now
    · simp [hlt] at h
    · by_cases hz : w.deadline - now = 0
      · simp [hz] at h
      · rw [if_neg hlt, if_neg hz, Option.some.injEq] at h
        exact ⟨w, rfl, by omega, h.symm⟩

theorem activeStatus_of_lt {c : Commissioning} {now : Nat} {w : TrackedWindow}
    (hw : c.trackedWindow = some w) (hlt : now < w.deadline) :
    c.activeStatus now =
      some ⟨true, some w.durationSeconds, some (secondsLeft (w.deadline - now)), true⟩ := by
  unfold activeStatus
  simp only [hw]
  rw [if_neg (by omega), if_neg (by omega)]

/-- A window seen closed is forgotten. -/
theorem observe_false (c : Commissioning) (now : Nat) :
    c.observe false now = (.closed, ⟨none⟩) := by
  unfold observe
  cases c with
  | mk window => cases window <;> simp

theorem observe_true_state (c : Commissioning) (now : Nat) : (c.observe true now).2 = c := by
  unfold observe
  cases hw : c.trackedWindow with
  | none => simp
  | some w =>
    simp only [Option.isSome_some, if_true]
    cases c.activeStatus now <;> rfl

theorem observe_active {c c' : Commissioning} {sdkOpen : Bool} {now : Nat}
    {status : WindowStatus} (h : c.observe sdkOpen now = (.ownedActive status, c')) :
    sdkOpen = true ∧ c' = c ∧ c.activeStatus now = some status := by
  cases sdkOpen with
  | false => simp [observe_false] at h
  | true =>
    have hc := observe_true_state c now
    rw [h] at hc
    refine ⟨rfl, hc, ?_⟩
    unfold observe at h
    cases hw : c.trackedWindow.isSome with
    | false => simp [hw] at h
    | true =>
      simp only [hw, if_true] at h
      cases ha : c.activeStatus now with
      | none => simp [ha] at h
      | some s =>
        simp only [ha, Prod.mk.injEq, ObservedWindow.ownedActive.injEq] at h
        rw [h.1]

/-- The window that a call opens. -/
def openedWindow (durationSeconds : Nat) (observedAt : Nat) : Commissioning :=
  ⟨some ⟨durationSeconds, observedAt + durationSeconds * nanosPerSecond⟩⟩

section Effects

variable {σ : Type} {c c' : Commissioning} {isOpen : Except RpcFailure Bool} {sdkOpen : Bool}
  {duration : Nat} {observedAt statusAt now : Nat}
  {openWindow : σ → Except RpcFailure Unit × σ} {payload : Except RpcFailure (String × String)}
  {sdk sdk' : σ}

theorem ensureWindow_cases {r : Except RpcFailure Unit}
    (h : c.ensureWindow sdkOpen duration observedAt openWindow sdk = (r, c', sdk')) :
    (sdkOpen = true ∧ c' = c ∧ sdk' = sdk) ∨
    (sdkOpen = false ∧ c' = ⟨none⟩ ∧ ∃ e, r = .error e ∧ openWindow sdk = (.error e, sdk')) ∨
    (sdkOpen = false ∧ c' = openedWindow duration observedAt ∧ openWindow sdk = (.ok (), sdk')) := by
  unfold ensureWindow at h
  cases sdkOpen with
  | true =>
    have hc := observe_true_state c observedAt
    cases ho : c.observe true observedAt with
    | mk o c₁ =>
      rw [ho] at hc
      simp only at hc
      subst hc
      have hclosed : o ≠ .closed := by
        intro he
        subst he
        unfold observe at ho
        cases hw : c₁.trackedWindow.isSome with
        | false => simp [hw] at ho
        | true =>
          simp only [hw, if_true] at ho
          cases ha : c₁.activeStatus observedAt <;> simp [ha] at ho
      simp only [ho] at h
      cases o with
      | closed => exact absurd rfl hclosed
      | ownedActive _ | ownedExpired | untrackedOpen =>
        simp only [Prod.mk.injEq] at h
        exact .inl ⟨rfl, h.2.1.symm, h.2.2.symm⟩
  | false =>
    simp only [observe_false] at h
    cases ho : openWindow sdk with
    | mk opened sdk₁ =>
      simp only [ho] at h
      cases opened with
      | error e =>
        simp only [Prod.mk.injEq] at h
        obtain ⟨hr, hc, hs⟩ := h
        exact .inr (.inl ⟨rfl, hc.symm, e, hr.symm, by rw [hs]⟩)
      | ok _ =>
        simp only [Prod.mk.injEq] at h
        obtain ⟨-, hc, hs⟩ := h
        exact .inr (.inr ⟨rfl, hc.symm, by rw [hs]⟩)

theorem ownedResponse_ok {w : TrackedWindow} {left : Nat} {r : OpenCommissioningWindowResponse}
    (h : ownedResponse ⟨true, some w.durationSeconds, some left, true⟩ payload = .ok r) :
    ∃ p, payload = .ok p ∧ r = ⟨w.durationSeconds, some left, p.1, p.2⟩ := by
  unfold ownedResponse at h
  cases payload with
  | error e => simp at h
  | ok p =>
    simp only [Except.ok.injEq] at h
    exact ⟨p, rfl, h.symm⟩

/-- What `open` leaves behind: nothing changes, or an opening fails, or a window is opened. -/
theorem openCall_state {r : Except RpcFailure OpenCommissioningWindowResponse}
    (h : c.openCall isOpen duration observedAt statusAt openWindow payload sdk = (r, c', sdk')) :
    (c' = c ∧ sdk' = sdk ∧ ∀ resp, r = .ok resp → isOpen = .ok true) ∨
    (c' = ⟨none⟩ ∧ ∃ e, r = .error e ∧ openWindow sdk = (.error e, sdk')) ∨
    (isOpen = .ok false ∧ c' = openedWindow duration observedAt ∧
      openWindow sdk = (.ok (), sdk')) := by
  unfold openCall at h
  cases isOpen with
  | error e =>
    simp only [Prod.mk.injEq] at h
    exact .inl ⟨h.2.1.symm, h.2.2.symm, fun resp hr => by rw [← h.1] at hr; cases hr⟩
  | ok sdkOpen =>
    simp only at h
    unfold openObserved at h
    cases he : c.ensureWindow sdkOpen duration observedAt openWindow sdk with
    | mk res rest =>
      obtain ⟨c₁, sdk₁⟩ := rest
      have hstate : c₁ = c' ∧ sdk₁ = sdk' ∧ ∀ e, res = .error e → r = .error e := by
        simp only [he] at h
        cases res with
        | error e =>
          simp only [Prod.mk.injEq] at h
          exact ⟨h.2.1, h.2.2, fun e' he' => by cases he'; exact h.1.symm⟩
        | ok _ =>
          cases ha : c₁.activeStatus statusAt with
          | none =>
            simp only [ha, Prod.mk.injEq] at h
            exact ⟨h.2.1, h.2.2, fun e' he' => by cases he'⟩
          | some status =>
            simp only [ha, Prod.mk.injEq] at h
            exact ⟨h.2.1, h.2.2, fun e' he' => by cases he'⟩
      obtain ⟨rfl, rfl, hres⟩ := hstate
      obtain ⟨rfl, hc, hs⟩ | ⟨rfl, hc, e, hr, ho⟩ | ⟨rfl, hc, ho⟩ := ensureWindow_cases he
      · exact .inl ⟨hc, hs, fun _ _ => rfl⟩
      · exact .inr (.inl ⟨hc, e, hres e hr, ho⟩)
      · exact .inr (.inr ⟨rfl, hc, ho⟩)

/-- A successful `open` answers for the window that is then tracked and active. -/
theorem openCall_reply {r : OpenCommissioningWindowResponse}
    (h : c.openCall isOpen duration observedAt statusAt openWindow payload sdk = (.ok r, c', sdk')) :
    ∃ w p, c'.trackedWindow = some w ∧ statusAt < w.deadline ∧ payload = .ok p ∧
      r = ⟨w.durationSeconds, some (secondsLeft (w.deadline - statusAt)), p.1, p.2⟩ := by
  unfold openCall at h
  cases isOpen with
  | error e => simp at h
  | ok sdkOpen =>
    simp only at h
    unfold openObserved at h
    cases he : c.ensureWindow sdkOpen duration observedAt openWindow sdk with
    | mk res rest =>
      obtain ⟨c₁, sdk₁⟩ := rest
      simp only [he] at h
      cases res with
      | error e => simp at h
      | ok _ =>
        cases ha : c₁.activeStatus statusAt with
        | none => simp [ha] at h
        | some status =>
          simp only [ha, Prod.mk.injEq] at h
          obtain ⟨hr, rfl, -⟩ := h
          obtain ⟨w, hw, hlt, rfl⟩ := activeStatus_eq_some ha
          obtain ⟨p, hp, hr⟩ := ownedResponse_ok hr
          exact ⟨w, p, hw, hlt, hp, hr⟩

theorem info_state {r : Except RpcFailure CommissioningInfoResponse}
    (h : c.info isOpen now payload = (r, c')) : c' = c ∨ c' = ⟨none⟩ := by
  unfold info at h
  cases isOpen with
  | error e =>
    simp only [Prod.mk.injEq] at h
    exact .inl h.2.symm
  | ok sdkOpen =>
    simp only at h
    unfold infoObserved at h
    cases sdkOpen with
    | false =>
      simp only [observe_false, Prod.mk.injEq] at h
      exact .inr h.2.symm
    | true =>
      have hc := observe_true_state c now
      cases ho : c.observe true now with
      | mk o c₁ =>
        rw [ho] at hc
        simp only at hc
        subst hc
        simp only [ho] at h
        cases o with
        | ownedActive status =>
          cases payload <;> simp only [Prod.mk.injEq] at h <;> exact .inl h.2.symm
        | closed | ownedExpired | untrackedOpen =>
          simp only [Prod.mk.injEq] at h
          exact .inl h.2.symm

/-- A successful `info` answers for the tracked window, which is active, or with no details. -/
theorem info_reply {r : CommissioningInfoResponse} (h : c.info isOpen now payload = (.ok r, c')) :
    (∃ w p, isOpen = .ok true ∧ c' = c ∧ c.trackedWindow = some w ∧ now < w.deadline ∧
      payload = .ok p ∧ r = ⟨true, some w.durationSeconds,
        some (secondsLeft (w.deadline - now)), some p.1, some p.2⟩) ∨
    ∃ b, r = ⟨b, none, none, none, none⟩ := by
  unfold info at h
  cases isOpen with
  | error e => simp at h
  | ok sdkOpen =>
    simp only at h
    unfold infoObserved at h
    cases ho : c.observe sdkOpen now with
    | mk o c₁ =>
      simp only [ho] at h
      cases o with
      | ownedActive status =>
        obtain ⟨rfl, rfl, ha⟩ := observe_active ho
        obtain ⟨w, hw, hlt, rfl⟩ := activeStatus_eq_some ha
        cases payload with
        | error e => simp at h
        | ok p =>
          simp only [Prod.mk.injEq, Except.ok.injEq] at h
          exact .inl ⟨w, p, rfl, h.2.symm, hw, hlt, rfl, h.1.symm⟩
      | closed =>
        simp only [Prod.mk.injEq, Except.ok.injEq] at h
        exact .inr ⟨false, h.1.symm⟩
      | ownedExpired | untrackedOpen =>
        simp only [Prod.mk.injEq, Except.ok.injEq] at h
        exact .inr ⟨true, h.1.symm⟩

end Effects

end Commissioning

/-! ## Replies -/

/-- A successful response. -/
inductive Reply where
  | opened (response : OpenCommissioningWindowResponse)
  | info (response : CommissioningInfoResponse)
  deriving DecidableEq, Repr

namespace Reply

def durationSeconds : Reply → Option Nat
  | opened r => some r.durationSeconds
  | info r => r.durationSeconds

def remainingSeconds : Reply → Option Nat
  | opened r => r.remainingSeconds
  | info r => r.remainingSeconds

def manualCode : Reply → Option String
  | opened r => some r.manualCode
  | info r => r.manualCode

def qrCode : Reply → Option String
  | opened r => some r.qrCode
  | info r => r.qrCode

/-- The check of the host. -/
def validate : Reply → Except CommissioningError Unit
  | opened r => validateCommissioningResponse r
  | info r => validateCommissioningInfoResponse r

/-- The reply carries a manual code or a QR code. -/
def discloses (r : Reply) : Bool := r.manualCode.isSome || r.qrCode.isSome

end Reply

end Oikade.Matter
