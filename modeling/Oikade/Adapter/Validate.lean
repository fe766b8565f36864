/-
  What the host checks of the answers of an adapter
  (`oikade-adapter-host/src/instance.rs`): the diagnostics of a sync response, the resource
  inventory of a health response and the two commissioning responses.

  `validateResources` is the loop of the source with the set of the keys seen so far;
  `validateResources_ok` says when it accepts. A map of attributes is the map that the host decodes,
  and an identifier that a diagnostic leaves out is decoded as the empty string.
-/
import Oikade.Lib.Text
import Oikade.Adapter.Api

namespace Oikade.Adapter

/-! ## Diagnostics -/

def maxDiagnostics : Nat := 256
def maxDiagnosticMessage : Nat := 1024

inductive DiagnosticError where
  /-- "adapter returned too many diagnostics" -/
  | tooMany
  /-- "adapter returned an invalid diagnostic" -/
  | invalid
  deriving DecidableEq, Repr

def isIdentifier (value : String) : Bool :=
  match Core.validateIdentifier value with
  | .ok () => true
  | .error _ => false

def Diagnostic.valid (d : Diagnostic) : Bool :=
  (d.severity = "info" || d.severity = "warning" || d.severity = "error") && isIdentifier d.code &&
    ((d.deviceId.getD "").isEmpty || isIdentifier (d.deviceId.getD "")) &&
    ((d.capabilityId.getD "").isEmpty || isIdentifier (d.capabilityId.getD "")) &&
    !d.message.isEmpty && d.message = Text.trim d.message &&
    d.message.utf8ByteSize ≤ maxDiagnosticMessage

def validateDiagnostics (diagnostics : List Diagnostic) : Except DiagnosticError (List Diagnostic) :=
  if maxDiagnostics < diagnostics.length then .error .tooMany
  else if diagnostics.all Diagnostic.valid then .ok diagnostics
  else .error .invalid

/-! ## Resources -/

structure Resource where
  resourceType : String
  id : String
  name : String
  attributes : Std.ExtTreeMap String String

def maxResources : Nat := 256
def maxResourceAttributes : Nat := 32

inductive ResourceError where
  /-- "adapter returned too many resources" -/
  | tooMany
  /-- "adapter returned an invalid resource" -/
  | invalid
  deriving DecidableEq, Repr

def Resource.key (r : Resource) : String × String := (r.resourceType, r.id)

def validAttribute (entry : String × String) : Bool :=
  !entry.1.isEmpty && entry.1 = Text.trim entry.1 && entry.2 = Text.trim entry.2

/-- The checks on one resource, but for the set of the keys. -/
def Resource.valid (r : Resource) : Bool :=
  !r.resourceType.isEmpty && r.resourceType = Text.trim r.resourceType && !r.id.isEmpty &&
    r.id = Text.trim r.id && r.name = Text.trim r.name &&
    r.attributes.size ≤ maxResourceAttributes && r.attributes.toList.all validAttribute

def checkResources : List (String × String) → List Resource → Bool
  | _, [] => true
  | seen, r :: rs => r.valid && r.key ∉ seen && checkResources (r.key :: seen) rs

/-- Resources are sorted by type and identifier. -/
def Resource.le (left right : Resource) : Bool :=
  (compareLex (compareOn Resource.resourceType) (compareOn Resource.id) left right).isLE

def validateResources (resources : List Resource) : Except ResourceError (List Resource) :=
  if maxResources < resources.length then .error .tooMany
  else if checkResources [] resources then .ok (resources.mergeSort Resource.le)
  else .error .invalid

theorem checkResources_iff {seen : List (String × String)} {rs : List Resource} :
    checkResources seen rs = true ↔
      (∀ r ∈ rs, r.valid = true ∧ r.key ∉ seen) ∧ (rs.map Resource.key).Nodup := by
  induction rs generalizing seen with
  | nil => simp [checkResources]
  | cons r rs ih =>
    simp only [checkResources, Bool.and_eq_true, decide_eq_true_eq, ih, List.map_cons,
      List.nodup_cons, List.mem_cons, not_or, List.mem_map, not_exists, not_and, forall_eq_or_imp]
    constructor
    · rintro ⟨⟨hv, hs⟩, hrs, hnd⟩
      exact ⟨⟨⟨hv, hs⟩, fun r' hr' => ⟨(hrs r' hr').1, (hrs r' hr').2.2⟩⟩,
        fun r' hr' he => (hrs r' hr').2.1 he, hnd⟩
    · rintro ⟨⟨⟨hv, hs⟩, hrs⟩, hne, hnd⟩
      exact ⟨⟨hv, hs⟩, fun r' hr' => ⟨(hrs r' hr').1, fun he => hne r' hr' he, (hrs r' hr').2⟩, hnd⟩

/-- An inventory is accepted exactly when it is short enough, each resource is valid and no two
    have the same type and identifier. -/
theorem validateResources_ok {rs : List Resource} :
    (∃ sorted, validateResources rs = .ok sorted) ↔ rs.length ≤ maxResources ∧
      (∀ r ∈ rs, r.valid = true) ∧ (rs.map Resource.key).Nodup := by
  unfold validateResources
  by_cases hlen : maxResources < rs.length
  · simp [hlen, Nat.not_le_of_lt hlen]
  · have hle : rs.length ≤ maxResources := Nat.le_of_not_lt hlen
    have hiff := @checkResources_iff [] rs
    simp only [List.not_mem_nil, not_false_eq_true, and_true] at hiff
    rw [if_neg hlen, ← hiff]
    cases checkResources [] rs <;> simp [hle]

/-! ## Commissioning -/

def minimumCommissioningWindowSeconds : Nat := 180
def maximumCommissioningWindowSeconds : Nat := 900

structure OpenCommissioningWindowResponse where
  durationSeconds : Nat
  remainingSeconds : Option Nat
  manualCode : String
  qrCode : String
  deriving DecidableEq, Repr

structure CommissioningInfoResponse where
  isOpen : Bool
  durationSeconds : Option Nat
  remainingSeconds : Option Nat
  manualCode : Option String
  qrCode : Option String
  deriving DecidableEq, Repr

inductive CommissioningError where
  /-- "adapter returned invalid commissioning data" -/
  | data
  /-- "adapter returned invalid commissioning status" -/
  | status
  deriving DecidableEq, Repr

def validPairingPayload (manualCode qrCode : String) : Bool :=
  (manualCode.utf8ByteSize = 11 || manualCode.utf8ByteSize = 21) &&
    manualCode.toList.all Text.isAsciiDigit && "MT:".toList.isPrefixOf qrCode.toList &&
    (4 ≤ qrCode.utf8ByteSize && qrCode.utf8ByteSize ≤ 512) && qrCode = Text.trim qrCode

/-- A window of an allowed length of which between one second and all is left. -/
def validTiming (duration remaining : Nat) : Bool :=
  (minimumCommissioningWindowSeconds ≤ duration && duration ≤ maximumCommissioningWindowSeconds) &&
    (1 ≤ remaining && remaining ≤ duration)

def validateCommissioningResponse (response : OpenCommissioningWindowResponse) :
    Except CommissioningError Unit :=
  match response.remainingSeconds with
  | some remaining =>
    if validTiming response.durationSeconds remaining &&
        validPairingPayload response.manualCode response.qrCode then .ok ()
    else .error .data
  | none => .error .data

def validateCommissioningInfoResponse (response : CommissioningInfoResponse) :
    Except CommissioningError Unit :=
  let timingValid :=
    match response.durationSeconds, response.remainingSeconds with
    | some duration, some remaining => validTiming duration remaining
    | none, none => true
    | _, _ => false
  let payloadValid :=
    match response.manualCode, response.qrCode with
    | some manualCode, some qrCode => validPairingPayload manualCode qrCode
    | none, none => true
    | _, _ => false
  let hasTiming := response.durationSeconds.isSome || response.remainingSeconds.isSome
  let hasPayload := response.manualCode.isSome || response.qrCode.isSome
  let detailsAreComplete := hasTiming = hasPayload
  let closedHasDetails := !response.isOpen && (hasTiming || hasPayload)
  if !timingValid || !payloadValid || !detailsAreComplete || closedHasDetails then .error .status
  else .ok ()

end Oikade.Adapter
