import Mathlib.Algebra.Order.Ring.Int

/-!
# Assurance

What a session may manage on its own account depends on the tier it was given, the
factors it was authenticated with, how long ago that was, and, for a session of reduced
scope, whether its hold is over. Instants are nanoseconds since the Unix epoch.
-/

namespace QuicSql.Authz

abbrev Instant := Int

/-- The zero `time.Time`, at the beginning of the year 1. -/
def zeroTime : Instant := -62135596800000000000

abbrev Tier := UInt8

def tierDataOnly : Tier := 0

def tierOwner : Tier := 1

abbrev Factor := UInt16

def factorPassword : Factor := 1

def factorOTP : Factor := 2

def factorWebAuthn : Factor := 4

def factorDeviceKey : Factor := 8

def factorRecovery : Factor := 16

def strictFactors : Factor := factorWebAuthn ||| factorDeviceKey ||| factorRecovery

abbrev Scope := UInt8

def scopeFull : Scope := 0

def scopeReduced : Scope := 1

structure Assurance where
  tier : Tier
  factors : Factor
  authTime : Instant
  credID : List UInt8
  scope : Scope
  notBeforeDestructive : Instant
deriving DecidableEq, Repr

inductive ActionClass where
  | dataWrite
  | credentialMgmt
  | destructive
  | recoveryRoot
deriving DecidableEq, Repr

structure AssurancePolicy where
  credentialMgmt : Factor
  destructive : Factor
  stepUpWindow : Int
deriving DecidableEq, Repr

def minute : Int := 60000000000

/-- The zero policy stands for the strict defaults. -/
def AssurancePolicy.withDefaults (p : AssurancePolicy) : AssurancePolicy where
  credentialMgmt := if p.credentialMgmt = 0 then strictFactors else p.credentialMgmt
  destructive := if p.destructive = 0 then strictFactors else p.destructive
  stepUpWindow := if p.stepUpWindow = 0 then 10 * minute else p.stepUpWindow

def AssurancePolicy.zero : AssurancePolicy := ⟨0, 0, 0⟩

inductive AssuranceErr where
  | ownerRequired
  | stepUpRequired
  | scopeReduced
deriving DecidableEq, Repr

/-- `Time.Sub` saturates at the range of a duration. -/
def sub (t u : Instant) : Int := max (-2 ^ 63) (min (t - u) (2 ^ 63 - 1))

def AssurancePolicy.need (pol : AssurancePolicy) (action : ActionClass) : Factor :=
  if action = .destructive then pol.destructive else pol.credentialMgmt

def requireOwner (a : Assurance) (action : ActionClass) (pol : AssurancePolicy) (now : Instant) :
    Except AssuranceErr Unit :=
  if a.tier < tierOwner then .error .ownerRequired
  else if a.scope = scopeReduced ∧ now < a.notBeforeDestructive then .error .scopeReduced
  else if a.factors &&& pol.need action = 0 ∨ pol.stepUpWindow < sub now a.authTime then .error .stepUpRequired
  else .ok ()

def requireRoot (a : Assurance) (pol : AssurancePolicy) (now : Instant) : Except AssuranceErr Unit :=
  if a.factors &&& factorRecovery = 0 ∨ a.scope = scopeReduced then .error .stepUpRequired
  else if pol.stepUpWindow < sub now a.authTime then .error .stepUpRequired
  else .ok ()

def requireAssurance (a : Option Assurance) (action : ActionClass) (pol : AssurancePolicy) (now : Instant) :
    Except AssuranceErr Unit :=
  match action, a with
  | .dataWrite, _ => .ok ()
  | _, none => .error .ownerRequired
  | .recoveryRoot, some a => requireRoot a pol.withDefaults now
  | .credentialMgmt, some a => requireOwner a .credentialMgmt pol.withDefaults now
  | .destructive, some a => requireOwner a .destructive pol.withDefaults now

theorem requireOwner_ok {a : Assurance} {action : ActionClass} {pol : AssurancePolicy} {now : Instant}
    (h : requireOwner a action pol now = .ok ()) :
    tierOwner ≤ a.tier ∧ (a.scope = scopeReduced → a.notBeforeDestructive ≤ now) ∧
      a.factors &&& pol.need action ≠ 0 ∧ sub now a.authTime ≤ pol.stepUpWindow := by
  unfold requireOwner at h
  split at h
  · cases h
  · rename_i hTier
    split at h
    · cases h
    · rename_i hScope
      split at h
      · cases h
      · rename_i hFactors
        obtain ⟨hNeed, hFresh⟩ := not_or.mp hFactors
        refine ⟨UInt8.not_lt.mp hTier, fun hReduced => ?_, hNeed, Int.not_lt.mp hFresh⟩
        exact Int.not_lt.mp (fun hHeld => hScope ⟨hReduced, hHeld⟩)

theorem sub_le_window {t u window : Int} (hWindow : window < 2 ^ 63 - 1) (h : sub t u ≤ window) :
    t - u ≤ window := by
  unfold sub at h
  omega

theorem zero_need (action : ActionClass) : AssurancePolicy.zero.withDefaults.need action = strictFactors := by
  unfold AssurancePolicy.need
  split <;> rfl

end QuicSql.Authz
