import QuicSql.Authz.Assurance

/-!
# Session tokens

What a token carries, how it is issued and how it is derived from another one. A payload
holds the fields as they are stored, instants as 64-bit counts of nanoseconds since the
Unix epoch, zero for none. An instant outside that range is stored modulo 2 ^ 64.
-/

namespace QuicSql.Auth

open Authz

abbrev Sid := List UInt8

def credLen : Nat := 16

structure SessClaims where
  tier : Tier
  scope : Scope
  factors : Factor
  rot : UInt16
  credID : List UInt8
  authTime : Instant
  notBefore : Instant
deriving DecidableEq, Repr

def int64 (n : Int) : Int := n.bmod (2 ^ 64)

def unixNano (t : Instant) : Int := int64 t

def unixNanoOrZero (t : Instant) : Int := if t = zeroTime then 0 else unixNano t

def timeFromNano (n : Int) : Instant := if n = 0 then zeroTime else n

structure Payload where
  sid : Sid
  exp : Int
  hardExp : Int
  authTime : Int
  notBefore : Int
  tier : Tier
  scope : Scope
  factors : Factor
  rot : UInt16
  credID : List UInt8
  principal : String
deriving DecidableEq, Repr

def allZero (b : List UInt8) : Bool := b.all (· = 0)

def SessClaims.assurance (c : SessClaims) : Assurance where
  tier := c.tier
  factors := c.factors
  authTime := c.authTime
  credID := if c.credID.length = credLen ∧ allZero c.credID = false then c.credID else []
  scope := c.scope
  notBeforeDestructive := c.notBefore

def issue (sid : Sid) (principal : String) (exp hardExp : Instant) (c : SessClaims) : Payload where
  sid := sid
  exp := unixNano exp
  hardExp := unixNanoOrZero hardExp
  authTime := unixNanoOrZero c.authTime
  notBefore := unixNanoOrZero c.notBefore
  tier := c.tier
  scope := c.scope
  factors := c.factors
  rot := c.rot
  credID := if c.credID.length = credLen then c.credID else List.replicate credLen 0
  principal := principal

def Payload.claims (p : Payload) : SessClaims where
  tier := p.tier
  scope := p.scope
  factors := p.factors
  rot := p.rot
  credID := p.credID
  authTime := timeFromNano p.authTime
  notBefore := timeFromNano p.notBefore

/-- The two lifetimes, as the configuration is validated. -/
structure TTL where
  idleTTL : Int
  maxTTL : Int
  idlePos : 0 < idleTTL
  idleFits : idleTTL < 2 ^ 63
  maxFits : maxTTL < 2 ^ 63
  ordered : maxTTL = 0 ∨ idleTTL ≤ maxTTL

def TTL.life (ttl : TTL) : Int := if ttl.maxTTL = 0 then ttl.idleTTL else ttl.maxTTL

def defaulted (now : Int) (c : SessClaims) : SessClaims :=
  if c.authTime = zeroTime then { c with authTime := now } else c

def mint (ttl : TTL) (sid : Sid) (principal : String) (now : Int) (c : SessClaims) : Payload :=
  issue sid principal (now + ttl.idleTTL) (if 0 < ttl.maxTTL then now + ttl.maxTTL else zeroTime) (defaulted now c)

/-- The token of `renew` and `maybeRefresh`. -/
def Payload.extend (ttl : TTL) (p : Payload) (now : Int) : Payload :=
  issue p.sid p.principal (if p.hardExp < now + ttl.idleTTL then p.hardExp else now + ttl.idleTTL) p.hardExp p.claims

/-- `MintStepUp` for the session `prev` came from. -/
def stepUp (prev : Assurance) (add : Factor) (credID : List UInt8) : SessClaims where
  tier := prev.tier
  scope := prev.scope
  factors := prev.factors ||| add
  rot := 0
  credID := credID
  authTime := prev.authTime
  notBefore := prev.notBeforeDestructive

inductive Use where
  | verify
  | renew
  | refresh
deriving DecidableEq, Repr

/-- The tests that a call makes before it looks for a revocation. `parse` refuses a
payload without a principal. -/
def Payload.admits (ttl : TTL) (p : Payload) (now : Int) (use : Use) : Bool :=
  p.principal ≠ "" &&
    match use with
    | .verify => decide (now ≤ p.exp)
    | .renew => p.hardExp ≠ 0 && decide (now ≤ p.exp) && decide (now < p.hardExp)
    | .refresh => p.hardExp ≠ 0 && decide (now ≤ p.exp) && decide (now < p.hardExp) &&
        decide (int64 (p.exp - now) ≤ ttl.idleTTL.tdiv 2) && decide (p.exp < p.hardExp)

/-- Until when `revoke` remembers a session. -/
def Payload.revokedUntil (p : Payload) : Int := max p.exp p.hardExp

/-- The outer deadline fixed at mint. -/
def Payload.outer (p : Payload) : Int := if p.hardExp = 0 then p.exp else p.hardExp

/-! ## Stored instants -/

theorem int64_range (n : Int) : -2 ^ 63 ≤ int64 n ∧ int64 n < 2 ^ 63 := by
  have hLow := Int.le_bmod (x := n) (m := 2 ^ 64) (by decide)
  have hHigh := Int.bmod_lt (x := n) (m := 2 ^ 64) (by decide)
  unfold int64
  omega

theorem int64_of_range {n : Int} (hLow : -2 ^ 63 ≤ n) (hHigh : n < 2 ^ 63) : int64 n = n := by
  refine Int.bmod_eq_of_le ?_ ?_ <;> omega

/-- What does not fit is stored as something earlier. -/
theorem int64_le {n : Int} (hLow : -2 ^ 63 ≤ n) : int64 n ≤ n := by
  rcases Int.lt_or_le n (2 ^ 63) with hHigh | hHigh
  · exact Int.le_of_eq (int64_of_range hLow hHigh)
  · exact Int.le_of_lt (Int.lt_of_lt_of_le (int64_range n).2 hHigh)

theorem unixNanoOrZero_range (t : Instant) : -2 ^ 63 ≤ unixNanoOrZero t ∧ unixNanoOrZero t < 2 ^ 63 := by
  unfold unixNanoOrZero
  split
  · decide
  · exact int64_range t

theorem unixNanoOrZero_timeFromNano {n : Int} (hLow : -2 ^ 63 ≤ n) (hHigh : n < 2 ^ 63) :
    unixNanoOrZero (timeFromNano n) = n := by
  unfold timeFromNano
  split
  · rename_i hZero
    rw [hZero]
    rfl
  · have hNotZero : n ≠ zeroTime := by
      unfold zeroTime
      omega
    rw [unixNanoOrZero, if_neg hNotZero]
    exact int64_of_range hLow hHigh

structure Payload.Stored (p : Payload) : Prop where
  exp : -2 ^ 63 ≤ p.exp ∧ p.exp < 2 ^ 63
  hardExp : -2 ^ 63 ≤ p.hardExp ∧ p.hardExp < 2 ^ 63
  authTime : -2 ^ 63 ≤ p.authTime ∧ p.authTime < 2 ^ 63
  notBefore : -2 ^ 63 ≤ p.notBefore ∧ p.notBefore < 2 ^ 63
  credID : p.credID.length = credLen

theorem issue_stored (sid : Sid) (principal : String) (exp hardExp : Instant) (c : SessClaims) :
    (issue sid principal exp hardExp c).Stored where
  exp := int64_range exp
  hardExp := unixNanoOrZero_range hardExp
  authTime := unixNanoOrZero_range c.authTime
  notBefore := unixNanoOrZero_range c.notBefore
  credID := by
    unfold issue
    split
    · assumption
    · exact List.length_replicate

def SameSession (p q : Payload) : Prop := q = { p with exp := q.exp }

theorem SameSession.refl (p : Payload) : SameSession p p := rfl

theorem SameSession.trans {p q r : Payload} (hpq : SameSession p q) (hqr : SameSession q r) : SameSession p r := by
  rw [SameSession, hqr, hpq]

variable {ttl : TTL} {p : Payload}

theorem Payload.admits_exp {now : Int} {use : Use} (h : p.admits ttl now use = true) : now ≤ p.exp := by
  cases use <;> simp [Payload.admits] at h <;> omega

theorem Payload.admits_hardExp {now : Int} {use : Use} (hUse : use ≠ .verify) (h : p.admits ttl now use = true) :
    p.hardExp ≠ 0 := by
  cases use <;> simp [Payload.admits] at h hUse <;> omega

theorem Payload.Stored.hardExp_ne_zeroTime (h : p.Stored) : p.hardExp ≠ zeroTime := by
  have hLow := h.hardExp.1
  unfold zeroTime
  omega

theorem Payload.Stored.sameSession_extend (h : p.Stored) (ttl : TTL) (now : Int) :
    SameSession p (p.extend ttl now) := by
  have hHard : unixNanoOrZero p.hardExp = p.hardExp := by
    rw [unixNanoOrZero, if_neg h.hardExp_ne_zeroTime]
    exact int64_of_range h.hardExp.1 h.hardExp.2
  have hAuth := unixNanoOrZero_timeFromNano h.authTime.1 h.authTime.2
  have hHold := unixNanoOrZero_timeFromNano h.notBefore.1 h.notBefore.2
  unfold SameSession Payload.extend issue Payload.claims
  simp only [hHard, hAuth, hHold, h.credID, if_pos]

theorem Payload.Stored.extend_exp (h : p.Stored) {now : Int} (hNow : -2 ^ 63 ≤ now) :
    (p.extend ttl now).exp = min p.hardExp (now + ttl.idleTTL) := by
  have hIdle := ttl.idlePos
  have hLow := h.hardExp.1
  have hHigh := h.hardExp.2
  unfold Payload.extend issue
  change int64 (if p.hardExp < now + ttl.idleTTL then p.hardExp else now + ttl.idleTTL) = _
  split
  · rw [int64_of_range hLow hHigh]
    omega
  · rw [int64_of_range (by omega) (by omega)]
    omega

end QuicSql.Auth
