import QuicSql.Auth.Token
import QuicSql.Lib.Transition

/-!
# The session minter

Calls of the minter run concurrently over one clock and one revocation map. A call is
split wherever it reads the clock or takes the lock. Only tokens that were issued are
presented, the signature being unforgeable, and a drawn session id was never named before.
-/

namespace QuicSql.Auth

open Authz Lib

structure Fresh where
  claims : SessClaims
  time : Int
deriving DecidableEq, Repr

/-- A token with the token its session was minted with, when that was, and the fresh mint
that the session goes back to. -/
structure Issued where
  token : Payload
  minted : Payload
  time : Int
  root : Fresh
deriving DecidableEq, Repr

def Issued.fresh (ttl : TTL) (sid : Sid) (principal : String) (now : Int) (c : SessClaims) (root : Fresh) : Issued :=
  ⟨mint ttl sid principal now c, mint ttl sid principal now c, now, root⟩

/-- `late` says that the session's revocation had returned when the call started; `now` is
the reading that the expiry was tested with. -/
inductive Call where
  | begun (use : Use) (k : Issued) (late : Bool)
  | looking (use : Use) (k : Issued) (late : Bool) (now : Int)
  | comparing (use : Use) (k : Issued) (late : Bool) (now e : Int)
  | accepted (use : Use) (k : Issued) (late : Bool) (now : Int)
  | refused
  | revoking (k : Issued)
  | collecting (k : Issued) (now : Int)
  | revokingOne (sid : Sid)
  | revokingSIDs (sids : List (Sid × Int)) (except : Sid)
  | returned
deriving DecidableEq, Repr

def Call.names : Call → List Sid
  | .revokingOne sid => [sid]
  | .revokingSIDs sids _ => sids.map Prod.fst
  | _ => []

/-- `final` are the sessions whose revocation has returned, `named` all session ids that
were drawn or passed to a call. -/
structure Minter where
  clock : Int
  revoked : Sid → Option Int
  issued : List Issued
  final : List Sid
  named : List Sid
  calls : List Call

namespace Minter

inductive Action where
  | tick (d : Nat)
  | mint (sid : Sid) (principal : String) (c : SessClaims)
  | stepUp (k : Nat) (sid : Sid) (add : Factor) (credID : List UInt8)
  | use (use : Use) (k : Nat)
  | revoke (k : Nat)
  | revokeOne (sid : Sid)
  | revokeSIDs (sids : List (Sid × Int)) (except : Sid)
  | step (n : Nat)

/-- The clock counts in an `int64`. -/
def init (start : Int) : Minter := ⟨int64 start, fun _ => none, [], [], [], []⟩

def record (s : Minter) (i : Issued) : Minter :=
  { s with issued := s.issued ++ [i], named := i.token.sid :: s.named }

def start (s : Minter) (c : Call) : Minter :=
  { s with calls := s.calls ++ [c], named := c.names ++ s.named }

def goto (s : Minter) (n : Nat) (c : Call) : Minter := { s with calls := s.calls.set n c }

def successors (ttl : TTL) (k : Issued) (now : Int) : Use → List Issued
  | .verify => []
  | _ => [{ k with token := k.token.extend ttl now }]

def accept (ttl : TTL) (s : Minter) (n : Nat) (use : Use) (k : Issued) (late : Bool) (now : Int) : Minter :=
  { s.goto n (.accepted use k late now) with issued := s.issued ++ successors ttl k now use }

/-- The sweep of `revoke` over the entries that have lapsed. -/
def collect (revoked : Sid → Option Int) (now : Int) (sid : Sid) : Option Int :=
  (revoked sid).filter (fun e => decide (now ≤ e))

def forget (s : Minter) (n : Nat) (revoked : Sid → Option Int) (sids : List Sid) : Minter :=
  { s.goto n .returned with revoked := revoked, final := sids ++ s.final }

def remember (revoked : Sid → Option Int) (sids : List (Sid × Int)) (sid : Sid) : Option Int :=
  ((sids.find? (fun p => p.1 = sid)).map Prod.snd).or (revoked sid)

/-- `revokeOne` adds durations, and then to the time, in `int64`. -/
def deadline (ttl : TTL) (now : Int) : Int := int64 (now + int64 (ttl.idleTTL + ttl.maxTTL))

def advance (ttl : TTL) (s : Minter) (n : Nat) : Call → Option Minter
  | .begun use k late =>
    if k.token.admits ttl s.clock use then some (s.goto n (.looking use k late s.clock))
    else some (s.goto n .refused)
  | .looking use k late now =>
    match s.revoked k.token.sid with
    | none => some (accept ttl s n use k late now)
    | some e => some (s.goto n (.comparing use k late now e))
  | .comparing use k late now e =>
    if s.clock ≤ e then some (s.goto n .refused) else some (accept ttl s n use k late now)
  | .revoking k =>
    if k.token.admits ttl s.clock .verify then some (s.goto n (.collecting k s.clock))
    else some (s.goto n .refused)
  | .collecting k now =>
    some (s.forget n (remember (collect s.revoked now) [(k.token.sid, k.token.revokedUntil)]) [k.token.sid])
  | .revokingOne sid => some (s.goto n (.revokingSIDs [(sid, deadline ttl s.clock)] []))
  | .revokingSIDs sids except =>
    let kept := sids.filter (fun p => p.1 ≠ except)
    some (s.forget n (remember s.revoked kept) (kept.map Prod.fst))
  | .accepted .. | .refused | .returned => none

/-- The rows passed to `revokeSIDs` hold the outer deadlines of their sessions. -/
def Rows (s : Minter) (sids : List (Sid × Int)) : Prop :=
  ∀ p ∈ sids, ∀ i ∈ s.issued, i.token.sid = p.1 → p.2 = i.minted.outer

instance (s : Minter) (sids : List (Sid × Int)) : Decidable (s.Rows sids) :=
  inferInstanceAs (Decidable (∀ p ∈ sids, ∀ i ∈ s.issued, i.token.sid = p.1 → p.2 = i.minted.outer))

def step (ttl : TTL) (s : Minter) : Action → Option Minter
  | .tick d => if s.clock + d < 2 ^ 63 then some { s with clock := s.clock + d } else none
  | .mint sid principal c =>
    if sid ∈ s.named then none else some (s.record (Issued.fresh ttl sid principal s.clock c ⟨c, s.clock⟩))
  | .stepUp k sid add credID =>
    s.issued[k]?.bind fun i =>
      if sid ∈ s.named then none
      else some (s.record (Issued.fresh ttl sid i.token.principal s.clock
        (Auth.stepUp i.token.claims.assurance add credID) i.root))
  | .use use k => s.issued[k]?.map fun i => s.start (.begun use i (decide (i.token.sid ∈ s.final)))
  | .revoke k => s.issued[k]?.map fun i => s.start (.revoking i)
  | .revokeOne sid => some (s.start (.revokingOne sid))
  | .revokeSIDs sids except => if s.Rows sids then some (s.start (.revokingSIDs sids except)) else none
  | .step n => s.calls[n]?.bind (advance ttl s n)

inductive Opening (s : Minter) : Call → Prop
  | use {use : Use} {k : Issued} : k ∈ s.issued → Opening s (.begun use k (decide (k.token.sid ∈ s.final)))
  | revoke {k : Issued} : k ∈ s.issued → Opening s (.revoking k)
  | revokeOne {sid : Sid} : Opening s (.revokingOne sid)
  | revokeSIDs {sids : List (Sid × Int)} {except : Sid} : s.Rows sids → Opening s (.revokingSIDs sids except)

inductive Reads (ttl : TTL) (s : Minter) : Call → Call → Prop
  | pass {use : Use} {k : Issued} {late : Bool} :
      k.token.admits ttl s.clock use = true → Reads ttl s (.begun use k late) (.looking use k late s.clock)
  | found {use : Use} {k : Issued} {late : Bool} {now e : Int} :
      s.revoked k.token.sid = some e → Reads ttl s (.looking use k late now) (.comparing use k late now e)
  | refuse {c : Call} : Reads ttl s c .refused
  | revoke {k : Issued} :
      k.token.admits ttl s.clock .verify = true → Reads ttl s (.revoking k) (.collecting k s.clock)
  | revokeOne {sid : Sid} : Reads ttl s (.revokingOne sid) (.revokingSIDs [(sid, deadline ttl s.clock)] [])

/-- A section after which the call accepts. -/
inductive Clears (s : Minter) : Call → Use → Issued → Bool → Int → Prop
  | absent {use : Use} {k : Issued} {late : Bool} {now : Int} :
      s.revoked k.token.sid = none → Clears s (.looking use k late now) use k late now
  | lapsed {use : Use} {k : Issued} {late : Bool} {now e : Int} :
      e < s.clock → Clears s (.comparing use k late now e) use k late now

inductive Forgets (s : Minter) : Call → (Sid → Option Int) → List Sid → Prop
  | revoke {k : Issued} {now : Int} :
      Forgets s (.collecting k now) (remember (collect s.revoked now) [(k.token.sid, k.token.revokedUntil)]) [k.token.sid]
  | revokeSIDs {sids kept : List (Sid × Int)} {except : Sid} : kept ⊆ sids →
      Forgets s (.revokingSIDs sids except) (remember s.revoked kept) (kept.map Prod.fst)

inductive Move (ttl : TTL) (s : Minter) : Action → Minter → Prop
  | tick {d : Nat} : s.clock + d < 2 ^ 63 → Move ttl s (.tick d) { s with clock := s.clock + d }
  | mint {sid : Sid} {principal : String} {c : SessClaims} : sid ∉ s.named →
      Move ttl s (.mint sid principal c) (s.record (Issued.fresh ttl sid principal s.clock c ⟨c, s.clock⟩))
  | stepUp {k : Nat} {i : Issued} {sid : Sid} {add : Factor} {credID : List UInt8} : i ∈ s.issued → sid ∉ s.named →
      Move ttl s (.stepUp k sid add credID) (s.record (Issued.fresh ttl sid i.token.principal s.clock
        (Auth.stepUp i.token.claims.assurance add credID) i.root))
  | start {a : Action} {c : Call} : Opening s c → Move ttl s a (s.start c)
  | reads {n : Nat} {c d : Call} : s.calls[n]? = some c → Reads ttl s c d → Move ttl s (.step n) (s.goto n d)
  | accept {n : Nat} {c : Call} {use : Use} {k : Issued} {late : Bool} {now : Int} :
      s.calls[n]? = some c → Clears s c use k late now → Move ttl s (.step n) (accept ttl s n use k late now)
  | forget {n : Nat} {c : Call} {revoked : Sid → Option Int} {sids : List Sid} :
      s.calls[n]? = some c → Forgets s c revoked sids → Move ttl s (.step n) (s.forget n revoked sids)

variable {ttl : TTL} {s t : Minter}

theorem advance_move {n : Nat} {c : Call} (hCall : s.calls[n]? = some c) (h : advance ttl s n c = some t) :
    Move ttl s (.step n) t := by
  cases c with
  | begun use k late =>
    rw [advance] at h
    split at h
    · rename_i hAdmit
      cases h
      exact .reads hCall (.pass hAdmit)
    · cases h
      exact .reads hCall .refuse
  | looking use k late now =>
    rw [advance] at h
    split at h
    · rename_i hNone
      cases h
      exact .accept hCall (.absent hNone)
    · rename_i e hSome
      cases h
      exact .reads hCall (.found hSome)
  | comparing use k late now e =>
    rw [advance] at h
    split at h
    · cases h
      exact .reads hCall .refuse
    · rename_i hLapsed
      cases h
      exact .accept hCall (.lapsed (Int.not_le.mp hLapsed))
  | revoking k =>
    rw [advance] at h
    split at h
    · rename_i hAdmit
      cases h
      exact .reads hCall (.revoke hAdmit)
    · cases h
      exact .reads hCall .refuse
  | collecting k now =>
    cases h
    exact .forget hCall .revoke
  | revokingOne sid =>
    cases h
    exact .reads hCall .revokeOne
  | revokingSIDs sids except =>
    cases h
    exact .forget hCall (.revokeSIDs (List.filter_subset_self _))
  | accepted use k late now => cases h
  | refused => cases h
  | returned => cases h

theorem step_move {a : Action} (h : step ttl s a = some t) : Move ttl s a t := by
  cases a with
  | tick d =>
    obtain ⟨hFits, h⟩ := Option.ite_none_right_eq_some.mp h
    cases h
    exact .tick hFits
  | mint sid principal c =>
    obtain ⟨hNew, h⟩ := Option.ite_none_left_eq_some.mp h
    cases h
    exact .mint hNew
  | stepUp k sid add credID =>
    obtain ⟨i, hi, h⟩ := Option.bind_eq_some_iff.mp h
    obtain ⟨hNew, h⟩ := Option.ite_none_left_eq_some.mp h
    cases h
    exact .stepUp (List.mem_of_getElem? hi) hNew
  | use use k =>
    obtain ⟨i, hi, h⟩ := Option.map_eq_some_iff.mp h
    cases h
    exact .start (.use (List.mem_of_getElem? hi))
  | revoke k =>
    obtain ⟨i, hi, h⟩ := Option.map_eq_some_iff.mp h
    cases h
    exact .start (.revoke (List.mem_of_getElem? hi))
  | revokeOne sid =>
    cases h
    exact .start .revokeOne
  | revokeSIDs sids except =>
    obtain ⟨hRows, h⟩ := Option.ite_none_right_eq_some.mp h
    cases h
    exact .start (.revokeSIDs hRows)
  | step n =>
    obtain ⟨c, hc, h⟩ := Option.bind_eq_some_iff.mp h
    exact advance_move hc h

end Minter

end QuicSql.Auth
