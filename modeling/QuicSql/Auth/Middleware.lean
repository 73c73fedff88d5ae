import QuicSql.Auth.Chain
import QuicSql.Backend.Authorizer

/-!
# The authentication chain

A listener tries the methods it accepts in a fixed order; the first credential that is
present decides. Cryptography and decoding are parameters. The session endpoint mints from
any credential but a session token, and passes renewals and logouts to the minter.
-/

namespace QuicSql.Auth

open Authz Lib
open Backend (trimSpace)

inductive Method where
  | mtls
  | keyring
  | session
  | bearer
  | password
  | peercred
  | none
deriving DecidableEq, Repr

inductive HttpMethod where
  | get
  | head
  | options
  | post
  | put
  | delete
  | other
deriving DecidableEq, Repr

structure Cert where
  commonName : String
  spki : String

/-- The credentials come as they were sent, each header line and each cookie of the session's
name in order. Of the other headers it is the first line, empty when there is none. -/
structure Request where
  method : HttpMethod
  authorizations : List String
  cookies : List String
  secFetchSite : String
  keyringSignatures : List String
  keyringKey : String
  keyringChallenge : String
  peerCert : Option Cert
  peerUID : Option UInt32

namespace Request

variable (r : Request)

-- `Header.Get` and `Cookie` read the first value only

def authorization : String := r.authorizations.headD ""

def cookie : Option String := r.cookies.head?

def keyringSignature : String := r.keyringSignatures.headD ""

end Request

structure Principal where
  name : String
  method : Method
  assurance : Option Assurance
deriving DecidableEq, Repr

def anonymous : Principal := ⟨"", .none, none⟩

def Principal.isAnonymous (p : Principal) : Bool := p.name = ""

inductive AuthErr where
  | invalidCredential
  | unauthenticated
deriving DecidableEq, Repr

/-- `sessions` tells whether session tokens are enabled, `verify` what the minter answers. -/
structure Authenticator where
  bearer : String → Option String
  password : String → Option (String × String)
  mtlsCN : String → Option String
  mtlsSPKI : String → Option String
  keyring : String → Option String
  dynKeyring : String → Option String
  peercred : UInt32 → Option String
  sessions : Bool
  cookieMode : Bool
  sha256Hex : String → String
  compareHash : String → String → Bool
  decodeBasic : List Char → Option (String × String)
  parseKey : String → Option String
  validChallenge : String → Bool
  verifySignature : String → Request → Bool
  verify : String → Option (String × SessClaims)

def sessionPrefix : String := "st_"

def hasPrefix (s p : String) : Bool := s.toList.take p.toList.length = p.toList

def cutPrefix (s p : String) : Option String :=
  if hasPrefix s p then some (String.ofList (s.toList.drop p.toList.length)) else none

def bearerToken (r : Request) : Option String := (cutPrefix r.authorization "Bearer ").map trimSpace

def asciiLower (c : Char) : Char := if 'A' ≤ c ∧ c ≤ 'Z' then Char.ofNat (c.toNat + 32) else c

def csrfSafe (r : Request) : Bool :=
  match r.method with
  | .get | .head | .options => true
  | _ => r.secFetchSite = "" || r.secFetchSite = "same-origin" || r.secFetchSite = "none"

namespace Authenticator

variable (a : Authenticator) (r : Request)

/-- A result of none means that no credential of the method is present. -/
abbrev Attempt := Option (Except AuthErr Principal)

def basicAuth : Option (String × String) :=
  if (r.authorization.toList.take 6).map asciiLower = "basic ".toList then
    a.decodeBasic (r.authorization.toList.drop 6)
  else none

/-- The token, and whether it came as a cookie. -/
def sessionTokenFrom : Option (String × Bool) :=
  match bearerToken r with
  | some t => if hasPrefix t sessionPrefix then some (t, false) else none
  | none =>
    if a.cookieMode then (r.cookie.filter (fun c => hasPrefix c sessionPrefix)).map (fun c => (c, true)) else none

def tryMTLS : Attempt :=
  match r.peerCert with
  | none => none
  | some cert =>
    match a.mtlsCN cert.commonName with
    | some name => some (.ok ⟨name, .mtls, none⟩)
    | none => (a.mtlsSPKI cert.spki).map (fun name => .ok ⟨name, .mtls, none⟩)

def lookupKeyring (canon : String) : Option String := (a.keyring canon).or (a.dynKeyring canon)

def tryKeyring : Attempt :=
  if r.keyringSignature = "" then none
  else if r.keyringKey = "" ∨ r.keyringChallenge = "" ∨ a.validChallenge r.keyringChallenge = false then
    some (.error .invalidCredential)
  else
    match (a.parseKey r.keyringKey).bind (fun canon => (a.lookupKeyring canon).map (fun name => (canon, name))) with
    | none => some (.error .invalidCredential)
    | some (canon, name) =>
      if a.verifySignature canon r then some (.ok ⟨name, .keyring, none⟩) else some (.error .invalidCredential)

def trySession : Attempt :=
  if a.sessions then
    match a.sessionTokenFrom r with
    | none => none
    | some (tok, fromCookie) =>
      if fromCookie && !csrfSafe r then some (.error .invalidCredential)
      else
        match a.verify tok with
        | none => some (.error .invalidCredential)
        | some (name, c) => some (.ok ⟨name, .session, some c.assurance⟩)
  else none

def tryBearer : Attempt :=
  match bearerToken r with
  | none => none
  | some tok =>
    if tok = "" then none
    else
      match a.bearer (a.sha256Hex tok) with
      | none => some (.error .invalidCredential)
      | some name => some (.ok ⟨name, .bearer, none⟩)

def tryPassword : Attempt :=
  match a.basicAuth r with
  | none => none
  | some (user, pass) =>
    match a.password user with
    | none => some (.error .invalidCredential)
    | some (hash, name) =>
      if a.compareHash hash pass then some (.ok ⟨name, .password, none⟩) else some (.error .invalidCredential)

def tryMethod : Method → Attempt
  | .mtls => a.tryMTLS r
  | .keyring => a.tryKeyring r
  | .session => a.trySession r
  | .bearer => a.tryBearer r
  | .password => a.tryPassword r
  | .peercred | .none => none

def tryPeercred : Option Principal :=
  r.peerUID.bind (fun uid => (a.peercred uid).map (fun name => ⟨name, .peercred, none⟩))

end Authenticator

structure Middleware where
  a : Authenticator
  accepted : List Method

/-- An empty list admits the anonymous principal. -/
def Authenticator.middleware (a : Authenticator) (auth : List Method) : Middleware :=
  ⟨a, if auth = [] then [.none] else auth⟩

def hardMethods : List Method := [.mtls, .keyring, .session, .bearer, .password]

def amrForMethod : Method → Factor
  | .keyring | .mtls => factorDeviceKey
  | .password | .bearer => factorPassword
  | _ => 0

inductive Reply where
  | denied (e : AuthErr)
  | mint (principal : String) (c : SessClaims)
  | renew (tok : String)
  | revoke (tok : String)
  | methodNotAllowed
deriving DecidableEq, Repr

namespace Middleware

variable (m : Middleware) (r : Request)

def authenticateFor (skipSession : Bool) : Except AuthErr Principal :=
  match hardMethods.findSome? (fun mth =>
      if mth ∉ m.accepted ∨ (skipSession ∧ mth = .session) then none else m.a.tryMethod r mth) with
  | some outcome => outcome
  | none =>
    match if .peercred ∈ m.accepted then m.a.tryPeercred r else none with
    | some p => .ok p
    | none => if .none ∈ m.accepted then .ok anonymous else .error .unauthenticated

def authenticate : Except AuthErr Principal := m.authenticateFor r false

def sessionTokenFromRequest : Option String :=
  ((m.a.sessionTokenFrom r).filter (fun p => !(p.2 && !csrfSafe r))).map Prod.fst

def sessionClaims (p : Principal) : SessClaims where
  tier := if hasPrefix p.name "u_" then tierOwner else tierDataOnly
  scope := scopeFull
  factors := amrForMethod p.method
  rot := 0
  credID := []
  authTime := zeroTime
  notBefore := zeroTime

def serveSession : Reply :=
  match r.method with
  | .post =>
    match m.authenticateFor r true with
    | .error e => .denied e
    | .ok p => if p.isAnonymous then .denied .unauthenticated else .mint p.name (sessionClaims p)
  | .put =>
    match m.sessionTokenFromRequest r with
    | none => .denied .unauthenticated
    | some tok => .renew tok
  | .delete =>
    match m.sessionTokenFromRequest r with
    | none => .denied .unauthenticated
    | some tok => .revoke tok
  | _ => .methodNotAllowed

end Middleware

/-! ## A session token mints nothing -/

/-- A session token is all that the request can have to show: the certificate and the peer, if
any, are not those of a principal, and a bearer token is not a configured one. -/
structure Authenticator.OnlySession (a : Authenticator) (r : Request) : Prop where
  basic : a.basicAuth r = none
  bearer : ∀ tok, bearerToken r = some tok → a.bearer (a.sha256Hex tok) = none
  signature : r.keyringSignature = ""
  cert : ∀ cert, r.peerCert = some cert → a.mtlsCN cert.commonName = none ∧ a.mtlsSPKI cert.spki = none
  peer : ∀ uid, r.peerUID = some uid → a.peercred uid = none

def Authenticator.Unproven (attempt : Authenticator.Attempt) : Prop := ∀ p, attempt ≠ some (.ok p)

namespace Authenticator.OnlySession

variable {a : Authenticator} {r : Request}

theorem mtls (h : a.OnlySession r) : a.tryMTLS r = none := by
  unfold tryMTLS
  split
  · rfl
  · rename_i cert hCert
    obtain ⟨hCN, hSPKI⟩ := h.cert cert hCert
    rw [hCN, hSPKI]
    rfl

theorem tryBearer (h : a.OnlySession r) : Unproven (a.tryBearer r) := by
  intro p hp
  unfold Authenticator.tryBearer at hp
  split at hp
  · cases hp
  · rename_i tok hTok
    rw [h.bearer tok hTok] at hp
    split at hp <;> cases hp

theorem peercred (h : a.OnlySession r) : a.tryPeercred r = none := by
  unfold tryPeercred
  cases hUID : r.peerUID with
  | none => rfl
  | some uid =>
    rw [Option.bind_some, h.peer uid hUID]
    rfl

theorem unproven (h : a.OnlySession r) {mth : Method} (hMethod : mth ≠ .session) : Unproven (a.tryMethod r mth) := by
  intro p hp
  cases mth with
  | mtls => exact absurd (h.mtls.symm.trans hp) (by simp)
  | keyring => exact absurd ((if_pos h.signature).symm.trans hp) (by simp)
  | session => exact absurd rfl hMethod
  | bearer => exact h.tryBearer p hp
  | password =>
    change a.tryPassword r = _ at hp
    rw [tryPassword, h.basic] at hp
    cases hp
  | peercred => cases hp
  | none => cases hp

end Authenticator.OnlySession

/-- The session endpoint mints from other credentials only. -/
theorem Authenticator.OnlySession.post_denied {m : Middleware} {r : Request} (h : m.a.OnlySession r)
    (hPost : r.method = .post) : ∃ e, m.serveSession r = .denied e := by
  have hReply : m.serveSession r = match m.authenticateFor r true with
      | .error e => .denied e
      | .ok p => if p.isAnonymous then .denied .unauthenticated else .mint p.name (Middleware.sessionClaims p) := by
    rw [Middleware.serveSession, hPost]
  rw [hReply]
  cases hAuth : m.authenticateFor r true with
  | error e => exact ⟨e, rfl⟩
  | ok p =>
    have hAnonymous : p = anonymous := by
      rw [Middleware.authenticateFor] at hAuth
      split at hAuth
      · rename_i outcome hFirst
        obtain ⟨mth, -, hTry⟩ := List.exists_of_findSome?_eq_some hFirst
        obtain ⟨hSkip, hTry⟩ := Option.ite_none_left_eq_some.mp hTry
        have hMethod : mth ≠ .session := fun hEq => hSkip (.inr ⟨rfl, hEq⟩)
        exact absurd (hAuth ▸ hTry) (h.unproven hMethod p)
      · rw [h.peercred, ite_self] at hAuth
        dsimp only at hAuth
        split at hAuth
        · cases hAuth
          rfl
        · cases hAuth
    rw [hAnonymous]
    exact ⟨.unauthenticated, rfl⟩

/-! ## Where a name comes from -/

/-- The names that the configuration gives to credentials. -/
inductive Authenticator.Configured (a : Authenticator) : String → Prop
  | bearer {hash name : String} : a.bearer hash = some name → Configured a name
  | password {user hash name : String} : a.password user = some (hash, name) → Configured a name
  | mtlsCN {cn name : String} : a.mtlsCN cn = some name → Configured a name
  | mtlsSPKI {spki name : String} : a.mtlsSPKI spki = some name → Configured a name
  | keyring {canon name : String} : a.keyring canon = some name → Configured a name
  | peercred {uid : UInt32} {name : String} : a.peercred uid = some name → Configured a name

/-- Where the name of a principal comes from, a session token apart. -/
def Authenticator.Knows (a : Authenticator) (name : String) : Prop :=
  a.Configured name ∨ ∃ canon, a.dynKeyring canon = some name

section Names

variable {a : Authenticator} {r : Request} {p : Principal}

theorem Authenticator.tryMTLS_knows (h : a.tryMTLS r = some (.ok p)) : a.Knows p.name := by
  unfold tryMTLS at h
  split at h
  · cases h
  · split at h
    · rename_i name hName
      cases h
      exact .inl (.mtlsCN hName)
    · obtain ⟨name, hName, hEq⟩ := Option.map_eq_some_iff.mp h
      cases hEq
      exact .inl (.mtlsSPKI hName)

theorem Authenticator.tryKeyring_knows (h : a.tryKeyring r = some (.ok p)) : a.Knows p.name := by
  unfold tryKeyring at h
  split at h
  · cases h
  · split at h
    · cases h
    · split at h
      · cases h
      · rename_i canon name hFound
        split at h
        · cases h
          obtain ⟨canon', -, hLookup⟩ := Option.bind_eq_some_iff.mp hFound
          obtain ⟨name', hName, hEq⟩ := Option.map_eq_some_iff.mp hLookup
          cases hEq
          rcases Option.or_eq_some_iff.mp hName with hStatic | ⟨-, hDyn⟩
          · exact .inl (.keyring hStatic)
          · exact .inr ⟨_, hDyn⟩
        · cases h

theorem Authenticator.tryBearer_knows (h : a.tryBearer r = some (.ok p)) : a.Knows p.name := by
  unfold tryBearer at h
  split at h
  · cases h
  · split at h
    · cases h
    · split at h
      · cases h
      · rename_i name hName
        cases h
        exact .inl (.bearer hName)

theorem Authenticator.tryPassword_knows (h : a.tryPassword r = some (.ok p)) : a.Knows p.name := by
  unfold tryPassword at h
  split at h
  · cases h
  · split at h
    · cases h
    · rename_i hash name hKnown
      split at h
      · cases h
        exact .inl (.password hKnown)
      · cases h

theorem Authenticator.tryMethod_knows {mth : Method} (hMethod : mth ≠ .session)
    (h : a.tryMethod r mth = some (.ok p)) : a.Knows p.name := by
  cases mth with
  | mtls => exact tryMTLS_knows h
  | keyring => exact tryKeyring_knows h
  | session => exact absurd rfl hMethod
  | bearer => exact tryBearer_knows h
  | password => exact tryPassword_knows h
  | peercred => cases h
  | none => cases h

theorem Middleware.authenticateFor_knows {m : Middleware} (h : m.authenticateFor r true = .ok p) :
    p.isAnonymous = true ∨ m.a.Knows p.name := by
  unfold authenticateFor at h
  split at h
  · rename_i outcome hFirst
    obtain ⟨mth, -, hTry⟩ := List.exists_of_findSome?_eq_some hFirst
    obtain ⟨hSkip, hTry⟩ := Option.ite_none_left_eq_some.mp hTry
    have hMethod : mth ≠ .session := fun hEq => hSkip (.inr ⟨rfl, hEq⟩)
    exact .inr (Authenticator.tryMethod_knows hMethod (hTry.trans (congrArg some h)))
  · split at h
    · rename_i q hPeer
      cases h
      split at hPeer
      · obtain ⟨uid, -, hKnown⟩ := Option.bind_eq_some_iff.mp hPeer
        obtain ⟨name, hName, hEq⟩ := Option.map_eq_some_iff.mp hKnown
        cases hEq
        exact .inr (.inl (.peercred hName))
      · cases hPeer
    · split at h
      · cases h
        exact .inl rfl
      · cases h

end Names

/-! ## The server's sessions -/

namespace Minter

/-- Calls made to the minter itself, and requests to the session endpoint. `which` tells
the issued token a text stands for; a drawn session id comes with each request. -/
inductive Event where
  | direct (a : Action)
  | session (m : Middleware) (r : Request) (sid : Sid)

def serve (ttl : TTL) (which : String → Option Nat) (s : Minter) : Event → Option Minter
  | .direct a => step ttl s a
  | .session m r sid =>
    match m.serveSession r with
    | .mint principal c => step ttl s (.mint sid principal c)
    | .renew tok =>
      match which tok with
      | none => some s
      | some k => step ttl s (.use .renew k)
    | .revoke tok =>
      match which tok with
      | none => some s
      | some k => step ttl s (.revoke k)
    | .denied _ | .methodNotAllowed => some s

/-- Tokens of one session agree with the token that it was minted with. -/
def Frozen (s : Minter) : Prop :=
  ∀ i ∈ s.issued, ∀ j ∈ s.issued, i.token.sid = j.token.sid →
    i.minted = j.minted ∧ i.time = j.time ∧ i.token.principal = j.minted.principal ∧
      i.token.hardExp = j.minted.hardExp ∧ i.token.claims = j.minted.claims

/-- No token outlives its session, and without renewal there is one token only. -/
def Within (ttl : TTL) (s : Minter) : Prop :=
  ∀ i ∈ s.issued, (∀ now, i.token.admits ttl now .verify = true → now ≤ i.time + ttl.life) ∧
    (ttl.maxTTL = 0 → i.token = i.minted)

variable {ttl : TTL} {s t : Minter}

theorem Chain.frozen (h : Chain ttl s) : s.Frozen := by
  intro i hi j hj hSid
  have hOne := h.one i hi j hj hSid
  have hMinted : i.minted = j.minted := by rw [hOne]
  have hTime : i.time = j.time := by rw [hOne]
  have hSame := (h.bounded i hi).same
  rw [hMinted] at hSame
  refine ⟨hMinted, hTime, ?_, ?_, ?_⟩ <;> rw [hSame]
  rfl

theorem Chain.within (h : Chain ttl s) : s.Within ttl := by
  intro i hi
  have hBounded := h.bounded i hi
  refine ⟨fun now hAdmits => ?_, fun hMax => hBounded.single (hBounded.unlimited hMax)⟩
  exact Int.le_trans (Payload.admits_exp hAdmits) hBounded.exp

theorem serve_chain {which : String → Option Nat} {e : Event} (h : Chain ttl s) (hServe : serve ttl which s e = some t) :
    Chain ttl t := by
  cases e with
  | direct a => exact step_chain h hServe
  | session m r sid =>
    rw [serve] at hServe
    split at hServe
    · exact step_chain h hServe
    · split at hServe
      · cases hServe
        exact h
      · exact step_chain h hServe
    · split at hServe
      · cases hServe
        exact h
      · exact step_chain h hServe
    · cases hServe
      exact h
    · cases hServe
      exact h

/-- The tokens of a session are frozen but for their expiry and end with it, in every run
of the minter and its endpoint, and a session token never mints another. -/
theorem sessions_bounded_and_frozen (ttl : TTL) (which : String → Option Nat) (start : Int) (events : List Event) :
    Always (serve ttl which) (fun s => s.Frozen ∧ s.Within ttl) (init start) events ∧
      ∀ (m : Middleware) (r : Request), m.a.OnlySession r → r.method = .post → ∃ e, m.serveSession r = .denied e := by
  refine ⟨?_, fun m r hOnly hPost => hOnly.post_denied hPost⟩
  have hAlways : Always (serve ttl which) (Chain ttl) (init start) events :=
    always_of_invariant (fun s e t h hServe => serve_chain h hServe) (init_chain ttl start) events
  exact hAlways.mono fun s h => ⟨h.frozen, h.within⟩

def oneBearer : Authenticator where
  bearer := fun h => if h = "secret" then some "ann" else none
  password := fun _ => none
  mtlsCN := fun _ => none
  mtlsSPKI := fun _ => none
  keyring := fun _ => none
  dynKeyring := fun _ => none
  peercred := fun _ => none
  sessions := true
  cookieMode := false
  sha256Hex := fun t => t
  compareHash := fun _ _ => false
  decodeBasic := fun _ => none
  parseKey := fun _ => none
  validChallenge := fun _ => false
  verifySignature := fun _ _ => false
  verify := fun _ => none

def tokenPost (authorization : String) : Request :=
  ⟨.post, [authorization], [], "", [], "", "", none, none⟩

/-- A session token is refused on a listener that accepts everything, by the bearer method. -/
theorem session_token_post_denied :
    ∃ e, (oneBearer.middleware (.none :: .peercred :: hardMethods)).serveSession (tokenPost "Bearer st_x") = .denied e := by
  refine (sessions_bounded_and_frozen ⟨1, 0, by decide, by decide, by decide, .inl rfl⟩ (fun _ => none) 0 []).2 _ _
    ⟨by decide, ?_, rfl, fun _ h => (nomatch h), fun _ h => (nomatch h)⟩ rfl
  intro tok hTok
  have hEq : bearerToken (tokenPost "Bearer st_x") = some "st_x" := by decide
  cases hEq.symm.trans hTok
  decide

end Minter

end QuicSql.Auth
