import QuicSql.Lib.Bytes
import QuicSql.Auth.Middleware

/-!
# Keyring signatures

A client with an ed25519 key signs the challenge of the server together with the method, the
path and the raw query of its request. The four are joined by newlines, and only the path may
have newlines of its own. ed25519 is assumed to be unforgeable.
-/

namespace QuicSql.Auth

open Authz Lib

abbrev Bytes := List UInt8

/-- UTF-8. -/
def bytesOf (s : String) : Bytes := s.toUTF8.data.toList

theorem bytesOf_eq_nil_iff {s : String} : bytesOf s = [] ↔ s = "" := by
  have hSize : (bytesOf s).length = s.utf8ByteSize := rfl
  rw [← List.length_eq_zero_iff, hSize, String.utf8ByteSize_eq_zero_iff]

def newline : UInt8 := 0x0a

def keyringSigningInput (challenge method path rawQuery : Bytes) : Bytes :=
  challenge ++ [newline] ++ method ++ [newline] ++ path ++ [newline] ++ rawQuery

structure Target where
  challenge : Bytes
  method : Bytes
  path : Bytes
  rawQuery : Bytes
deriving DecidableEq, Repr

namespace Target

def signingInput (t : Target) : Bytes := keyringSigningInput t.challenge t.method t.path t.rawQuery

structure OneLine (t : Target) : Prop where
  challenge : newline ∉ t.challenge
  method : newline ∉ t.method
  rawQuery : newline ∉ t.rawQuery

/-- The challenge and the method end at the first two newlines, the query starts after the last one. -/
theorem eq_of_signingInput {t t' : Target} (h : t.OneLine) (h' : t'.OneLine) (hEq : t.signingInput = t'.signingInput) :
    t = t' := by
  obtain ⟨challenge, method, path, rawQuery⟩ := t
  obtain ⟨challenge', method', path', rawQuery'⟩ := t'
  simp only [signingInput, keyringSigningInput, List.append_assoc, List.cons_append, List.nil_append] at hEq
  obtain ⟨rfl, hRest⟩ := eq_of_append_sep h.challenge h'.challenge hEq
  obtain ⟨rfl, hTail⟩ := eq_of_append_sep h.method h'.method hRest
  obtain ⟨rfl, rfl⟩ := eq_of_sep_append h.rawQuery h'.rawQuery hTail
  rfl

end Target

structure Ed25519 where
  Private : Type
  Public : Type
  sign : Private → Bytes → Bytes
  verifyState : List Public → Bytes → Bytes → Bool

/-- `Made` tells which signatures the holder of a key has made on which bytes. Only these are accepted. -/
def Ed25519.Unforgeable (ed : Ed25519) (Made : ed.Public → Bytes → Bytes → Prop) : Prop :=
  ∀ keys msg sig, ed.verifyState keys msg sig = true → ∃ pub ∈ keys, Made pub msg sig

/-- What this private key signs is made on the bytes it signed and on no others. -/
def Ed25519.SignsOnce (ed : Ed25519) (Made : ed.Public → Bytes → Bytes → Prop) (priv : ed.Private) : Prop :=
  ∀ holder msg signed, Made holder msg (ed.sign priv signed) → msg = signed

/-- One of the forms of base64. -/
structure TextEncoding where
  encodeToString : Bytes → Bytes
  decodeString : Bytes → Option Bytes
  decode_encode : ∀ b, decodeString (encodeToString b) = some b

/-- An absent header is empty. -/
structure HttpRequest where
  method : Bytes
  path : Bytes
  rawQuery : Bytes
  authorization : Bytes
  keyringSignature : Bytes
  keyringKey : Bytes
  keyringChallenge : Bytes

def HttpRequest.target (r : HttpRequest) : Target := ⟨r.keyringChallenge, r.method, r.path, r.rawQuery⟩

variable {ed : Ed25519} (std : TextEncoding)

section Server

structure KeyringCred (ed : Ed25519) where
  name : String
  pub : ed.Public

/-- The keys of the configuration and the enrolled ones, by canonical form. -/
structure Roster (ed : Ed25519) where
  validChallenge : Bytes → Bool
  parseEd25519AuthorizedKey : Bytes → Option (String × ed.Public)
  keyring : String → Option (KeyringCred ed)
  dynKeyring : String → Option (KeyringCred ed)

namespace Roster

variable (a : Roster ed) (r : HttpRequest)

def lookupKeyring (canon : String) : Option (KeyringCred ed) := (a.keyring canon).or (a.dynKeyring canon)

def tryKeyring : Authenticator.Attempt :=
  if r.keyringSignature = [] then none
  else if r.keyringKey = [] ∨ r.keyringChallenge = [] ∨ a.validChallenge r.keyringChallenge = false then
    some (.error .invalidCredential)
  else
    match a.parseEd25519AuthorizedKey r.keyringKey with
    | none => some (.error .invalidCredential)
    | some (canon, _) =>
      match a.lookupKeyring canon with
      | none => some (.error .invalidCredential)
      | some cred =>
        match std.decodeString r.keyringSignature with
        | none => some (.error .invalidCredential)
        | some sig =>
          if ed.verifyState [cred.pub] (keyringSigningInput r.keyringChallenge r.method r.path r.rawQuery) sig then
            some (.ok ⟨cred.name, .keyring, none⟩)
          else some (.error .invalidCredential)

/-- The key is the presented one, on the roster or not. -/
def verifyPresented : Except AuthErr (String × ed.Public) :=
  if r.keyringSignature = [] ∨ r.keyringKey = [] ∨ r.keyringChallenge = [] ∨
      a.validChallenge r.keyringChallenge = false then
    .error .invalidCredential
  else
    match a.parseEd25519AuthorizedKey r.keyringKey with
    | none => .error .invalidCredential
    | some (canon, pub) =>
      match std.decodeString r.keyringSignature with
      | none => .error .invalidCredential
      | some sig =>
        if ed.verifyState [pub] (keyringSigningInput r.keyringChallenge r.method r.path r.rawQuery) sig then
          .ok (canon, pub)
        else .error .invalidCredential

def Verifies (pub : ed.Public) (sig : Bytes) : Prop :=
  std.decodeString r.keyringSignature = some sig ∧ ed.verifyState [pub] r.target.signingInput sig = true

variable {std a r}

theorem tryKeyring_ok {p : Principal} (h : a.tryKeyring std r = some (.ok p)) :
    ∃ canon presented cred sig, a.parseEd25519AuthorizedKey r.keyringKey = some (canon, presented) ∧
      a.lookupKeyring canon = some cred ∧ p = ⟨cred.name, .keyring, none⟩ ∧ Verifies std r cred.pub sig := by
  unfold tryKeyring at h
  split at h
  · cases h
  split at h
  · cases h
  split at h
  · cases h
  rename_i canon presented hParse
  split at h
  · cases h
  rename_i cred hLookup
  split at h
  · cases h
  rename_i sig hDecode
  split at h
  · rename_i hVerify
    exact ⟨canon, presented, cred, sig, hParse, hLookup, (Except.ok.inj (Option.some.inj h)).symm, hDecode, hVerify⟩
  · cases h

theorem verifyPresented_ok {key : String × ed.Public} (h : a.verifyPresented std r = .ok key) :
    ∃ sig, a.parseEd25519AuthorizedKey r.keyringKey = some key ∧ Verifies std r key.2 sig := by
  unfold verifyPresented at h
  split at h
  · cases h
  split at h
  · cases h
  rename_i canon pub hParse
  split at h
  · cases h
  rename_i sig hDecode
  split at h
  · rename_i hVerify
    cases h
    exact ⟨sig, hParse, hDecode, hVerify⟩
  · cases h

section Chain

variable (std a) (base : Authenticator) (method path rawQuery : Bytes) (r : Request)

def requestOf : HttpRequest where
  method := method
  path := path
  rawQuery := rawQuery
  authorization := bytesOf r.authorization
  keyringSignature := bytesOf r.keyringSignature
  keyringKey := bytesOf r.keyringKey
  keyringChallenge := bytesOf r.keyringChallenge

/-- The chain with these keys, at requests for this method, path and query. -/
def authenticator : Authenticator :=
  { base with
    keyring := fun canon => (a.keyring canon).map KeyringCred.name
    dynKeyring := fun canon => (a.dynKeyring canon).map KeyringCred.name
    parseKey := fun line => (a.parseEd25519AuthorizedKey (bytesOf line)).map Prod.fst
    validChallenge := fun chal => a.validChallenge (bytesOf chal)
    verifySignature := fun canon r =>
      match a.lookupKeyring canon, std.decodeString (bytesOf r.keyringSignature) with
      | some cred, some sig =>
        ed.verifyState [cred.pub] (keyringSigningInput (bytesOf r.keyringChallenge) method path rawQuery) sig
      | _, _ => false }

theorem lookupKeyring_authenticator (canon : String) :
    (a.authenticator std base method path rawQuery).lookupKeyring canon = (a.lookupKeyring canon).map KeyringCred.name := by
  change ((a.keyring canon).map _).or ((a.dynKeyring canon).map _) = _
  unfold lookupKeyring
  cases a.keyring canon <;> rfl

theorem tryKeyring_authenticator :
    (a.authenticator std base method path rawQuery).tryKeyring r = a.tryKeyring std (requestOf method path rawQuery r) := by
  unfold Authenticator.tryKeyring tryKeyring
  simp only [lookupKeyring_authenticator, requestOf, bytesOf_eq_nil_iff]
  by_cases hPresent : r.keyringSignature = ""
  · rw [if_pos hPresent, if_pos hPresent]
  rw [if_neg hPresent, if_neg hPresent]
  by_cases hRefused : r.keyringKey = "" ∨ r.keyringChallenge = "" ∨ a.validChallenge (bytesOf r.keyringChallenge) = false
  · exact (if_pos hRefused).trans (if_pos hRefused).symm
  refine (if_neg hRefused).trans (Eq.trans ?_ (if_neg hRefused).symm)
  have hParse : (a.authenticator std base method path rawQuery).parseKey r.keyringKey =
      (a.parseEd25519AuthorizedKey (bytesOf r.keyringKey)).map Prod.fst := rfl
  rw [hParse]
  cases a.parseEd25519AuthorizedKey (bytesOf r.keyringKey) with
  | none => rfl
  | some key =>
    obtain ⟨canon, presented⟩ := key
    cases hLookup : a.lookupKeyring canon with
    | none => simp [hLookup]
    | some cred =>
      cases hDecode : std.decodeString (bytesOf r.keyringSignature) with
      | none => simp [hLookup, authenticator, hDecode]
      | some sig =>
        have hVerify : (a.authenticator std base method path rawQuery).verifySignature canon r =
            ed.verifyState [cred.pub] (keyringSigningInput (bytesOf r.keyringChallenge) method path rawQuery) sig := by
          simp only [authenticator, hLookup, hDecode]
        simp only [Option.map_some, Option.bind_some, hLookup, hVerify]
        congr

end Chain

end Roster

end Server

section Client

structure KeyringClient (ed : Ed25519) where
  edPriv : Option ed.Private
  edPubLine : Bytes
  user : Bytes
  pw : Bytes
  token : Bytes

/-- One credential is attached. The challenge is fetched, or cached from an earlier call. -/
def KeyringClient.authenticate {ε : Type} (c : KeyringClient ed) (challenge : Except ε Bytes) (req : HttpRequest) :
    Except ε HttpRequest :=
  match c.edPriv with
  | some priv =>
    match challenge with
    | .error e => .error e
    | .ok chal =>
      .ok { req with
        keyringKey := c.edPubLine
        keyringChallenge := chal
        keyringSignature :=
          std.encodeToString (ed.sign priv (keyringSigningInput chal req.method req.path req.rawQuery)) }
  | none =>
    if c.user ≠ [] then
      .ok { req with
        authorization := bytesOf "Basic " ++ std.encodeToString (c.user ++ bytesOf ":" ++ c.pw) }
    else if c.token ≠ [] then .ok { req with authorization := bytesOf "Bearer " ++ c.token }
    else .ok req

variable {std}

theorem KeyringClient.authenticate_ok {ε : Type} {c : KeyringClient ed} {priv : ed.Private}
    {challenge : Except ε Bytes} {req sent : HttpRequest} (hKey : c.edPriv = some priv)
    (h : c.authenticate std challenge req = .ok sent) :
    challenge = .ok sent.keyringChallenge ∧ sent.method = req.method ∧ sent.path = req.path ∧
      sent.rawQuery = req.rawQuery ∧
      std.decodeString sent.keyringSignature = some (ed.sign priv sent.target.signingInput) := by
  unfold authenticate at h
  rw [hKey] at h
  cases challenge with
  | error e => cases h
  | ok chal =>
    cases h
    exact ⟨rfl, rfl, rfl, rfl, std.decode_encode _⟩

end Client

section Binding

variable {Made : ed.Public → Bytes → Bytes → Prop}

variable {std}

theorem Roster.Verifies.made {r : HttpRequest} {pub : ed.Public} {sig : Bytes} (hU : ed.Unforgeable Made)
    (h : Roster.Verifies std r pub sig) : Made pub r.target.signingInput sig := by
  obtain ⟨holder, hHolder, hMade⟩ := hU _ _ _ h.2
  rw [List.mem_singleton] at hHolder
  exact hHolder ▸ hMade

variable (std)

theorem keyring_authorizes_one_target (ε : Type) (a : Roster ed) (hU : ed.Unforgeable Made) :
    (∀ t t' : Target, t.OneLine → t'.OneLine → t.signingInput = t'.signingInput → t = t') ∧
    (∀ r p, a.tryKeyring std r = some (.ok p) →
      ∃ canon presented cred sig, a.parseEd25519AuthorizedKey r.keyringKey = some (canon, presented) ∧
        a.lookupKeyring canon = some cred ∧ p = ⟨cred.name, .keyring, none⟩ ∧
        std.decodeString r.keyringSignature = some sig ∧ Made cred.pub r.target.signingInput sig) ∧
    (∀ r key, a.verifyPresented std r = .ok key →
      ∃ sig, std.decodeString r.keyringSignature = some sig ∧ Made key.2 r.target.signingInput sig) ∧
    (∀ (c : KeyringClient ed) priv (challenge : Except ε Bytes) req sent r, c.edPriv = some priv →
      ed.SignsOnce Made priv → c.authenticate std challenge req = .ok sent →
      sent.target.OneLine → r.target.OneLine →
      std.decodeString r.keyringSignature = std.decodeString sent.keyringSignature → r.target ≠ sent.target →
      (∀ p, a.tryKeyring std r ≠ some (.ok p)) ∧ ∀ key, a.verifyPresented std r ≠ .ok key) := by
  refine ⟨fun t t' => Target.eq_of_signingInput, ?_, ?_, ?_⟩
  · intro r p h
    obtain ⟨canon, presented, cred, sig, hParse, hLookup, hp, hVerifies⟩ := Roster.tryKeyring_ok h
    exact ⟨canon, presented, cred, sig, hParse, hLookup, hp, hVerifies.1, hVerifies.made hU⟩
  · intro r key h
    obtain ⟨sig, -, hVerifies⟩ := Roster.verifyPresented_ok h
    exact ⟨sig, hVerifies.1, hVerifies.made hU⟩
  · intro c priv challenge req sent r hKey hOnce hSent hSentLine hLine hSame hOther
    obtain ⟨-, -, -, -, hDecode⟩ := KeyringClient.authenticate_ok hKey hSent
    -- whoever's key it is verified under, the signature was made for the target that was sent
    have hNever : ∀ (holder : ed.Public) sig, ¬ Roster.Verifies std r holder sig := by
      intro holder sig hVerifies
      have hSig : ed.sign priv sent.target.signingInput = sig := by
        rw [← Option.some_inj, ← hDecode, ← hSame, hVerifies.1]
      have hMade := hVerifies.made hU
      rw [← hSig] at hMade
      exact hOther (Target.eq_of_signingInput hLine hSentLine (hOnce _ _ _ hMade))
    constructor
    · intro p h
      obtain ⟨-, -, cred, sig, -, -, -, hVerifies⟩ := Roster.tryKeyring_ok h
      exact hNever cred.pub sig hVerifies
    · intro key h
      obtain ⟨sig, -, hVerifies⟩ := Roster.verifyPresented_ok h
      exact hNever key.2 sig hVerifies

/-- Signatures that show their key and message, for runs on given inputs. -/
def plainEd25519 : Ed25519 where
  Private := UInt8
  Public := UInt8
  sign (key : UInt8) msg := key :: msg
  verifyState (keys : List UInt8) msg sig := keys.any (fun key => sig = key :: msg)

theorem plainEd25519_unforgeable : plainEd25519.Unforgeable (fun (key : UInt8) msg sig => sig = key :: msg) := by
  intro keys msg sig h
  obtain ⟨key, hKey, hSig⟩ := List.any_eq_true.mp h
  exact ⟨key, hKey, of_decide_eq_true hSig⟩

def plainEncoding : TextEncoding := ⟨id, some, fun _ => rfl⟩

def oneKey : Roster plainEd25519 where
  validChallenge _ := true
  parseEd25519AuthorizedKey line := line.head?.map (fun key => ("ssh-ed25519", key))
  keyring _ := none
  dynKeyring _ := some ⟨"alice", (7 : UInt8)⟩

def oneKeyClient : KeyringClient plainEd25519 := ⟨some (7 : UInt8), [7], [], [], []⟩

/-- A path with a newline; the four are `c`, `GET`, `/a␤b` and `id=1`. -/
def newlineRequest : HttpRequest := ⟨bytesOf "GET", bytesOf "/a\nb", bytesOf "id=1", [], [], [], []⟩

def newlineSent : HttpRequest :=
  { newlineRequest with
    keyringSignature := 7 :: keyringSigningInput (bytesOf "c") (bytesOf "GET") (bytesOf "/a\nb") (bytesOf "id=1")
    keyringKey := [7]
    keyringChallenge := bytesOf "c" }

/-- The same signature on a shorter path, whose end became the query. -/
def newlineReplay : HttpRequest := { newlineSent with path := bytesOf "/a", rawQuery := bytesOf "b" }

theorem newlineSent_accepted_only_there :
    oneKey.tryKeyring plainEncoding newlineSent = some (.ok ⟨"alice", .keyring, none⟩) ∧
      plainEncoding.decodeString newlineSent.keyringSignature = some (7 :: newlineSent.target.signingInput) ∧
      (∀ p, oneKey.tryKeyring plainEncoding newlineReplay ≠ some (.ok p)) := by
  obtain ⟨-, -, hPresented, hReplay⟩ :=
    keyring_authorizes_one_target plainEncoding Unit oneKey plainEd25519_unforgeable
  refine ⟨by decide +kernel, ?_, ?_⟩
  · obtain ⟨sig, hSig, rfl⟩ := hPresented newlineSent ("ssh-ed25519", (7 : UInt8)) (by rfl)
    exact hSig
  · exact (hReplay oneKeyClient (7 : UInt8) (.ok (bytesOf "c")) newlineRequest newlineSent newlineReplay rfl
      (fun _ _ _ h => (List.cons.inj h).2.symm) rfl ⟨by decide +kernel, by decide +kernel, by decide +kernel⟩
      ⟨by decide +kernel, by decide +kernel, by decide +kernel⟩ rfl (by decide +kernel)).1

end Binding

end QuicSql.Auth
