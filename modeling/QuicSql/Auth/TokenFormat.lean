import QuicSql.Auth.Token
import QuicSql.Auth.Keyring

/-!
# The format of a session token

A token is a header of fixed fields, the principal and a MAC, in unpadded base64url after a
marker. Whatever is issued is read back as it was, so a token stands for its fields.
-/

namespace QuicSql.Auth

open Authz Lib

def tokenVer : UInt8 := 1

def verLen : Nat := 1
def sidLen : Nat := 16
def expLen : Nat := 8
def hardLen : Nat := 8
def atLen : Nat := 8
def nbdLen : Nat := 8
def tierLen : Nat := 1
def scLen : Nat := 1
def facLen : Nat := 2
def rotLen : Nat := 2
def offSid : Nat := verLen
def offExp : Nat := offSid + sidLen
def offHard : Nat := offExp + expLen
def offAT : Nat := offHard + hardLen
def offNBD : Nat := offAT + atLen
def offTier : Nat := offNBD + nbdLen
def offScope : Nat := offTier + tierLen
def offFac : Nat := offScope + scLen
def offRot : Nat := offFac + facLen
def offCred : Nat := offRot + rotLen
def offPrin : Nat := offCred + credLen
def hdrLen : Nat := offPrin

/-- The size of a SHA-256 sum. -/
def macLen : Nat := 32

/-- HMAC-SHA256 under the key of the process, and unpadded base64url. -/
structure SessionMinter where
  sign : Bytes → Bytes
  raw : TextEncoding
  sign_length : ∀ payload, (sign payload).length = macLen

/-- `PutUint64` of the number converted to `uint64`. -/
def putInt64 (n : Int) : Bytes := bigEndian 8 (n % 2 ^ 64).toNat

def putUint16 (n : UInt16) : Bytes := bigEndian 2 n.toNat

def getInt64 (payload : Bytes) (off : Nat) : Int := int64 (ofBigEndian (readAt payload off 8))

def getUint16 (payload : Bytes) (off : Nat) : UInt16 := UInt16.ofNat (ofBigEndian (readAt payload off 2))

/-- What is always written to the header, in this order. -/
def fixedFields (sid : Sid) (exp hardExp : Instant) (c : SessClaims) : List (Nat × Bytes) :=
  [(0, [tokenVer]),
    (offSid, sid),
    (offExp, putInt64 (unixNano exp)),
    (offHard, putInt64 (unixNanoOrZero hardExp)),
    (offAT, putInt64 (unixNanoOrZero c.authTime)),
    (offNBD, putInt64 (unixNanoOrZero c.notBefore)),
    (offTier, [c.tier]),
    (offScope, [c.scope]),
    (offFac, putUint16 c.factors),
    (offRot, putUint16 c.rot)]

def headerFields (sid : Sid) (exp hardExp : Instant) (c : SessClaims) : List (Nat × Bytes) :=
  fixedFields sid exp hardExp c ++ if c.credID.length = credLen then [(offCred, c.credID)] else []

def header (sid : Sid) (exp hardExp : Instant) (c : SessClaims) : Bytes :=
  fill (List.replicate hdrLen 0) (headerFields sid exp hardExp c)

/-- A credential id that is not of the right length is not kept. -/
def keptCredID (credID : Bytes) : Bytes := if credID.length = credLen then credID else List.replicate credLen 0

structure Parsed where
  sid : Sid
  exp : Int
  hardExp : Int
  principal : Bytes
  claims : SessClaims
deriving DecidableEq

def readFields (payload : Bytes) : Parsed where
  sid := readAt payload offSid (offExp - offSid)
  exp := getInt64 payload offExp
  hardExp := getInt64 payload offHard
  principal := payload.drop offPrin
  claims := {
    tier := payload.getD offTier 0
    scope := payload.getD offScope 0
    factors := getUint16 payload offFac
    rot := getUint16 payload offRot
    credID := readAt payload offCred (offPrin - offCred)
    authTime := timeFromNano (getInt64 payload offAT)
    notBefore := timeFromNano (getInt64 payload offNBD) }

namespace SessionMinter

variable (s : SessionMinter)

def issue (sid : Sid) (principal : Bytes) (exp hardExp : Instant) (c : SessClaims) : Bytes × Instant × Instant :=
  let payload := header sid exp hardExp c ++ principal
  (bytesOf sessionPrefix ++ s.raw.encodeToString (payload ++ s.sign payload), exp, hardExp)

def parse (token : Bytes) : Except AuthErr Parsed :=
  if (bytesOf sessionPrefix).isPrefixOf token = false then .error .invalidCredential
  else
    match s.raw.decodeString (token.drop (bytesOf sessionPrefix).length) with
    | none => .error .invalidCredential
    | some raw =>
      if raw.length < hdrLen + 1 + macLen ∨ raw.head? ≠ some tokenVer then .error .invalidCredential
      else
        let payload := raw.take (raw.length - macLen)
        if raw.drop (raw.length - macLen) ≠ s.sign payload then .error .invalidCredential
        else .ok (readFields payload)

end SessionMinter

/-! ## Numbers in a payload -/

section Numbers

variable {payload : Bytes} {off : Nat}

theorem getInt64_of_readAt {n : Int} (h : readAt payload off 8 = putInt64 n) : getInt64 payload off = int64 n := by
  have hFits : (n % 2 ^ 64).toNat < 256 ^ 8 := by omega
  have hCast : ((n % 2 ^ 64).toNat : Int) = n % 2 ^ 64 := Int.toNat_of_nonneg (by omega)
  rw [getInt64, h, putInt64, ofBigEndian_bigEndian hFits, hCast]
  exact_mod_cast Int.emod_bmod n (2 ^ 64)

theorem getUint16_of_readAt {n : UInt16} (h : readAt payload off 2 = putUint16 n) : getUint16 payload off = n := by
  rw [getUint16, h, putUint16, ofBigEndian_bigEndian n.toNat_lt, UInt16.ofNat_toNat]

theorem int64_unixNano (t : Instant) : int64 (unixNano t) = unixNano t :=
  int64_of_range (int64_range t).1 (int64_range t).2

theorem int64_unixNanoOrZero (t : Instant) : int64 (unixNanoOrZero t) = unixNanoOrZero t :=
  int64_of_range (unixNanoOrZero_range t).1 (unixNanoOrZero_range t).2

end Numbers

/-! ## The header -/

section Header

variable {sid : Sid} {exp hardExp : Instant} {c : SessClaims} {principal : Bytes} {off : Nat} {src : Bytes}

theorem fixedFields_layout (hSid : sid.length = sidLen) : Layout offCred (fixedFields sid exp hardExp c) := by
  have hNumbers : ∀ n, (putInt64 n).length = 8 := fun n => length_bigEndian 8 _
  have hSets : ∀ n, (putUint16 n).length = 2 := fun n => length_bigEndian 2 _
  constructor <;>
    simp [fixedFields, hSid, hNumbers, hSets, offSid, offExp, offHard, offAT, offNBD, offTier, offScope, offFac, offRot,
      offCred, verLen, sidLen, expLen, hardLen, atLen, nbdLen, tierLen, scLen, facLen, rotLen]

theorem headerFields_layout (hSid : sid.length = sidLen) : Layout hdrLen (headerFields sid exp hardExp c) := by
  have hFixed : Layout offCred (fixedFields sid exp hardExp c) := fixedFields_layout hSid
  unfold headerFields
  split
  · rename_i hCred
    have hAll := hFixed.snoc (f := (offCred, c.credID)) (Nat.le_refl _)
    rwa [hCred] at hAll
  · rw [List.append_nil]
    exact hFixed.mono (by decide)

theorem layout_buffer (hSid : sid.length = sidLen) :
    Layout (List.replicate hdrLen (0 : UInt8)).length (headerFields sid exp hardExp c) := by
  rw [List.length_replicate]
  exact headerFields_layout hSid

theorem header_length (hSid : sid.length = sidLen) : (header sid exp hardExp c).length = hdrLen := by
  rw [header, length_fill (layout_buffer hSid), List.length_replicate]

theorem readAt_payload (hSid : sid.length = sidLen) (h : (off, src) ∈ headerFields sid exp hardExp c) {n : Nat}
    (hn : n = src.length) : readAt (header sid exp hardExp c ++ principal) off n = src := by
  have hFits : off + src.length ≤ hdrLen := (headerFields_layout hSid).fits _ h
  rw [readAt_append (by rw [header_length hSid]; omega)]
  exact readAt_fill (layout_buffer hSid) h hn

theorem readAt_fixed (hSid : sid.length = sidLen) (h : (off, src) ∈ fixedFields sid exp hardExp c) {n : Nat}
    (hn : n = src.length) : readAt (header sid exp hardExp c ++ principal) off n = src :=
  readAt_payload hSid (List.mem_append_left _ h) hn

theorem readAt_credID (hSid : sid.length = sidLen) :
    readAt (header sid exp hardExp c ++ principal) offCred credLen = keptCredID c.credID := by
  unfold keptCredID
  split
  · rename_i hCred
    apply readAt_payload hSid _ hCred.symm
    rw [headerFields, if_pos hCred]
    exact List.mem_append_right _ (List.mem_singleton_self _)
  · rename_i hCred
    -- nothing is written there, so the buffer's zeros are left
    rw [readAt_append (Nat.le_of_eq (header_length hSid).symm), header, readAt_fill_of_apart (layout_buffer hSid)]
    · decide
    · intro f hf
      rw [headerFields, if_neg hCred, List.append_nil] at hf
      exact .inr ((fixedFields_layout hSid).fits f hf)

end Header

def SessClaims.stored (c : SessClaims) : SessClaims :=
  { c with
    credID := keptCredID c.credID
    authTime := timeFromNano (unixNanoOrZero c.authTime)
    notBefore := timeFromNano (unixNanoOrZero c.notBefore) }

section Lossless

variable {sid : Sid} {exp hardExp : Instant} {c : SessClaims} {principal : Bytes}

theorem readFields_payload (hSid : sid.length = sidLen) :
    readFields (header sid exp hardExp c ++ principal) =
      ⟨sid, unixNano exp, unixNanoOrZero hardExp, principal, c.stored⟩ := by
  have hInt : ∀ off n, (off, putInt64 n) ∈ fixedFields sid exp hardExp c →
      getInt64 (header sid exp hardExp c ++ principal) off = int64 n :=
    fun off n h => getInt64_of_readAt (readAt_fixed hSid h (length_bigEndian 8 _).symm)
  have hUint : ∀ off n, (off, putUint16 n) ∈ fixedFields sid exp hardExp c →
      getUint16 (header sid exp hardExp c ++ principal) off = n :=
    fun off n h => getUint16_of_readAt (readAt_fixed hSid h (length_bigEndian 2 _).symm)
  have hByte : ∀ off b, (off, [b]) ∈ fixedFields sid exp hardExp c →
      (header sid exp hardExp c ++ principal).getD off 0 = b := by
    intro off b h
    rw [List.getD_eq_getElem?_getD, getElem?_of_readAt (readAt_fixed hSid h rfl)]
    rfl
  have hPrincipal : (header sid exp hardExp c ++ principal).drop offPrin = principal :=
    List.drop_left' (header_length hSid)
  have hId : readAt (header sid exp hardExp c ++ principal) offSid (offExp - offSid) = sid :=
    readAt_fixed hSid (by simp [fixedFields]) hSid.symm
  have hExp := hInt offExp (unixNano exp) (by simp [fixedFields])
  have hHard := hInt offHard (unixNanoOrZero hardExp) (by simp [fixedFields])
  have hAuth := hInt offAT (unixNanoOrZero c.authTime) (by simp [fixedFields])
  have hHold := hInt offNBD (unixNanoOrZero c.notBefore) (by simp [fixedFields])
  have hTier := hByte offTier c.tier (by simp [fixedFields])
  have hScope := hByte offScope c.scope (by simp [fixedFields])
  have hFactors := hUint offFac c.factors (by simp [fixedFields])
  have hRot := hUint offRot c.rot (by simp [fixedFields])
  have hCred : readAt (header sid exp hardExp c ++ principal) offCred (offPrin - offCred) = c.stored.credID :=
    readAt_credID hSid
  rw [readFields, hPrincipal, hId, hExp, hHard, hAuth, hHold, hTier, hScope, hFactors, hRot, hCred, int64_unixNano,
    int64_unixNanoOrZero, int64_unixNanoOrZero, int64_unixNanoOrZero]
  rfl

theorem head?_payload (hSid : sid.length = sidLen) (rest : Bytes) :
    (header sid exp hardExp c ++ principal ++ rest).head? = some tokenVer := by
  have hFirst : (header sid exp hardExp c ++ (principal ++ rest))[0]? = some tokenVer :=
    getElem?_of_readAt (readAt_fixed hSid (by simp [fixedFields]) rfl)
  rw [List.head?_eq_getElem?, List.append_assoc, hFirst]

namespace SessionMinter

variable (s : SessionMinter)

theorem parse_issue (hSid : sid.length = sidLen) (hPrincipal : principal ≠ []) :
    s.parse (s.issue sid principal exp hardExp c).1 =
      .ok ⟨sid, unixNano exp, unixNanoOrZero hardExp, principal, c.stored⟩ := by
  have hMarker : ∀ text : Bytes, (bytesOf sessionPrefix).isPrefixOf (bytesOf sessionPrefix ++ text) = true :=
    fun text => List.isPrefixOf_iff_prefix.mpr (List.prefix_append _ text)
  have hPrincipal := List.length_pos_iff.mpr hPrincipal
  unfold parse issue
  dsimp only
  rw [hMarker, if_neg (by simp), List.drop_left, s.raw.decode_encode, ← readFields_payload hSid]
  dsimp only
  have hPayload : (header sid exp hardExp c ++ principal).length = hdrLen + principal.length := by
    rw [List.length_append, header_length hSid]
  have hHead : ∀ rest, (header sid exp hardExp c ++ principal ++ rest).head? = some tokenVer := head?_payload hSid
  generalize header sid exp hardExp c ++ principal = payload at hPayload hHead ⊢
  have hRaw : (payload ++ s.sign payload).length - macLen = payload.length := by
    rw [List.length_append, s.sign_length, Nat.add_sub_cancel]
  rw [hRaw, List.take_left, List.drop_left, if_neg, if_neg (by simp)]
  rw [hHead, List.length_append, s.sign_length, hPayload]
  rintro (hShort | hVersion)
  · omega
  · exact hVersion rfl

theorem parse_issue_string {name : String} (hSid : sid.length = sidLen) (hName : name ≠ "") :
    s.parse (s.issue sid (bytesOf name) exp hardExp c).1 =
      .ok ⟨sid, (Auth.issue sid name exp hardExp c).exp, (Auth.issue sid name exp hardExp c).hardExp, bytesOf name,
        (Auth.issue sid name exp hardExp c).claims⟩ :=
  s.parse_issue hSid (fun hNil => hName (bytesOf_eq_nil_iff.mp hNil))

end SessionMinter

/-- An instant that was set, at a count of nanoseconds that fits and is not zero. -/
structure IsSet (t : Instant) : Prop where
  nonzero : t ≠ 0
  low : -2 ^ 63 ≤ t
  high : t < 2 ^ 63

def Storable (t : Instant) : Prop := t = zeroTime ∨ IsSet t

theorem IsSet.ne_zeroTime {t : Instant} (h : IsSet t) : t ≠ zeroTime := by
  rintro rfl
  exact absurd h.low (by decide)

theorem unixNanoOrZero_of_storable {t : Instant} (h : Storable t) :
    unixNanoOrZero t = if t = zeroTime then 0 else t := by
  unfold unixNanoOrZero
  rcases h with hUnset | hSet
  · rw [if_pos hUnset, if_pos hUnset]
  · rw [if_neg hSet.ne_zeroTime, if_neg hSet.ne_zeroTime]
    exact int64_of_range hSet.low hSet.high

theorem timeFromNano_of_storable {t : Instant} (h : Storable t) : timeFromNano (unixNanoOrZero t) = t := by
  rw [unixNanoOrZero_of_storable h, timeFromNano]
  rcases h with hUnset | hSet
  · rw [if_pos hUnset, if_pos rfl, hUnset]
  · rw [if_neg hSet.ne_zeroTime, if_neg hSet.nonzero]

/-- What a token can be issued for. -/
structure Issuable (sid : Sid) (principal : Bytes) (exp hardExp : Instant) (c : SessClaims) : Prop where
  sid : sid.length = sidLen
  principal : principal ≠ []
  exp : IsSet exp
  hardExp : Storable hardExp
  authTime : Storable c.authTime
  notBefore : Storable c.notBefore

/-- The fields of the token, with zero for an expiry that was not set. -/
def tokenFields (sid : Sid) (principal : Bytes) (exp hardExp : Instant) (c : SessClaims) : Parsed :=
  ⟨sid, exp, if hardExp = zeroTime then 0 else hardExp, principal, { c with credID := keptCredID c.credID }⟩

theorem Issuable.parse_issue (h : Issuable sid principal exp hardExp c) (s : SessionMinter) :
    s.parse (s.issue sid principal exp hardExp c).1 = .ok (tokenFields sid principal exp hardExp c) := by
  have hExp : unixNano exp = exp := int64_of_range h.exp.low h.exp.high
  have hClaims : c.stored = { c with credID := keptCredID c.credID } := by
    rw [SessClaims.stored, timeFromNano_of_storable h.authTime, timeFromNano_of_storable h.notBefore]
  rw [s.parse_issue h.sid h.principal, hExp, unixNanoOrZero_of_storable h.hardExp, hClaims]
  rfl

/-- The zero of an expiry that was not set is told apart from one that was. -/
theorem hardExp_of_stored {t t' : Instant} (h : Storable t) (h' : Storable t')
    (hEq : (if t = zeroTime then 0 else t) = if t' = zeroTime then 0 else t') : t = t' := by
  rw [← timeFromNano_of_storable h, ← timeFromNano_of_storable h', unixNanoOrZero_of_storable h,
    unixNanoOrZero_of_storable h', hEq]

theorem token_format_lossless (s : SessionMinter) :
    (∀ sid principal exp hardExp c, Issuable sid principal exp hardExp c →
      s.parse (s.issue sid principal exp hardExp c).1 = .ok (tokenFields sid principal exp hardExp c)) ∧
    (∀ sid principal exp hardExp c sid' principal' exp' hardExp' c',
      Issuable sid principal exp hardExp c → Issuable sid' principal' exp' hardExp' c' →
      (s.issue sid principal exp hardExp c).1 = (s.issue sid' principal' exp' hardExp' c').1 →
      sid = sid' ∧ principal = principal' ∧ exp = exp' ∧ hardExp = hardExp' ∧
        { c with credID := keptCredID c.credID } = { c' with credID := keptCredID c'.credID }) := by
  constructor
  · intro sid principal exp hardExp c h
    exact h.parse_issue s
  · intro sid principal exp hardExp c sid' principal' exp' hardExp' c' h h' hToken
    have hFields : tokenFields sid principal exp hardExp c = tokenFields sid' principal' exp' hardExp' c' := by
      have hParsed := h.parse_issue s
      rw [hToken, h'.parse_issue s] at hParsed
      exact (Except.ok.inj hParsed).symm
    simp only [tokenFields, Parsed.mk.injEq] at hFields
    obtain ⟨hSid, hExp, hHard, hPrincipal, hClaims⟩ := hFields
    exact ⟨hSid, hPrincipal, hExp, hardExp_of_stored h.hardExp h'.hardExp hHard, hClaims⟩

/-- Nothing is encoded, and the MAC is constant. -/
def plainMinter : SessionMinter where
  sign _ := List.replicate macLen 0
  raw := plainEncoding
  sign_length _ := List.length_replicate

def shortCredClaims : SessClaims := ⟨tierOwner, scopeReduced, 0xff01, 0x0102, [1, 2, 3], -1, zeroTime⟩

theorem shortCred_issuable (credID : Bytes) :
    Issuable (List.replicate sidLen 9) [0xc3] (-2 ^ 63) zeroTime { shortCredClaims with credID := credID } where
  sid := List.length_replicate
  principal := by decide
  exp := ⟨by decide, by decide, by decide⟩
  hardExp := .inl rfl
  authTime := .inr (show IsSet (-1) from ⟨by decide, by decide, by decide⟩)
  notBefore := .inl rfl

theorem shortCred_token_parsed :
    plainMinter.parse (plainMinter.issue (List.replicate sidLen 9) [0xc3] (-2 ^ 63) zeroTime shortCredClaims).1 =
      .ok ⟨List.replicate sidLen 9, -2 ^ 63, 0, [0xc3], { shortCredClaims with credID := List.replicate credLen 0 }⟩ ∧
    keptCredID shortCredClaims.credID = keptCredID [] := by
  obtain ⟨hParsed, hAgree⟩ := token_format_lossless plainMinter
  refine ⟨hParsed _ _ _ _ _ (shortCred_issuable [1, 2, 3]), ?_⟩
  have hClaims := (hAgree _ _ _ _ _ _ _ _ _ _ (shortCred_issuable [1, 2, 3]) (shortCred_issuable []) (by decide)).2.2.2.2
  exact congrArg SessClaims.credID hClaims

end Lossless

end QuicSql.Auth
