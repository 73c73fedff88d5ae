import QuicSql.Lib.Pool
import QuicSql.Lib.Transition
import QuicSql.Auth.TokenFormat

/-!
# Challenges and their reuse

A challenge carries its own expiry and a MAC under a key of the server process, so the server
keeps no state between the challenge and the signed request. The client keeps the last challenge
it fetched and signs with it for a while. Its calls run concurrently: two of them may fetch at
once, and the slower one overwrites what the other stored. The server may restart at any time.
-/

namespace QuicSql.Auth.Challenges

open Authz Lib

/-! ## The server's challenges -/

def challengeTTL : Int := 60000000000

def nonceLen : Nat := 16

def challengeLen : Nat := nonceLen + 8 + macLen

abbrev Nonce := { b : Bytes // b.length = nonceLen }

/-- HMAC-SHA256 under the key that a process draws, and unpadded base64url. -/
structure Challenger where
  Key : Type
  mac : Key → Bytes → Bytes
  raw : TextEncoding
  mac_length : ∀ key payload, (mac key payload).length = macLen
  encode_ne : ∀ b, b ≠ [] → raw.encodeToString b ≠ []

namespace Challenger

variable (c : Challenger)

def mint (key : c.Key) (nonce : Nonce) (now : Int) : Bytes :=
  let buf := nonce.val ++ putInt64 (unixNano (now + challengeTTL))
  c.raw.encodeToString (buf ++ c.mac key buf)

def valid (key : c.Key) (now : Int) (s : Bytes) : Bool :=
  match c.raw.decodeString s with
  | none => false
  | some tok =>
    if tok.length ≠ challengeLen then false
    else
      let payload := tok.take (nonceLen + 8)
      if tok.drop (nonceLen + 8) ≠ c.mac key payload then false
      else decide (unixNano now ≤ getInt64 payload nonceLen)

/-- The clock is within what nanoseconds in 64 bits can tell, with room for an expiry. -/
def InRange (now : Int) : Prop := -2 ^ 63 ≤ now ∧ now + challengeTTL < 2 ^ 63

theorem unixNano_of_inRange {now : Int} (h : InRange now) :
    unixNano now = now ∧ unixNano (now + challengeTTL) = now + challengeTTL := by
  obtain ⟨hLow, hHigh⟩ := h
  unfold challengeTTL at hHigh ⊢
  exact ⟨int64_of_range hLow (by omega), int64_of_range (by omega) hHigh⟩

/-- No payload of a challenge has the same MAC under both keys. -/
def Apart (key key' : c.Key) : Prop := ∀ payload, payload.length = nonceLen + 8 → c.mac key payload ≠ c.mac key' payload

variable {c}

/-- A challenge is accepted by the process that made it, until it expires, and by another one
only if the keys agree on it. -/
theorem valid_mint_iff {key key' : c.Key} {nonce : Nonce} {minted now : Int} (hMinted : InRange minted)
    (hNow : InRange now) (hKeys : key' = key ∨ c.Apart key key') :
    c.valid key' now (c.mint key nonce minted) = true ↔ key' = key ∧ now ≤ minted + challengeTTL := by
  obtain ⟨nonce, hNonce⟩ := nonce
  have hLength : (nonce ++ putInt64 (unixNano (minted + challengeTTL))).length = nonceLen + 8 := by
    rw [List.length_append, hNonce, putInt64, length_bigEndian]
  have hExp : getInt64 (nonce ++ putInt64 (unixNano (minted + challengeTTL))) nonceLen = minted + challengeTTL := by
    have hRead : readAt (nonce ++ putInt64 (unixNano (minted + challengeTTL))) nonceLen 8 =
        putInt64 (unixNano (minted + challengeTTL)) := by
      rw [readAt, List.drop_left' hNonce, List.take_of_length_le]
      rw [putInt64, length_bigEndian]
    rw [getInt64_of_readAt hRead, int64_unixNano, (unixNano_of_inRange hMinted).2]
  have hToken : ((nonce ++ putInt64 (unixNano (minted + challengeTTL))) ++
      c.mac key (nonce ++ putInt64 (unixNano (minted + challengeTTL)))).length = challengeLen := by
    rw [List.length_append, hLength, c.mac_length]
    rfl
  unfold valid mint
  simp only [c.raw.decode_encode]
  rw [if_neg (not_not_intro hToken), List.take_left' hLength, List.drop_left' hLength, hExp, (unixNano_of_inRange hNow).1]
  rcases hKeys with rfl | hDiffer
  · simp
  · have hNe : key' ≠ key := by
      rintro rfl
      exact hDiffer _ hLength rfl
    simp [hDiffer _ hLength, hNe]

theorem mint_ne (key : c.Key) (nonce : Nonce) (now : Int) : c.mint key nonce now ≠ [] := by
  refine c.encode_ne _ fun hNil => ?_
  have hLength := congrArg List.length hNil
  rw [List.length_append, List.length_append, nonce.property] at hLength
  simp [nonceLen] at hLength

end Challenger

/-! ## The client and the server -/

def challengeReuseWindow : Int := 45000000000

/-- Where a challenge comes from; the string alone does not tell its user. -/
structure Origin (K : Type) where
  key : K
  mintedAt : Int

/-- A challenge on its way to a request: when it was stored and when it was taken to sign. -/
structure Trip (K : Type) where
  origin : Origin K
  storedAt : Int
  takenAt : Int

structure Answer (K : Type) where
  result : Authenticator.Attempt
  trip : Trip K
  arrivedAt : Int
  key : K
  restartedAt : Int

inductive Call (K : Type) where
  | challenge (req : HttpRequest)
  | fetch (req : HttpRequest)
  | fetched (req : HttpRequest) (chal : Bytes) (origin : Origin K)
  | sent (req : HttpRequest) (trip : Trip K)
  | answered (answer : Answer K)
  | failed

structure Cache (K : Type) where
  chalStr : Bytes
  chalExp : Int
  origin : Origin K
  storedAt : Int

/-- `now` is the clock of the client, and `keys` are those of the processes before this one. -/
structure State (K : Type) where
  cache : Option (Cache K)
  calls : List (Call K)
  key : K
  keys : List K
  restartedAt : Int
  now : Int

inductive Action (K : Type) where
  | call (req : HttpRequest)
  | take (i : Nat)
  | mint (i : Nat) (nonce : Nonce)
  | store (i : Nat)
  | fail (i : Nat)
  | arrive (i : Nat)
  | restart (key : K)
  | tick (elapsed : Nat)

variable {ed : Ed25519} (std : TextEncoding) (c : Challenger) (client : KeyringClient ed) (roster : Roster ed) (skew : Int)

/-- `authenticate` with the challenge, and the request that goes out. -/
def sign (req : HttpRequest) (chal : Bytes) (trip : Trip c.Key) : Call c.Key :=
  match client.authenticate std (.ok chal : Except Unit Bytes) req with
  | .error _ => .failed
  | .ok r => .sent r trip

def serverAt (s : State c.Key) : Roster ed := { roster with validChallenge := c.valid s.key (s.now + skew) }

/-- The first section of `challenge`: a stored challenge is taken, or one is fetched. -/
def take (s : State c.Key) (req : HttpRequest) : Call c.Key :=
  match s.cache with
  | none => .fetch req
  | some k =>
    if k.chalStr ≠ [] ∧ s.now < k.chalExp then sign std c client req k.chalStr ⟨k.origin, k.storedAt, s.now⟩ else .fetch req

def callStep (s : State c.Key) : Call c.Key → Action c.Key → Option (Option (Cache c.Key) × Call c.Key)
  | .challenge req, .take _ => some (s.cache, take std c client s req)
  | .fetch req, .mint _ nonce =>
    some (s.cache, .fetched req (c.mint s.key nonce (s.now + skew)) ⟨s.key, s.now⟩)
  | .fetched req chal origin, .store _ =>
    -- A response without a challenge is an error.
    if chal = [] then some (s.cache, .failed)
    else some (some ⟨chal, s.now + challengeReuseWindow, origin, s.now⟩, sign std c client req chal ⟨origin, s.now, s.now⟩)
  | .fetch _, .fail _ | .fetched _ _ _, .fail _ => some (s.cache, .failed)
  | .sent r trip, .arrive _ =>
    some (s.cache, .answered ⟨(serverAt c roster skew s).tryKeyring std r, trip, s.now, s.key, s.restartedAt⟩)
  | _, _ => none

def Action.index {K : Type} : Action K → Option Nat
  | .take i | .mint i _ | .store i | .fail i | .arrive i => some i
  | .call _ | .restart _ | .tick _ => none

def step (s : State c.Key) (act : Action c.Key) : Option (State c.Key) :=
  match act with
  | .call req => some { s with calls := s.calls ++ [.challenge req] }
  | .restart key => some { s with key := key, keys := s.key :: s.keys, restartedAt := s.now }
  | .tick elapsed => some { s with now := s.now + elapsed }
  | act =>
    match act.index.bind (fun i => s.calls[i]?.map (fun call => (i, call))) with
    | none => none
    | some (i, call) =>
      match callStep std c client roster skew s call act with
      | none => none
      | some (cache, call') => some { s with cache := cache, calls := s.calls.set i call' }

def init (key : c.Key) (now : Int) : State c.Key := ⟨none, [], key, [], now, now⟩

/-- The server's clock can be told in 64 bits, and no two processes have keys that agree. -/
def Disciplined (s : State c.Key) : Action c.Key → Prop
  | .mint _ _ | .arrive _ => Challenger.InRange (s.now + skew)
  | .restart key => ∀ k ∈ s.key :: s.keys, c.Apart k key
  | _ => True

/-- The key of the client is on the roster, and what it signs is accepted. -/
structure Enrolled (cred : KeyringCred ed) : Prop where
  signs : ∃ priv, client.edPriv = some priv ∧ ∀ msg, ed.verifyState [cred.pub] msg (ed.sign priv msg) = true ∧
    std.encodeToString (ed.sign priv msg) ≠ []
  line_ne : client.edPubLine ≠ []
  listed : ∃ canon pub, roster.parseEd25519AuthorizedKey client.edPubLine = some (canon, pub) ∧
    roster.lookupKeyring canon = some cred

/-! ## What the server answers -/

variable {std c client roster skew}

theorem tryKeyring_authenticate {cred : KeyringCred ed} (hEnrolled : Enrolled std client roster cred) {req r : HttpRequest}
    {chal : Bytes} (hAuth : client.authenticate std (.ok chal : Except Unit Bytes) req = .ok r) (hChal : chal ≠ [])
    (valid : Bytes → Bool) :
    ({ roster with validChallenge := valid } : Roster ed).tryKeyring std r =
      some (if valid chal = true then .ok ⟨cred.name, .keyring, none⟩ else .error .invalidCredential) := by
  obtain ⟨priv, hPriv, hSigns⟩ := hEnrolled.signs
  obtain ⟨canon, pub, hParse, hLookup⟩ := hEnrolled.listed
  unfold KeyringClient.authenticate at hAuth
  rw [hPriv] at hAuth
  cases hAuth
  obtain ⟨hVerify, hSig⟩ := hSigns (keyringSigningInput chal req.method req.path req.rawQuery)
  unfold Roster.tryKeyring
  rw [if_neg hSig]
  cases hValid : valid chal with
  | false =>
    rw [if_pos (.inr (.inr hValid))]
    rfl
  | true =>
    rw [if_neg (by simp [hEnrolled.line_ne, hChal, hValid])]
    simp only [hParse]
    rw [show ({ roster with validChallenge := valid } : Roster ed).lookupKeyring canon = some cred from hLookup]
    simp only [std.decode_encode, hVerify, if_true]

def Answer.accepted {K : Type} (name : String) (a : Answer K) : Prop := a.result = some (.ok ⟨name, .keyring, none⟩)

/-- How a request of an enrolled client fares: it is accepted by the process that made its
challenge until the challenge expires. With at most the remaining quarter of the lifetime spent
on the way only a restart can make it fail, and a challenge from before a restart is not used any
more once the window is over. -/
structure Fair {K : Type} (name : String) (a : Answer K) : Prop where
  times : a.trip.origin.mintedAt ≤ a.trip.storedAt ∧ a.trip.storedAt ≤ a.trip.takenAt ∧ a.trip.takenAt ≤ a.arrivedAt
  exact : a.accepted name ↔ a.trip.origin.key = a.key ∧ a.arrivedAt ≤ a.trip.origin.mintedAt + challengeTTL
  refused : ¬ a.accepted name → a.result = some (.error .invalidCredential)
  timely : a.trip.storedAt - a.trip.origin.mintedAt + (a.arrivedAt - a.trip.takenAt) ≤ challengeTTL - challengeReuseWindow →
    (a.accepted name ↔ a.trip.origin.key = a.key)
  recovers : a.restartedAt + challengeReuseWindow + (a.trip.storedAt - a.trip.origin.mintedAt) ≤ a.trip.takenAt →
    a.trip.origin.key = a.key

/-! ## The invariant -/

structure Minted (c : Challenger) (skew : Int) (s : State c.Key) (chal : Bytes) (o : Origin c.Key) : Prop where
  minted : ∃ nonce, chal = c.mint o.key nonce (o.mintedAt + skew)
  inRange : Challenger.InRange (o.mintedAt + skew)
  past : o.mintedAt ≤ s.now
  process : o.key = s.key ∨ (o.key ∈ s.keys ∧ o.mintedAt ≤ s.restartedAt)

structure OnTrip {K : Type} (trip : Trip K) (now : Int) : Prop where
  stored : trip.origin.mintedAt ≤ trip.storedAt
  taken : trip.storedAt ≤ trip.takenAt
  window : trip.takenAt < trip.storedAt + challengeReuseWindow
  past : trip.takenAt ≤ now

def CallOk (std : TextEncoding) (c : Challenger) (client : KeyringClient ed) (skew : Int) (name : String)
    (s : State c.Key) : Call c.Key → Prop
  | .fetched _ chal origin => Minted c skew s chal origin
  | .sent r trip => (∃ req chal, client.authenticate std (.ok chal : Except Unit Bytes) req = .ok r ∧ Minted c skew s chal trip.origin) ∧
      OnTrip trip s.now
  | .answered a => Fair name a
  | .challenge _ | .fetch _ | .failed => True

structure CacheOk (c : Challenger) (skew : Int) (s : State c.Key) (k : Cache c.Key) : Prop where
  minted : Minted c skew s k.chalStr k.origin
  stored : k.origin.mintedAt ≤ k.storedAt
  past : k.storedAt ≤ s.now
  exp : k.chalExp = k.storedAt + challengeReuseWindow

structure Inv (std : TextEncoding) (c : Challenger) (client : KeyringClient ed) (skew : Int) (name : String)
    (s : State c.Key) : Prop where
  calls : ∀ call ∈ s.calls, CallOk std c client skew name s call
  cache : ∀ k, s.cache = some k → CacheOk c skew s k
  keys : ∀ k ∈ s.keys, c.Apart k s.key
  restarted : s.restartedAt ≤ s.now

variable {name : String} {s t : State c.Key}

structure Later (s t : State c.Key) : Prop where
  now : s.now ≤ t.now
  process : ∀ o : Origin c.Key, o.mintedAt ≤ s.now → (o.key = s.key ∨ (o.key ∈ s.keys ∧ o.mintedAt ≤ s.restartedAt)) →
    o.key = t.key ∨ (o.key ∈ t.keys ∧ o.mintedAt ≤ t.restartedAt)

theorem Minted.later {chal : Bytes} {o : Origin c.Key} (h : Minted c skew s chal o) (hLater : Later s t) :
    Minted c skew t chal o :=
  ⟨h.minted, h.inRange, h.past.trans hLater.now, hLater.process o h.past h.process⟩

theorem CallOk.later {call : Call c.Key} (h : CallOk std c client skew name s call) (hLater : Later s t) :
    CallOk std c client skew name t call := by
  cases call with
  | fetched req chal origin => exact Minted.later h hLater
  | sent r trip =>
    obtain ⟨⟨req, chal, hAuth, hMinted⟩, hTrip⟩ := h
    exact ⟨⟨req, chal, hAuth, hMinted.later hLater⟩, hTrip.stored, hTrip.taken, hTrip.window, hTrip.past.trans hLater.now⟩
  | answered a => exact h
  | challenge | fetch | failed => trivial

theorem CacheOk.later {k : Cache c.Key} (h : CacheOk c skew s k) (hLater : Later s t) : CacheOk c skew t k :=
  ⟨h.minted.later hLater, h.stored, h.past.trans hLater.now, h.exp⟩

theorem callOk_sign {req : HttpRequest} {chal : Bytes} {trip : Trip c.Key} (hMinted : Minted c skew s chal trip.origin)
    (hTrip : OnTrip trip s.now) : CallOk std c client skew name s (sign std c client req chal trip) := by
  unfold sign
  split
  · trivial
  · rename_i r hAuth
    exact ⟨⟨req, chal, hAuth, hMinted⟩, hTrip⟩

theorem callOk_take (hInv : Inv std c client skew name s) (req : HttpRequest) :
    CallOk std c client skew name s (take std c client s req) := by
  unfold take
  split
  · trivial
  · rename_i k hCache
    have hOk := hInv.cache k hCache
    split
    · rename_i hFresh
      refine callOk_sign hOk.minted ⟨hOk.stored, hOk.past, ?_, Int.le_refl _⟩
      rw [← hOk.exp]
      exact hFresh.2
    · trivial

theorem fair_arrive {cred : KeyringCred ed} (hEnrolled : Enrolled std client roster cred) (hInv : Inv std c client skew name s)
    (hRange : Challenger.InRange (s.now + skew)) {r : HttpRequest} {trip : Trip c.Key}
    (hOk : CallOk std c client skew name s (.sent r trip)) :
    Fair cred.name ⟨(serverAt c roster skew s).tryKeyring std r, trip, s.now, s.key, s.restartedAt⟩ := by
  obtain ⟨⟨req, chal, hAuth, hMinted⟩, hTrip⟩ := hOk
  obtain ⟨nonce, hChal⟩ := hMinted.minted
  have hKeys : s.key = trip.origin.key ∨ c.Apart trip.origin.key s.key := by
    rcases hMinted.process with hSame | ⟨hMem, -⟩
    · exact .inl hSame.symm
    · exact .inr (hInv.keys _ hMem)
  have hValid : c.valid s.key (s.now + skew) chal = true ↔
      trip.origin.key = s.key ∧ s.now ≤ trip.origin.mintedAt + challengeTTL := by
    rw [hChal, Challenger.valid_mint_iff hMinted.inRange hRange hKeys]
    constructor
    · rintro ⟨hSame, hTime⟩
      exact ⟨hSame.symm, by omega⟩
    · rintro ⟨hSame, hTime⟩
      exact ⟨hSame.symm, by omega⟩
  have hResult : (serverAt c roster skew s).tryKeyring std r =
      some (if c.valid s.key (s.now + skew) chal = true then .ok ⟨cred.name, .keyring, none⟩ else .error .invalidCredential) :=
    tryKeyring_authenticate hEnrolled hAuth (by rw [hChal]; exact Challenger.mint_ne _ _ _) _
  have hExact : Answer.accepted cred.name
      (⟨(serverAt c roster skew s).tryKeyring std r, trip, s.now, s.key, s.restartedAt⟩ : Answer c.Key) ↔
        trip.origin.key = s.key ∧ s.now ≤ trip.origin.mintedAt + challengeTTL := by
    rw [← hValid, Answer.accepted, hResult]
    by_cases hOk : c.valid s.key (s.now + skew) chal = true <;> simp [hOk]
  have hWindow := hTrip.window
  refine ⟨⟨hTrip.stored, hTrip.taken, hTrip.past⟩, hExact, ?_, ?_, ?_⟩
  · intro hRefused
    rw [hExact, ← hValid] at hRefused
    rw [hResult, if_neg hRefused]
  · intro hDelay
    dsimp only at hDelay
    rw [hExact]
    unfold challengeTTL challengeReuseWindow at *
    exact and_iff_left (by omega)
  · intro hRestart
    rcases hMinted.process with hSame | ⟨-, hBefore⟩
    · exact hSame
    · dsimp only at hRestart
      omega

/-! ## Every run -/

theorem Inv.callStep {cred : KeyringCred ed} (hEnrolled : Enrolled std client roster cred)
    (hInv : Inv std c client skew cred.name s) {call call' : Call c.Key} {act : Action c.Key} {cache : Option (Cache c.Key)}
    (hOk : CallOk std c client skew cred.name s call) (hDisc : Disciplined c skew s act)
    (h : callStep std c client roster skew s call act = some (cache, call')) :
    CallOk std c client skew cred.name s call' ∧ ∀ k, cache = some k → CacheOk c skew s k := by
  unfold Challenges.callStep at h
  split at h
  · cases h
    exact ⟨callOk_take hInv _, hInv.cache⟩
  · cases h
    exact ⟨⟨⟨_, rfl⟩, hDisc, Int.le_refl _, .inl rfl⟩, hInv.cache⟩
  · split at h
    · cases h
      exact ⟨trivial, hInv.cache⟩
    · cases h
      have hMinted : Minted c skew s _ _ := hOk
      have hWindow : s.now < s.now + challengeReuseWindow := by
        unfold challengeReuseWindow
        omega
      refine ⟨callOk_sign hMinted ⟨hMinted.past, Int.le_refl _, hWindow, Int.le_refl _⟩, ?_⟩
      rintro k ⟨⟩
      exact ⟨hMinted, hMinted.past, Int.le_refl _, rfl⟩
  · cases h
    exact ⟨trivial, hInv.cache⟩
  · cases h
    exact ⟨trivial, hInv.cache⟩
  · cases h
    exact ⟨fair_arrive hEnrolled hInv hDisc hOk, hInv.cache⟩
  · cases h

theorem Inv.later (hInv : Inv std c client skew name s) (hLater : Later s t) (hCalls : t.calls = s.calls)
    (hCache : t.cache = s.cache) (hKeys : ∀ k ∈ t.keys, c.Apart k t.key)
    (hRestarted : t.restartedAt ≤ t.now) : Inv std c client skew name t where
  calls call hMem := (hInv.calls call (hCalls ▸ hMem)).later hLater
  cache k hk := (hInv.cache k (hCache ▸ hk)).later hLater
  keys := hKeys
  restarted := hRestarted

theorem Inv.step {cred : KeyringCred ed} (hEnrolled : Enrolled std client roster cred)
    (hInv : Inv std c client skew cred.name s) {act : Action c.Key} (hDisc : Disciplined c skew s act)
    (h : step std c client roster skew s act = some t) : Inv std c client skew cred.name t := by
  unfold Challenges.step at h
  split at h
  · rename_i req
    cases h
    have hLater : Later s { s with calls := s.calls ++ [.challenge req] } := ⟨Int.le_refl _, fun _ _ h => h⟩
    refine ⟨fun call hMem => ?_, fun k hk => (hInv.cache k hk).later hLater, hInv.keys, hInv.restarted⟩
    rcases List.mem_append.mp hMem with hMem | hMem
    · exact (hInv.calls call hMem).later hLater
    · rw [List.mem_singleton.mp hMem]
      trivial
  · cases h
    refine hInv.later ⟨Int.le_refl _, fun o hPast hProcess => ?_⟩ rfl rfl hDisc (Int.le_refl _)
    rcases hProcess with hSame | ⟨hMem, -⟩
    · exact .inr ⟨List.mem_cons.mpr (.inl hSame), hPast⟩
    · exact .inr ⟨List.mem_cons_of_mem _ hMem, hPast⟩
  · cases h
    have hNow := hInv.restarted
    refine hInv.later ⟨?_, fun o _ hProcess => hProcess⟩ rfl rfl hInv.keys ?_
    · dsimp only
      omega
    · dsimp only
      omega
  · split at h
    · cases h
    · rename_i i call hCall
      split at h
      · cases h
      · rename_i cache call' hStep
        cases h
        obtain ⟨j, hj, hMap⟩ := Option.bind_eq_some_iff.mp hCall
        obtain ⟨call, hc, hEq⟩ := Option.map_eq_some_iff.mp hMap
        cases hEq
        obtain ⟨hOk, hCache⟩ := hInv.callStep hEnrolled (hInv.calls _ (List.mem_of_getElem? hc)) hDisc hStep
        have hLater : Later s { s with cache := cache, calls := s.calls.set i call' } := ⟨Int.le_refl _, fun _ _ h => h⟩
        refine ⟨?_, fun k hk => (hCache k hk).later hLater, hInv.keys, hInv.restarted⟩
        exact forall_mem_set (fun call hMem => (hInv.calls call hMem).later hLater) (hOk.later hLater)

/-- However the calls of an enrolled client interleave, with each other, with restarts of the
server and with any delays: every request fares as it should. -/
theorem keyring_calls_fair (std : TextEncoding) (c : Challenger) (client : KeyringClient ed) (roster : Roster ed) (skew : Int)
    (cred : KeyringCred ed) (hEnrolled : Enrolled std client roster cred) (key : c.Key) (now : Int)
    (actions : List (Action c.Key))
    (hDisc : Guarded (step std c client roster skew) (Disciplined c skew) (init c key now) actions) :
    Always (step std c client roster skew) (fun s => ∀ a, Call.answered a ∈ s.calls → Fair cred.name a)
      (init c key now) actions := by
  have hInit : Inv std c client skew cred.name (init c key now) :=
    ⟨fun call hMem => absurd hMem List.not_mem_nil, fun k hk => (by cases hk), fun k hMem => absurd hMem List.not_mem_nil,
      Int.le_refl _⟩
  exact (always_of_guarded (fun _ _ _ hInv hAct h => hInv.step hEnrolled hAct h) hInit hDisc).mono
    fun _ hInv a hMem => hInv.calls (.answered a) hMem

/-- The key of one byte is the MAC, for runs on given inputs. -/
def plainChallenger : Challenger where
  Key := UInt8
  mac key _ := List.replicate macLen key
  raw := plainEncoding
  mac_length _ _ := List.length_replicate
  encode_ne _ h := h

instance : DecidableEq plainChallenger.Key := inferInstanceAs (DecidableEq UInt8)

instance (s : State plainChallenger.Key) : ∀ act, Decidable (Disciplined plainChallenger 0 s act)
  | .mint _ _ | .arrive _ => inferInstanceAs (Decidable (_ ∧ _))
  | .restart key =>
    decidable_of_iff (∀ k ∈ s.key :: s.keys, k ≠ key)
      ⟨fun h k hk _ _ hEq => h k hk (List.replicate_right_injective (by decide) hEq),
        fun h k hk hEq => h k hk _ (List.length_replicate (a := 0)) (by rw [hEq])⟩
  | .call _ | .take _ | .store _ | .fail _ | .tick _ => inferInstanceAs (Decidable True)

def zeroNonce : Nonce := ⟨List.replicate nonceLen 0, List.length_replicate⟩

/-- A fetch of two seconds; a second call takes the stored challenge, and meets a restarted server. -/
def restarted : List (Action plainChallenger.Key) :=
  [.call newlineRequest, .take 0, .mint 0 zeroNonce, .tick 2000000000, .store 0, .arrive 0,
   .call newlineRequest, .tick 44000000000, .take 1, .restart (2 : UInt8), .arrive 1]

def isAnswered {K : Type} : Call K → Option (Authenticator.Attempt)
  | .answered a => some a.result
  | _ => none

theorem restarted_fair :
    (run (step plainEncoding plainChallenger oneKeyClient oneKey 0) (init plainChallenger (1 : UInt8) 0) restarted).map
        (fun s => s.calls.filterMap isAnswered) =
      some [some (.ok ⟨"alice", .keyring, none⟩), some (.error .invalidCredential)] ∧
    Always (step plainEncoding plainChallenger oneKeyClient oneKey 0)
      (fun s => ∀ a, Call.answered a ∈ s.calls → Fair "alice" a) (init plainChallenger (1 : UInt8) 0) restarted := by
  have hEnrolled : Enrolled plainEncoding oneKeyClient oneKey ⟨"alice", (7 : UInt8)⟩ := by
    refine ⟨⟨(7 : UInt8), rfl, fun msg => ⟨?_, List.cons_ne_nil _ _⟩⟩, List.cons_ne_nil _ _, "ssh-ed25519", (7 : UInt8), rfl, rfl⟩
    simp [plainEd25519]
  have hDisc : Guarded (step plainEncoding plainChallenger oneKeyClient oneKey 0) (Disciplined plainChallenger 0)
      (init plainChallenger (1 : UInt8) 0) restarted := by decide +kernel
  exact ⟨by decide +kernel, keyring_calls_fair plainEncoding plainChallenger oneKeyClient oneKey 0 ⟨"alice", (7 : UInt8)⟩
    hEnrolled (1 : UInt8) 0 restarted hDisc⟩

end QuicSql.Auth.Challenges
