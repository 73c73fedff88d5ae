import QuicSql.Auth.Middleware
import QuicSql.Auth.Revocation
import QuicSql.Enroll.Cap
import QuicSql.Enroll.Stores

/-!
# Deleted principals and their credentials

The enrollment service beside the session minter. Requests with another credential than a
session token go through the authentication chain over the current keyring; a login at the
session endpoint is authenticated first and issued its token later. A session token is
presented to the minter, and authenticates when the minter accepts it.
-/

namespace QuicSql.Enroll

open Authz Lib
open Auth (Authenticator Middleware Request Minter TTL SessClaims Sid Method)

/-- `logins` have been authenticated and wait for their token. `deleted` are the names whose
deletion has returned and that are not enrolled since; `admitted` notes for every
authentication whether its name was deleted then. -/
structure Access where
  service : Service
  minter : Minter
  logins : List (Name × SessClaims)
  deleted : List Name
  admitted : List (Name × Bool)

namespace Access

inductive Action where
  | enroll (a : Service.Action)
  | request (auth : List Method) (r : Request)
  | login (auth : List Method) (r : Request)
  | issue (n : Nat) (sid : Sid)
  | session (a : Minter.Action)

/-- The configuration of the service, of the authenticator and of session tokens. `configured`
are the names of the configured credentials, those of the authorized keys among them. -/
structure Config where
  enroll : Enroll.Config
  authenticator : Authenticator
  configured : List Name
  configured_iff : ∀ name, name ∈ configured ↔ authenticator.Configured name
  ttl : TTL

/-- The chain reads the keyring as it is now. -/
def middleware (cfg : Config) (s : Access) (auth : List Method) : Middleware :=
  ({ cfg.authenticator with dynKeyring := s.service.dynKeyring } : Authenticator).middleware auth

def note (s : Access) (names : List Name) : Access :=
  { s with admitted := names.map (fun n => (n, decide (n ∈ s.deleted))) ++ s.admitted }

def deletes (s : Service) : Service.Action → List Name
  | .step i _ =>
    match s.calls[i]? with
    | some (.discounting name) => [name]
    | _ => []
  | _ => []

def accepts (t : Minter) : Minter.Action → List Name
  | .step n =>
    match t.calls[n]? with
    | some (.accepted .verify k _ _) => [k.token.principal]
    | _ => []
  | _ => []

def mints : Minter.Action → Bool
  | .mint .. | .stepUp .. => true
  | _ => false

def follow (s : Access) (a : Service.Action) (t : Service) : Access :=
  { s with
    service := t
    deleted := (deletes s.service a ++ s.deleted).filter (fun n => decide (¬ Enrolled t.table n)) }

/-- Tokens are minted for logins only. -/
def step (cfg : Config) (s : Access) : Action → Option Access
  | .enroll a => (Service.step cfg.enroll s.service a).map (s.follow a)
  | .request auth r =>
    match (s.middleware cfg auth).authenticateFor r true with
    | .ok p => some (s.note [p.name])
    | .error _ => some s
  | .login auth r =>
    match (s.middleware cfg auth).serveSession r with
    | .mint principal c => some { s.note [principal] with logins := s.logins ++ [(principal, c)] }
    | _ => some s
  | .issue n sid =>
    s.logins[n]?.bind fun l =>
      (Minter.step cfg.ttl s.minter (.mint sid l.1 l.2)).map fun t =>
        { s with minter := t, logins := s.logins.eraseIdx n }
  | .session a =>
    if mints a then none
    else (Minter.step cfg.ttl s.minter a).map fun t => { s.note (accepts t a) with minter := t }

def init (s : Service) (start : Int) : Access := ⟨s, Minter.init start, [], [], []⟩

/-- No request is authenticated as a deleted principal. -/
def Refuses (s : Access) : Prop := ∀ p ∈ s.admitted, p.2 = false

/-- The token whose expiry the call has tested already. -/
def passed : Auth.Call → List Auth.Issued
  | .looking _ k _ _ | .comparing _ k _ _ _ => [k]
  | _ => []

/-- Every token of the name has expired, and no request of it is on its way. -/
def SessionsOver (s : Access) (name : Name) : Prop :=
  (∀ k ∈ s.minter.issued, k.token.principal = name → k.token.exp < s.minter.clock) ∧
    (∀ c ∈ s.minter.calls, ∀ k ∈ passed c, k.token.principal ≠ name) ∧ ∀ l ∈ s.logins, l.1 ≠ name

instance (s : Access) (name : Name) : Decidable (s.SessionsOver name) := by
  unfold SessionsOver
  infer_instance

/-- An enrollment admits the key of a row that is still there, and a deletion returns when no
configured credential has the name and its sessions are over. -/
def SignedOff (cfg : Config) (s : Access) : Action → Prop
  | .enroll (.step i _) =>
    match s.service.calls[i]? with
    | some (.adding key _) => Enrolled s.service.table (cfg.enroll.principalName key)
    | some (.discounting name) => Enrolled s.service.table name ∨ name ∉ cfg.configured ∧ s.SessionsOver name
    | _ => True
  | _ => True

instance (cfg : Config) (s : Access) (a : Action) : Decidable (SignedOff cfg s a) := by
  unfold SignedOff
  repeat' split
  all_goals infer_instance

end Access

/-! ## The keyring of the service -/

def Call.unkeys (cfg : Config) : Call → Option Name
  | .removing name => some name
  | .purging key _ => some (cfg.principalName key)
  | _ => none

def Call.unenrolls : Call → Option Name
  | .removing name | .revoking name | .discounting name => some name
  | _ => none

namespace Service

structure Keyed (cfg : Config) (s : Service) : Prop where
  exclusive : Exclusive (Call.locks cfg) s.calls
  rows : ∀ r ∈ s.table, hasEnrolledPrefix r.name = true
  removals : ∀ c ∈ s.calls, ∀ name, c.unenrolls = some name → hasEnrolledPrefix name = true
  keyring : ∀ key name, s.dynKeyring key = some name →
    Enrolled s.table name ∨ ∃ c ∈ s.calls, c.unkeys cfg = some name

variable {cfg : Config} {s t u : Service} {i : Nat} {ok : Bool} {c d : Call}

theorem Passes.unkeys (h : Passes cfg s ok c d) : c.unkeys cfg = none := by
  cases h <;> rfl

theorem Passes.unenrolls (h : Passes cfg s ok c d) : d.unenrolls = none := by
  cases h with
  | @notPut key code => cases code <;> rfl
  | _ => rfl

theorem Takes.table_reserved (hPrefix : ∀ key, hasEnrolledPrefix (cfg.principalName key) = true)
    (hRows : ∀ r ∈ s.table, hasEnrolledPrefix r.name = true) (h : Takes cfg s ok c d u) : ∀ r ∈ u.table, hasEnrolledPrefix r.name = true := by
  intro r hr
  cases h with
  | @put key code =>
    rcases List.mem_append.mp hr with hOld | hNew
    · exact hRows r hOld
    · rw [List.mem_singleton.mp hNew]
      exact hPrefix key
  | rollback | delete => exact hRows r (mem_deleteEnrolled.mp hr).1
  | _ => exact hRows r hr

theorem Takes.unenrolls_reserved (hRows : ∀ r ∈ s.table, hasEnrolledPrefix r.name = true)
    (hOld : ∀ name, c.unenrolls = some name → hasEnrolledPrefix name = true) (h : Takes cfg s ok c d u) (name : Name)
    (hName : d.unenrolls = some name) : hasEnrolledPrefix name = true := by
  cases h with
  | passes hPass =>
    rw [hPass.unenrolls] at hName
    cases hName
  | delete hIn =>
    cases hName
    obtain ⟨r, hr, rfl⟩ := hIn
    exact hRows r hr
  | remove | revoke => exact hOld name hName
  | @grant key code =>
    unfold afterGrants at hName
    split at hName <;> cases hName
  | @purge key code => cases code <;> cases hName
  | _ => cases hName

/-- A key that is in the keyring belongs to a row, or somebody is about to remove it. -/
theorem Takes.keyring (hAdd : ∀ key code, c = .adding key code → Enrolled s.table (cfg.principalName key))
    (h : Takes cfg s ok c d u) {key : Key} {name : Name} (hKey : u.dynKeyring key = some name) :
    (s.dynKeyring key = some name ∧ (Enrolled s.table name → Enrolled u.table name ∨ d.unkeys cfg = some name) ∧
      c.unkeys cfg ≠ some name) ∨ Enrolled u.table name := by
  cases h with
  | passes hPass =>
    refine .inl ⟨hKey, .inl, ?_⟩
    rw [hPass.unkeys]
    exact fun hEq => by cases hEq
  | put =>
    refine .inl ⟨hKey, fun hIn => .inl (enrolled_append.mpr (.inl hIn)), fun hEq => by cases hEq⟩
  | @add key' code =>
    rcases addKeyring_some hKey with hOld | hNew
    · exact .inl ⟨hOld, .inl, fun hEq => by cases hEq⟩
    · exact .inr (hNew ▸ hAdd key' code rfl)
  | @rollback key' code | @delete name' =>
    refine .inl ⟨hKey, fun hIn => ?_, fun hEq => by cases hEq⟩
    rcases Decidable.em (name = _) with hEq | hNe
    · exact .inr (congrArg some hEq.symm)
    · exact .inl ((enrolled_deleteEnrolled_of_ne hNe).mpr hIn)
  | purge | remove =>
    obtain ⟨hOld, hNe⟩ := removeKeyringName_eq_some.mp hKey
    exact .inl ⟨hOld, .inl, fun hEq => hNe (Option.some.inj hEq).symm⟩
  | _ => exact .inl ⟨hKey, .inl, fun hEq => by cases hEq⟩

theorem Keyed.takes (hPrefix : ∀ key, hasEnrolledPrefix (cfg.principalName key) = true) (h : Keyed cfg s)
    (hc : s.calls[i]? = some c) (hAdd : ∀ key code, c = .adding key code → Enrolled s.table (cfg.principalName key))
    (hTakes : Takes cfg s ok c d u) : Keyed cfg { u with calls := s.calls.set i d } where
  exclusive := h.exclusive.set hc hTakes.locks
  rows := (hTakes.table_reserved hPrefix h.rows : ∀ r ∈ u.table, hasEnrolledPrefix r.name = true)
  removals := forall_mem_set h.removals
    fun name hName => hTakes.unenrolls_reserved h.rows (h.removals c (List.mem_of_getElem? hc)) name hName
  keyring := by
    intro key name hKey
    rcases hTakes.keyring hAdd hKey with ⟨hOld, hStays, hNot⟩ | hIn
    · rcases h.keyring key name hOld with hIn | ⟨e, he, hUnkeys⟩
      · rcases hStays hIn with hStill | hNext
        · exact .inl hStill
        · exact .inr ⟨d, mem_set_self hc, hNext⟩
      · rcases mem_set_of_mem (d := d) hc he with rfl | hStay
        · exact absurd hUnkeys hNot
        · exact .inr ⟨e, hStay, hUnkeys⟩
    · exact .inl hIn

theorem Keyed.start (h : Keyed cfg s) (hLocks : c.locks cfg = []) (hNone : c.unenrolls = none) :
    Keyed cfg (s.start c) where
  exclusive := h.exclusive.append hLocks
  rows := h.rows
  removals := by
    intro e he name hName
    rcases List.mem_append.mp he with hOld | hNew
    · exact h.removals e hOld name hName
    · rw [List.mem_singleton.mp hNew, hNone] at hName
      cases hName
  keyring := fun key name hKey =>
    (h.keyring key name hKey).imp_right fun ⟨e, he, hUnkeys⟩ => ⟨e, List.mem_append_left _ he, hUnkeys⟩

theorem Keyed.enrolled_of_key (h : Keyed cfg s) (hc : s.calls[i]? = some c) {name : Name} (hGate : .gate name ∈ c.locks cfg)
    (hNot : c.unkeys cfg ≠ some name) {key : Key} (hKey : s.dynKeyring key = some name) : Enrolled s.table name := by
  rcases h.keyring key name hKey with hIn | ⟨e, he, hUnkeys⟩
  · exact hIn
  · have hHeld : .gate name ∈ e.locks cfg := by
      cases e <;> cases hUnkeys
      · exact List.mem_cons_self
      · exact List.mem_cons_self
    obtain ⟨j, hj⟩ := List.getElem?_of_mem he
    cases h.exclusive hj hc hHeld hGate
    cases Option.some.inj (hj.symm.trans hc)
    exact absurd hUnkeys hNot

theorem loadTable_keyring (table : List Row) (dyn : Key → Option Name) {key : Key} {name : Name}
    (h : table.foldl (fun dyn r => addKeyring cfg dyn r.key r.name) dyn key = some name) :
    dyn key = some name ∨ Enrolled table name := by
  induction table generalizing dyn with
  | nil => exact .inl h
  | cons first rest ih =>
    rcases ih _ h with hDyn | ⟨r, hr, hName⟩
    · rcases addKeyring_some hDyn with hOld | hNew
      · exact .inl hOld
      · exact .inr ⟨first, List.mem_cons_self, hNew⟩
    · exact .inr ⟨r, List.mem_cons_of_mem _ hr, hName⟩

theorem loadTable_keyed (base : Policy) {table : List Row} (hRows : ∀ r ∈ table, hasEnrolledPrefix r.name = true)
    (codes : List Code) (now : Int) : Keyed cfg (loadTable cfg base table codes now) where
  exclusive := exclusive_nil
  rows := hRows
  removals := fun _ hc => absurd hc List.not_mem_nil
  keyring := fun _ _ hKey => .inl ((loadTable_keyring table _ hKey).resolve_left fun hNone => by cases hNone)

end Service

namespace Access

/-! ## The tokens of deleted names -/

/-- The tokens of the names have expired, and no call can accept one. -/
structure Silenced (names : List Name) (m : Minter) : Prop where
  tokens : ∀ k ∈ m.issued, k.token.principal ∈ names → k.token.exp < m.clock
  begun : ∀ use k late, Auth.Call.begun use k late ∈ m.calls → k ∈ m.issued
  checks : ∀ c ∈ m.calls, ∀ k ∈ passed c, k.token.principal ∉ names

namespace Silenced

variable {names : List Name} {ttl : TTL} {m t : Minter} {n : Nat} {c d : Auth.Call}

/-- A call moves on with a token that it was not barred from. -/
theorem move (h : Silenced names m) (hCalls : t.calls = m.calls.set n d)
    (hClock : t.clock = m.clock)
    (hIssued : ∀ k ∈ t.issued, k ∈ m.issued ∨ k.token.principal ∉ names) (hKept : ∀ k ∈ m.issued, k ∈ t.issued)
    (hBegun : ∀ use k late, d ≠ .begun use k late) (hPassed : ∀ k ∈ passed d, k.token.principal ∉ names) :
    Silenced names t where
  tokens := by
    intro k hk hName
    rw [hClock]
    exact h.tokens k ((hIssued k hk).resolve_right fun hNot => hNot hName) hName
  begun := by
    intro use k late hMem
    rw [hCalls] at hMem
    rcases List.mem_or_eq_of_mem_set hMem with hOld | hNew
    · exact hKept k (h.begun use k late hOld)
    · exact absurd hNew.symm (hBegun use k late)
  checks := by
    rw [hCalls]
    exact forall_mem_set h.checks hPassed

theorem reads (h : Silenced names m) (hc : m.calls[n]? = some c) (hReads : Minter.Reads ttl m c d) :
    Silenced names (m.goto n d) := by
  have hMem := List.mem_of_getElem? hc
  refine h.move rfl rfl (fun _ hk => .inl hk) (fun _ hk => hk) ?_ ?_
  · intro use k late hEq
    cases hReads <;> cases hEq
  · intro k hk
    cases hReads with
    | @pass use k' late hAdmits =>
      -- a token of a barred name would have passed its expiry
      cases List.mem_singleton.mp hk
      intro hName
      have hLate := h.tokens k (h.begun use k late hMem) hName
      have hEarly := Auth.Payload.admits_exp hAdmits
      omega
    | found =>
      cases List.mem_singleton.mp hk
      exact h.checks _ hMem k (List.mem_singleton_self _)
    | refuse | revoke | revokeOne => cases hk

theorem clears {use : Auth.Use} {k : Auth.Issued} {late : Bool} {now : Int}
    (hClears : Minter.Clears m c use k late now) : k ∈ passed c := by
  cases hClears <;> exact List.mem_singleton_self _

theorem accept {use : Auth.Use} {k : Auth.Issued} {late : Bool} {now : Int} (h : Silenced names m)
    (hNot : k.token.principal ∉ names) : Silenced names (Minter.accept ttl m n use k late now) := by
  refine h.move rfl rfl ?_ (fun _ hk => List.mem_append_left _ hk) (fun _ _ _ hEq => by cases hEq) (fun _ hk => by cases hk)
  intro k' hk'
  rcases List.mem_append.mp hk' with hOld | hNew
  · exact .inl hOld
  · refine .inr ?_
    cases use with
    | verify => cases hNew
    | renew | refresh =>
      rw [List.mem_singleton.mp hNew]
      exact hNot

theorem start (h : Silenced names m) (hOpening : Minter.Opening m c) : Silenced names (m.start c) where
  tokens := h.tokens
  begun := by
    intro use k late hMem
    rcases List.mem_append.mp hMem with hOld | hNew
    · exact h.begun use k late hOld
    · cases List.mem_singleton.mp hNew
      cases hOpening with
      | use hk => exact hk
  checks := by
    intro e he k hk
    rcases List.mem_append.mp he with hOld | hNew
    · exact h.checks e hOld k hk
    · cases List.mem_singleton.mp hNew
      cases hOpening <;> cases hk

theorem record (h : Silenced names m) {i : Auth.Issued} (hNot : i.token.principal ∉ names) :
    Silenced names (m.record i) where
  tokens := by
    intro k hk hName
    rcases List.mem_append.mp hk with hOld | hNew
    · exact h.tokens k hOld hName
    · rw [List.mem_singleton.mp hNew] at hName
      exact absurd hName hNot
  begun := fun use k late hMem => List.mem_append_left _ (h.begun use k late hMem)
  checks := h.checks

theorem forget (h : Silenced names m) {revoked : Sid → Option Int} {sids : List Sid} :
    Silenced names (m.forget n revoked sids) :=
  h.move rfl rfl (fun _ hk => .inl hk) (fun _ hk => hk) (fun _ _ _ hEq => by cases hEq) (fun _ hk => by cases hk)

end Silenced

theorem advance_accepted {ttl : TTL} {m t : Minter} {n : Nat} {c : Auth.Call} (hc : m.calls[n]? = some c)
    (h : Minter.advance ttl m n c = some t) {use : Auth.Use} {k : Auth.Issued} {late : Bool} {now : Int}
    (hAccepted : t.calls[n]? = some (.accepted use k late now)) : k ∈ passed c := by
  have hGoto : ∀ {d : Auth.Call}, t.calls = m.calls.set n d → d = .accepted use k late now := by
    intro d hCalls
    rw [hCalls, getElem?_set_of_some hc] at hAccepted
    exact Option.some.inj hAccepted
  cases c with
  | begun use' k' late' | revoking k' =>
    rw [Minter.advance] at h
    split at h <;> cases h <;> cases hGoto rfl
  | looking use' k' late' now' =>
    rw [Minter.advance] at h
    split at h <;> cases h <;> cases hGoto rfl
    exact List.mem_singleton_self _
  | comparing use' k' late' now' e =>
    rw [Minter.advance] at h
    split at h <;> cases h <;> cases hGoto rfl
    exact List.mem_singleton_self _
  | collecting | revokingOne | revokingSIDs =>
    cases h
    cases hGoto rfl
  | accepted | refused | returned => cases h

/-! ## Both together -/

structure Barred (cfg : Config) (s : Access) : Prop where
  keyed : Service.Keyed cfg.enroll s.service
  gone : ∀ n ∈ s.deleted, n ≠ "" ∧ n ∉ cfg.configured ∧ ∀ key, s.service.dynKeyring key ≠ some n
  absent : ∀ n ∈ s.deleted, ¬ Enrolled s.service.table n
  silenced : Silenced s.deleted s.minter
  logins : ∀ l ∈ s.logins, l.1 ∉ s.deleted
  refuses : s.Refuses

variable {cfg : Config} {s t : Access} {r : Request} {auth : List Method}

theorem Barred.note (h : Barred cfg s) {names : List Name} (hNames : ∀ n ∈ names, n ∉ s.deleted) :
    Barred cfg (s.note names) := by
  refine ⟨h.keyed, h.gone, h.absent, h.silenced, h.logins, fun p hp => ?_⟩
  rcases List.mem_append.mp hp with hNew | hOld
  · obtain ⟨n, hn, rfl⟩ := List.mem_map.mp hNew
    exact decide_eq_false (hNames n hn)
  · exact h.refuses p hOld

theorem Barred.authenticateFor (h : Barred cfg s) {p : Auth.Principal}
    (hAuth : (s.middleware cfg auth).authenticateFor r true = .ok p) : p.name ∉ s.deleted := by
  intro hDeleted
  obtain ⟨hName, hOther, hKeys⟩ := h.gone p.name hDeleted
  rcases Middleware.authenticateFor_knows hAuth with hAnonymous | hConfigured | ⟨canon, hDyn⟩
  · exact hName (of_decide_eq_true hAnonymous)
  · refine hOther ((cfg.configured_iff p.name).mpr ?_)
    cases hConfigured with
    | bearer hIn => exact .bearer hIn
    | password hIn => exact .password hIn
    | mtlsCN hIn => exact .mtlsCN hIn
    | mtlsSPKI hIn => exact .mtlsSPKI hIn
    | keyring hIn => exact .keyring hIn
    | peercred hIn => exact .peercred hIn
  · exact hKeys canon hDyn

theorem Barred.serveSession (h : Barred cfg s) {principal : String} {c : SessClaims}
    (hMint : (s.middleware cfg auth).serveSession r = .mint principal c) :
    principal ∉ s.deleted := by
  unfold Middleware.serveSession at hMint
  split at hMint
  · split at hMint
    · cases hMint
    · rename_i p hAuth
      split at hMint
      · cases hMint
      · cases hMint
        exact h.authenticateFor hAuth
  · split at hMint <;> cases hMint
  · split at hMint <;> cases hMint
  · cases hMint

/-- The service has moved on. Whoever counts as deleted now was deleted before, or just now
without another credential. -/
theorem Barred.follow (h : Barred cfg s) {a : Service.Action} {u : Service} (hKeyed : Service.Keyed cfg.enroll u)
    (hKeys : ∀ n ∈ s.deleted, ¬ Enrolled u.table n → ∀ key, u.dynKeyring key ≠ some n)
    (hNew : ∀ n ∈ deletes s.service a, ¬ Enrolled u.table n →
      n ≠ "" ∧ (∀ key, u.dynKeyring key ≠ some n) ∧ n ∉ cfg.configured ∧ s.SessionsOver n) :
    Barred cfg (s.follow a u) := by
  have hDeleted : ∀ n ∈ (s.follow a u).deleted, ¬ Enrolled u.table n ∧ (n ∈ deletes s.service a ∨ n ∈ s.deleted) := by
    intro n hn
    obtain ⟨hIn, hOut⟩ := List.mem_filter.mp hn
    exact ⟨of_decide_eq_true hOut, List.mem_append.mp hIn⟩
  have hEither : ∀ n ∈ (s.follow a u).deleted, n ∈ s.deleted ∨ s.SessionsOver n := by
    intro n hn
    obtain ⟨hOut, hJust | hOld⟩ := hDeleted n hn
    · exact .inr (hNew n hJust hOut).2.2.2
    · exact .inl hOld
  refine ⟨hKeyed, ?_, fun n hn => (hDeleted n hn).1, ⟨?_, h.silenced.begun, ?_⟩, ?_, h.refuses⟩
  · intro n hn
    obtain ⟨hOut, hJust | hOld⟩ := hDeleted n hn
    · obtain ⟨hName, hKeyless, hOther, -⟩ := hNew n hJust hOut
      exact ⟨hName, hOther, hKeyless⟩
    · obtain ⟨hName, hOther, -⟩ := h.gone n hOld
      exact ⟨hName, hOther, hKeys n hOld hOut⟩
  · intro k hk hName
    rcases hEither _ hName with hOld | hOver
    · exact h.silenced.tokens k hk hOld
    · exact hOver.1 k hk rfl
  · intro c hc k hk hName
    rcases hEither _ hName with hOld | hOver
    · exact h.silenced.checks c hc k hk hOld
    · exact hOver.2.1 c hc k hk rfl
  · intro l hl hName
    rcases hEither _ hName with hOld | hOver
    · exact h.logins l hl hOld
    · exact hOver.2.2 l hl rfl

theorem Barred.enroll (hPrefix : ∀ key, hasEnrolledPrefix (cfg.enroll.principalName key) = true) (h : Barred cfg s)
    {a : Service.Action} {u : Service} (hCond : SignedOff cfg s (.enroll a))
    (hStep : Service.step cfg.enroll s.service a = some u) :
    Barred cfg (s.follow a u) := by
  have hSame : ∀ n ∈ s.deleted, ∀ key, s.service.dynKeyring key ≠ some n := fun n hn => (h.gone n hn).2.2
  cases Service.step_acts hStep with
  | enroll | delete | mintCode =>
    exact h.follow (h.keyed.start rfl rfl) (fun n hn _ => hSame n hn) (fun _ hn => absurd hn List.not_mem_nil)
  | tick =>
    exact h.follow ⟨h.keyed.exclusive, h.keyed.rows, h.keyed.removals, h.keyed.keyring⟩ (fun n hn _ => hSame n hn)
      (fun _ hn => absurd hn List.not_mem_nil)
  | @step i ok c d u hc hTakes =>
    have hAdd : ∀ key code, c = .adding key code → Enrolled s.service.table (cfg.enroll.principalName key) := by
      rintro key code rfl
      rw [SignedOff, hc] at hCond
      exact hCond
    refine h.follow (h.keyed.takes hPrefix hc hAdd hTakes) ?_ ?_
    · intro n hn hOut key hKey
      rcases hTakes.keyring hAdd hKey with ⟨hOld, -, -⟩ | hIn
      · exact hSame n hn key hOld
      · exact hOut hIn
    · intro n hn hOut
      rw [deletes, hc] at hn
      split at hn
      · rename_i name hEq
        cases Option.some.inj hEq
        cases List.mem_singleton.mp hn
        rw [SignedOff, hc] at hCond
        cases hTakes with
        | passes hPass => cases hPass
        | discount =>
          have hReserved := h.keyed.removals _ (List.mem_of_getElem? hc) n rfl
          refine ⟨?_, fun key hKey => hOut ?_, hCond.resolve_left hOut⟩
          · rintro rfl
            cases hReserved
          · exact h.keyed.enrolled_of_key hc (List.mem_singleton_self _) (fun hEq => by cases hEq) hKey
      · cases hn

theorem Barred.issue (h : Barred cfg s) {l : Name × SessClaims} {n : Nat} (hl : s.logins[n]? = some l) {sid : Sid}
    {m : Minter} (hStep : Minter.step cfg.ttl s.minter (.mint sid l.1 l.2) = some m) :
    Barred cfg { s with minter := m, logins := s.logins.eraseIdx n } := by
  obtain ⟨-, hStep⟩ := Option.ite_none_left_eq_some.mp hStep
  cases hStep
  exact ⟨h.keyed, h.gone, h.absent, h.silenced.record (h.logins l (List.mem_of_getElem? hl)),
    fun l' hl' => h.logins l' (List.mem_of_mem_eraseIdx hl'), h.refuses⟩

theorem Barred.session (h : Barred cfg s) {a : Minter.Action} {m : Minter}
    (hMints : mints a ≠ true) (hStep : Minter.step cfg.ttl s.minter a = some m) : Barred cfg { s.note (accepts m a) with minter := m } := by
  have hSilenced : Silenced s.deleted m := by
    cases Minter.step_move hStep with
    | tick hFits =>
      refine ⟨fun k hk hName => ?_, h.silenced.begun, h.silenced.checks⟩
      have hOld := h.silenced.tokens k hk hName
      dsimp only
      omega
    | mint | stepUp => exact absurd rfl hMints
    | start hOpening => exact h.silenced.start hOpening
    | reads hc hReads => exact h.silenced.reads hc hReads
    | accept hc hClears =>
      exact h.silenced.accept (h.silenced.checks _ (List.mem_of_getElem? hc) _ (Silenced.clears hClears))
    | forget hc _ => exact h.silenced.forget
  have hAccepts : ∀ n ∈ accepts m a, n ∉ s.deleted := by
    intro name hName
    cases a with
    | step n =>
      rw [accepts] at hName
      split at hName
      · rename_i k late now hAccepted
        rw [List.mem_singleton.mp hName]
        obtain ⟨c, hc, hAdvance⟩ := Option.bind_eq_some_iff.mp hStep
        exact h.silenced.checks c (List.mem_of_getElem? hc) k (advance_accepted hc hAdvance hAccepted)
      · cases hName
    | _ => cases hName
  have hNoted := h.note hAccepts
  exact ⟨hNoted.keyed, hNoted.gone, hNoted.absent, hSilenced, hNoted.logins, hNoted.refuses⟩

theorem step_barred (hPrefix : ∀ key, hasEnrolledPrefix (cfg.enroll.principalName key) = true) (h : Barred cfg s)
    {a : Action} (hCond : SignedOff cfg s a) (hStep : step cfg s a = some t) : Barred cfg t := by
  cases a with
  | enroll a =>
    obtain ⟨u, hu, rfl⟩ := Option.map_eq_some_iff.mp hStep
    exact h.enroll hPrefix hCond hu
  | request auth r =>
    rw [step] at hStep
    split at hStep
    · rename_i p hAuth
      cases hStep
      refine h.note fun n hn => ?_
      rw [List.mem_singleton.mp hn]
      exact h.authenticateFor hAuth
    · cases hStep
      exact h
  | login auth r =>
    rw [step] at hStep
    split at hStep
    · rename_i principal c hMint
      cases hStep
      have hNot := h.serveSession hMint
      have hNoted : Barred cfg (s.note [principal]) := h.note fun n hn => by rwa [List.mem_singleton.mp hn]
      refine ⟨hNoted.keyed, hNoted.gone, hNoted.absent, hNoted.silenced, fun l hl => ?_, hNoted.refuses⟩
      rcases List.mem_append.mp hl with hOld | hNew
      · exact h.logins l hOld
      · rw [List.mem_singleton.mp hNew]
        exact hNot
    · cases hStep
      exact h
  | issue n sid =>
    obtain ⟨l, hl, hStep⟩ := Option.bind_eq_some_iff.mp hStep
    obtain ⟨m, hm, rfl⟩ := Option.map_eq_some_iff.mp hStep
    exact h.issue hl hm
  | session a =>
    obtain ⟨hMints, hStep⟩ := Option.ite_none_left_eq_some.mp hStep
    obtain ⟨m, hm, rfl⟩ := Option.map_eq_some_iff.mp hStep
    exact h.session hMints hm

/-- No request is authenticated as a deleted principal, in every run in which a deletion
returns when the name has no configured credential and no session left, and no enrollment
admits the key of a row that is gone. -/
theorem deleted_principals_refused (cfg : Config) (hPrefix : ∀ key, hasEnrolledPrefix (cfg.enroll.principalName key) = true)
    (base : Policy) (table : List Row) (hRows : ∀ r ∈ table, hasEnrolledPrefix r.name = true) (codes : List Code)
    (now start : Int) (actions : List Action)
    (hSignedOff : Guarded (step cfg) (SignedOff cfg)
      (init (Service.loadTable cfg.enroll base table codes now) start) actions) :
    Always (step cfg) Refuses (init (Service.loadTable cfg.enroll base table codes now) start) actions := by
  have hInit : Barred cfg (init (Service.loadTable cfg.enroll base table codes now) start) :=
    ⟨Service.loadTable_keyed base hRows codes now, fun _ hn => absurd hn List.not_mem_nil,
      fun _ hn => absurd hn List.not_mem_nil,
      ⟨fun _ hk => absurd hk List.not_mem_nil, fun _ _ _ hc => absurd hc List.not_mem_nil,
        fun _ hc => absurd hc List.not_mem_nil⟩,
      fun _ hl => absurd hl List.not_mem_nil, fun _ hp => absurd hp List.not_mem_nil⟩
  have hAlways : Always (step cfg) (Barred cfg) (init (Service.loadTable cfg.enroll base table codes now) start) actions :=
    always_of_guarded (fun s a t h hCond hStep => step_barred hPrefix h hCond hStep) hInit hSignedOff
  exact hAlways.mono fun s h => h.refuses

def keyringOnly : Authenticator where
  bearer := fun _ => none
  password := fun _ => none
  mtlsCN := fun _ => none
  mtlsSPKI := fun _ => none
  keyring := fun _ => none
  dynKeyring := fun _ => none
  peercred := fun _ => none
  sessions := true
  cookieMode := false
  sha256Hex := fun t => t
  compareHash := fun _ _ => false
  decodeBasic := fun _ => none
  parseKey := fun key => some key
  validChallenge := fun _ => true
  verifySignature := fun _ _ => true
  verify := fun _ => none

/-- Open enrollment, and sessions that last ten units of time. -/
def openAccess : Config where
  enroll := bareConfig
  authenticator := keyringOnly
  configured := []
  configured_iff := fun name => by
    refine ⟨fun h => absurd h List.not_mem_nil, fun h => ?_⟩
    cases h with
    | bearer hIn | password hIn | mtlsCN hIn | mtlsSPKI hIn | keyring hIn | peercred hIn => cases hIn
  ttl := Auth.Minter.shortTTL

def signedPost : Request := ⟨.post, [], [], "", ["sig"], "b", "c", none, none⟩

/-- Key b enrolls and logs in; its principal is deleted after `d` units of time, and the
session token is presented. -/
def loginThenDeleted (d : Nat) : List Action :=
  [.enroll (.enroll "b" none), .enroll (.step 0 true), .enroll (.step 0 true), .enroll (.step 0 true),
    .enroll (.step 0 true), .enroll (.step 0 true), .enroll (.step 0 true), .login [.keyring] signedPost, .issue 0 [1],
    .session (.tick d), .enroll (.delete "u_b"), .enroll (.step 1 true), .enroll (.step 1 true), .enroll (.step 1 true),
    .enroll (.step 1 true), .enroll (.step 1 true), .enroll (.step 1 true), .request [.keyring] signedPost,
    .session (.use .verify 0), .session (.step 0), .session (.step 0)]

theorem expired_session_refused :
    Always (step openAccess) Refuses (init (Service.loadTable openAccess.enroll (newPolicy false) [] [] 0) 0)
      (loginThenDeleted 11) := by
  exact deleted_principals_refused openAccess hasEnrolledPrefix_append (newPolicy false) [] (by decide) [] 0 0 _ (by decide +kernel)

/-- The session token outlives the principal it was minted for. -/
theorem session_outlives_deletion :
    ¬ Always (step openAccess) Refuses (init (Service.loadTable openAccess.enroll (newPolicy false) [] [] 0) 0)
      (loginThenDeleted 1) := by
  intro hAlways
  have hRun : (run (step openAccess) (init (Service.loadTable openAccess.enroll (newPolicy false) [] [] 0) 0)
      (loginThenDeleted 1)).map (fun s => s.admitted) = some [("u_b", true), ("u_b", false)] := by
    decide +kernel
  obtain ⟨s, hs, hAdmitted⟩ := Option.map_eq_some_iff.mp hRun
  have hRefused := hAlways.final hs ("u_b", true) (hAdmitted ▸ List.mem_cons_self)
  cases hRefused

end Access

end QuicSql.Enroll
