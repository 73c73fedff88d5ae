import QuicSql.Enroll.Model

/-!
# The steps of a call

A step either moves its call on and leaves the stores alone, or updates one of them. Every
branch is listed once with what it tested, whatever the store answers.
-/

namespace QuicSql.Enroll

open Authz Lib

namespace Service

def HasRoom (cfg : Config) (s : Service) : Prop := ¬ (0 < cfg.maxPrincipals ∧ cfg.maxPrincipals ≤ s.count)

/-- The stores stay as they are. -/
inductive Passes (cfg : Config) (s : Service) (ok : Bool) : Call → Call → Prop
  | enter {key : Key} {token : Option Hash} : Free (Call.locks cfg) s.calls .mu →
      Passes cfg s ok (.arrived key token) (.looking key token)
  | known {key : Key} {token : Option Hash} {answer : Answer} :
      Passes cfg s ok (.looking key token) (.returned answer)
  | unknown {key : Key} {token : Option Hash} : enrolledByKey s.table key = none →
      Passes cfg s ok (.looking key token) (.checking key token)
  | deny {key : Key} {token : Option Hash} : Passes cfg s ok (.checking key token) (.returned .denied)
  | coded {key : Key} {token : Option Hash} {hash : Hash} : HasRoom cfg s →
      Passes cfg s ok (.checking key token) (.consuming key hash)
  | uncoded {key : Key} {token : Option Hash} : HasRoom cfg s →
      Passes cfg s ok (.checking key token) (.putting key none)
  | spent {key : Key} {hash : Hash} {answer : Answer} : Passes cfg s ok (.consuming key hash) (.returned answer)
  | notPut {key : Key} {code : Option Hash} : Passes cfg s ok (.putting key code) (afterPut code)
  | unreleased {hash : Hash} : Passes cfg s ok (.unwinding hash) (.returned .failed)
  | gate {key : Key} {code : Option Hash} : Free (Call.locks cfg) s.calls (.gate (cfg.principalName key)) →
      Passes cfg s ok (.enrolled key code) (.confirming key code)
  | confirmed {key : Key} {code : Option Hash} : (enrolledByKey s.table key).isSome →
      Passes cfg s ok (.confirming key code) (.provisioning key code)
  | unconfirmed {key : Key} {code : Option Hash} : Passes cfg s ok (.confirming key code) (.failing key code)
  | unprovisioned {key : Key} {code : Option Hash} : Passes cfg s ok (.provisioning key code) (.failing key code)
  | failing {key : Key} {code : Option Hash} : Free (Call.locks cfg) s.calls .mu →
      Passes cfg s ok (.failing key code) (.rollingBack key code)
  | notErased {key : Key} {code : Option Hash} : ok = false ∨ ¬ Enrolled s.table (cfg.principalName key) →
      Passes cfg s ok (.rollingBack key code) (.purging key code)
  | unreturned {key : Key} {hash : Hash} : Passes cfg s ok (.releasing key hash) (.returned .failed)
  | deleteGate {name : Name} : Free (Call.locks cfg) s.calls (.gate name) →
      Passes cfg s ok (.deleteArrived name) (.dropping name)
  | busy {name : Name} : Passes cfg s ok (.dropping name) (.returned .notDeleted)
  | dropped {name : Name} : Passes cfg s ok (.dropping name) (.deleting name)
  | notDeleted {name : Name} {answer : Answer} : answer ≠ .deleted true →
      Passes cfg s ok (.deleting name) (.returned answer)
  | unswept {code : Hash} {now : Int} : Passes cfg s ok (.sweeping code now) (.storing code now)
  | unstored {code : Hash} {now : Int} : Passes cfg s ok (.storing code now) (.returned .failed)

/-- Call `c` moves on to `d`, in the state `t` up to the list of calls. -/
inductive Takes (cfg : Config) (s : Service) (ok : Bool) : Call → Call → Service → Prop
  | passes {c d : Call} : Passes cfg s ok c d → Takes cfg s ok c d s
  | consume {key : Key} {hash : Hash} : codeValid s.codes hash s.clock →
      Takes cfg s ok (.consuming key hash) (.putting key (some hash)) { s with codes := consume s.codes hash s.clock }
  | put {key : Key} {code : Option Hash} : conflicts s.table ⟨cfg.principalName key, key⟩ = false →
      Takes cfg s ok (.putting key code) (.adding key code)
        { s with table := s.table ++ [⟨cfg.principalName key, key⟩] }
  | add {key : Key} {code : Option Hash} :
      Takes cfg s ok (.adding key code) (.granting key code)
        { s with dynKeyring := addKeyring cfg s.dynKeyring key (cfg.principalName key) }
  | grant {key : Key} {code : Option Hash} :
      Takes cfg s ok (.granting key code) (afterGrants cfg key code)
        { s with policy := applyGrants cfg.grants s.policy (cfg.principalName key), count := s.count + 1 }
  | unwind {hash : Hash} :
      Takes cfg s ok (.unwinding hash) (.returned .failed) { s with codes := release s.codes hash }
  | provision {key : Key} {code : Option Hash} :
      Takes cfg s ok (.provisioning key code) (.returned (.created (cfg.principalName key)))
        { s with policy := grantProvision cfg s.policy (cfg.principalName key) }
  | rollback {key : Key} {code : Option Hash} : Enrolled s.table (cfg.principalName key) →
      Takes cfg s ok (.rollingBack key code) (.purging key code)
        { s with table := deleteEnrolled s.table (cfg.principalName key), count := s.count - 1 }
  | purge {key : Key} {code : Option Hash} :
      Takes cfg s ok (.purging key code) (afterPurge key code)
        { s with
          dynKeyring := removeKeyringName s.dynKeyring (cfg.principalName key)
          policy := s.policy.revokePrincipal (cfg.principalName key) }
  | release {key : Key} {hash : Hash} :
      Takes cfg s ok (.releasing key hash) (.returned .failed) { s with codes := release s.codes hash }
  | delete {name : Name} : Enrolled s.table name →
      Takes cfg s ok (.deleting name) (.removing name) { s with table := deleteEnrolled s.table name }
  | remove {name : Name} :
      Takes cfg s ok (.removing name) (.revoking name) { s with dynKeyring := removeKeyringName s.dynKeyring name }
  | revoke {name : Name} :
      Takes cfg s ok (.revoking name) (.discounting name) { s with policy := s.policy.revokePrincipal name }
  | discount {name : Name} : Free (Call.locks cfg) s.calls .mu →
      Takes cfg s ok (.discounting name) (.returned (.deleted true)) { s with count := s.count - 1 }
  | sweep {code : Hash} {now : Int} :
      Takes cfg s ok (.sweeping code now) (.storing code now) { s with codes := sweep s.codes now }
  | store {code : Hash} {now : Int} : (¬ ∃ c ∈ s.codes, c.hash = code) →
      Takes cfg s ok (.storing code now) (.returned .code)
        { s with codes := s.codes ++ [⟨code, now + cfg.codesTTL, none⟩] }

variable {cfg : Config} {s t : Service} {i : Nat} {ok : Bool}

def Advances (cfg : Config) (s t : Service) (i : Nat) (ok : Bool) (c : Call) : Prop :=
  ∃ d u, Takes cfg s ok c d u ∧ t = { u with calls := s.calls.set i d }

theorem Passes.advances {c d : Call} (h : Passes cfg s ok c d) : Advances cfg s (s.goto i d) i ok c :=
  ⟨d, s, .passes h, rfl⟩

theorem acquire_advances {c d : Call} {l : Lock} (hPass : Free (Call.locks cfg) s.calls l → Passes cfg s ok c d)
    (h : acquire cfg s i l d = some t) : Advances cfg s t i ok c := by
  obtain ⟨hFree, h⟩ := Option.ite_none_right_eq_some.mp h
  cases h
  exact (hPass hFree).advances

theorem check_passes (cfg : Config) (s : Service) (ok : Bool) (key : Key) (token : Option Hash) :
    Passes cfg s ok (.checking key token) (check cfg s ok key token) := by
  unfold check
  split
  · exact .deny
  · split
    · exact .deny
    · rename_i hRoom
      split
      · exact .coded hRoom
      · exact .uncoded hRoom

theorem advance_takes {c : Call} (h : advance cfg s i ok c = some t) : Advances cfg s t i ok c := by
  cases c with
  | arrived key token => exact acquire_advances .enter h
  | looking key token =>
    rw [advance] at h
    split at h
    · split at h <;> rename_i hRow <;> cases h
      · exact Passes.known.advances
      · exact (Passes.unknown hRow).advances
    · cases h
      exact Passes.known.advances
  | checking key token =>
    cases h
    exact (check_passes cfg s ok key token).advances
  | consuming key hash =>
    rw [advance] at h
    split at h
    · split at h <;> rename_i hValid <;> cases h
      · exact ⟨_, _, .consume hValid, rfl⟩
      · exact Passes.spent.advances
    · cases h
      exact Passes.spent.advances
  | putting key code =>
    rw [advance] at h
    split at h <;> rename_i hPut <;> cases h
    · exact ⟨_, _, .put hPut.2, rfl⟩
    · exact Passes.notPut.advances
  | adding key code =>
    cases h
    exact ⟨_, _, .add, rfl⟩
  | granting key code =>
    cases h
    exact ⟨_, _, .grant, rfl⟩
  | unwinding hash =>
    cases h
    cases ok
    · exact Passes.unreleased.advances
    · exact ⟨_, _, .unwind, rfl⟩
  | enrolled key code => exact acquire_advances .gate h
  | confirming key code =>
    rw [advance] at h
    split at h <;> rename_i hFound <;> cases h
    · exact (Passes.confirmed hFound.2).advances
    · exact Passes.unconfirmed.advances
  | provisioning key code =>
    rw [advance] at h
    split at h <;> cases h
    · exact ⟨_, _, .provision, rfl⟩
    · exact Passes.unprovisioned.advances
  | failing key code => exact acquire_advances .failing h
  | rollingBack key code =>
    rw [advance] at h
    split at h <;> rename_i hErase <;> cases h
    · exact ⟨_, _, .rollback hErase.2, rfl⟩
    · refine (Passes.notErased ?_).advances
      cases ok
      · exact .inl rfl
      · exact .inr fun hIn => hErase ⟨rfl, hIn⟩
  | purging key code =>
    cases h
    exact ⟨_, _, .purge, rfl⟩
  | releasing key hash =>
    cases h
    cases ok
    · exact Passes.unreturned.advances
    · exact ⟨_, _, .release, rfl⟩
  | deleteArrived name => exact acquire_advances .deleteGate h
  | dropping name =>
    rw [advance] at h
    split at h <;> cases h
    · exact Passes.busy.advances
    · exact Passes.dropped.advances
  | deleting name =>
    rw [advance] at h
    split at h
    · split at h <;> rename_i hIn <;> cases h
      · exact ⟨_, _, .delete hIn, rfl⟩
      · exact (Passes.notDeleted (by decide)).advances
    · cases h
      exact (Passes.notDeleted (by decide)).advances
  | removing name =>
    cases h
    exact ⟨_, _, .remove, rfl⟩
  | revoking name =>
    cases h
    exact ⟨_, _, .revoke, rfl⟩
  | discounting name =>
    obtain ⟨hFree, h⟩ := Option.ite_none_right_eq_some.mp h
    cases h
    exact ⟨_, _, .discount hFree, rfl⟩
  | sweeping code now =>
    cases h
    cases ok
    · exact Passes.unswept.advances
    · exact ⟨_, _, .sweep, rfl⟩
  | storing code now =>
    rw [advance] at h
    split at h <;> rename_i hNew <;> cases h
    · exact ⟨_, _, .store hNew.2, rfl⟩
    · exact Passes.unstored.advances
  | returned answer => cases h

/-- Any action adds a call at its beginning, moves the clock, or is a step of a call. -/
inductive Acts (cfg : Config) (s : Service) : Action → Service → Prop
  | enroll {key : Key} {token : Option Hash} : Acts cfg s (.enroll key token) (s.start (.arrived key token))
  | delete {name : Name} : Acts cfg s (.delete name) (s.start (.deleteArrived name))
  | mintCode {code : Hash} : Acts cfg s (.mintCode code) (s.start (.sweeping code s.clock))
  | tick {d : Nat} : Acts cfg s (.tick d) { s with clock := s.clock + d }
  | step {i : Nat} {ok : Bool} {c d : Call} {u : Service} : s.calls[i]? = some c → Takes cfg s ok c d u →
      Acts cfg s (.step i ok) { u with calls := s.calls.set i d }

theorem step_acts {a : Action} (h : step cfg s a = some t) : Acts cfg s a t := by
  cases a with
  | enroll key token =>
    cases h
    exact .enroll
  | delete name =>
    cases h
    exact .delete
  | mintCode code =>
    obtain ⟨-, h⟩ := Option.ite_none_right_eq_some.mp h
    cases h
    exact .mintCode
  | tick d =>
    cases h
    exact .tick
  | step i ok =>
    obtain ⟨c, hc, h⟩ := Option.bind_eq_some_iff.mp h
    obtain ⟨d, u, hTakes, rfl⟩ := advance_takes h
    exact .step hc hTakes

/-! ## Locks -/

theorem Passes.locks {c d : Call} (h : Passes cfg s ok c d) :
    ∀ l ∈ d.locks cfg, l ∈ c.locks cfg ∨ Free (Call.locks cfg) s.calls l := by
  intro l hl
  cases h with
  | enter hFree | gate hFree | deleteGate hFree =>
    cases List.mem_singleton.mp hl
    exact .inr hFree
  | failing hFree =>
    rcases List.mem_cons.mp hl with rfl | hMu
    · exact .inl (List.mem_singleton_self _)
    · cases List.mem_singleton.mp hMu
      exact .inr hFree
  | @notPut key code => cases code <;> cases hl
  | unknown | coded | uncoded | confirmed | unconfirmed | unprovisioned | notErased | dropped => exact .inl hl
  | _ => cases hl

theorem Takes.locks {c d : Call} {u : Service} (h : Takes cfg s ok c d u) :
    ∀ l ∈ d.locks cfg, l ∈ c.locks cfg ∨ Free (Call.locks cfg) s.calls l := by
  intro l hl
  cases h with
  | passes hPass => exact hPass.locks l hl
  | @grant key code =>
    unfold afterGrants at hl
    split at hl <;> cases hl
  | @purge key code =>
    cases code with
    | none => cases hl
    | some hash =>
      cases List.mem_singleton.mp hl
      exact .inl List.mem_cons_self
  | consume | put | add | rollback | delete | remove | revoke => exact .inl hl
  | _ => cases hl

end Service

end QuicSql.Enroll
