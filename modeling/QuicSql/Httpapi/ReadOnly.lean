import QuicSql.Lib.Pool
import QuicSql.Authz.Policy
import QuicSql.Backend.Conn
import QuicSql.Session.Moves

/-!
# Read-only requests

The level of a request is resolved when it arrives; the mode of a stream's
connection is set when the stream is opened. The system here runs policy
changes, native queries and stream requests in any order and records, for every
statement, the level of its request and the connection it started on.
-/

namespace QuicSql.Httpapi

open Lib Authz Backend

structure Handler where
  codec : Sessions.Codec
  attachAllowed : Bool
  serverAdmins : String → Bool

/-- A statement that was run: the level `authorize` had returned for its request, and
the connection as the statement found it. -/
structure Ran where
  level : Level
  conn : Conn

/-- The store and its requests, with each request's level and the state of each
session's pinned connection. -/
structure State where
  policy : Policy
  sessions : Sessions.State
  level : Nat → Level
  conn : Sessions.Ptr → Conn
  ran : List Ran

/-- No result when the request is answered with 403. -/
def authorize (policy : Policy) (principal db : String) : Option Level :=
  let lvl := policy.level principal db
  if lvl.canRead then some lvl else none

/-- What `Handler.stream` does with a request: resume with a baton, else open. -/
def streamOp (h : Handler) (db principal : String) (baton : Option String) (level : Level) : Sessions.Op :=
  let attach := h.attachAllowed && level.canWrite && h.serverAdmins principal
  match baton with
  | some b => if b ≠ "" then .resume b db principal else .stream ⟨db, principal, !level.canWrite, attach⟩
  | none => .stream ⟨db, principal, !level.canWrite, attach⟩

def enterMode (o : Sessions.Open) (c : Conn) : Conn :=
  if o.readOnly then (c.setConnMode true ⟨true, true⟩).1
  else if o.attach then (c.setConnAttach true).1
  else c

def trace (c : Conn) : List (Stmt × Bool) → List Conn
  | [] => []
  | (stmt, ok) :: rest => c :: trace (c.exec stmt ok).1 rest

/-- `handleQuery`: a level that cannot write runs on a borrowed read-only connection. -/
def runQuery (level : Level) (c : Conn) (enter : Outcome) (stmts : List (Stmt × Bool)) : List Ran :=
  if level.canWrite then (trace c stmts).map (Ran.mk level)
  else
    match c.setConnMode true enter with
    | (c', true) => (trace c' stmts).map (Ran.mk level)
    | (_, false) => []

inductive Action where
  | grant (db principal : String) (level : Level)
  | revoke (db : String)
  | revokePrincipal (principal : String)
  | query (db principal : String) (c : Conn) (enter : Outcome) (stmts : List (Stmt × Bool))
  | stream (db principal : String) (baton : Option String)
  | exec (i : Nat) (stmt : Stmt) (ok : Bool)
  | register (i : Nat) (id : Sessions.SessionId) (c : Conn)
  | session (act : Sessions.Action)

def internal : Sessions.Action → Bool
  | .call (.stream _) | .call (.resume _ _ _) | .step _ (.generated _) => false
  | _ => true

def step (h : Handler) (s : State) : Action → Option State
  | .grant db principal level => some { s with policy := s.policy.grant db principal level }
  | .revoke db => some { s with policy := s.policy.revoke db }
  | .revokePrincipal principal => some { s with policy := s.policy.revokePrincipal principal }
  | .query db principal c enter stmts =>
    match authorize s.policy principal db with
    | none => some s
    | some level => some { s with ran := s.ran ++ runQuery level c enter stmts }
  | .stream db principal baton =>
    match authorize s.policy principal db with
    | none => some s
    | some level =>
      some { s with
        sessions := { s.sessions with calls := s.sessions.calls ++ [(streamOp h db principal baton level).start] }
        level := Function.update s.level s.sessions.calls.length level }
  | .exec i stmt ok =>
    match s.sessions.calls[i]? with
    | some (.serving p) =>
      some { s with
        ran := s.ran ++ [⟨s.level i, s.conn p⟩]
        conn := Function.update s.conn p ((s.conn p).exec stmt ok).1 }
    | _ => none
  | .register i id c =>
    match s.sessions.calls[i]? with
    | some (.register o ref pinned) =>
      some { s with
        sessions := { s.sessions with
          store := s.sessions.store.insertSession (o.session ref pinned id s.sessions.store.now)
          calls := s.sessions.calls.set i (.serving s.sessions.store.nextPtr) }
        conn := Function.update s.conn s.sessions.store.nextPtr (enterMode o c) }
    | _ => none
  | .session act =>
    if internal act then (Sessions.step h.codec s.sessions act).map (fun t => { s with sessions := t })
    else none

def init (isOpen : Bool) (ttl maxLife : Sessions.Time) (max : Int) : State where
  policy := newPolicy isOpen
  sessions := Sessions.init ttl maxLife max
  level := fun _ => .none
  conn := fun _ => Conn.fresh
  ran := []

def ReadersConfined (s : State) : Prop := ∀ e ∈ s.ran, e.level.canWrite = false → e.conn.ReadOnly

/-! ## What keeps readers confined -/

/-- The call is not a Resume about to hand a writable stream to a reader. -/
def keepsMode (h : Handler) (s : State) (i : Nat) : Bool :=
  match s.sessions.calls[i]? with
  | some (.resume baton db principal) =>
    match (s.sessions.store.resume h.codec baton db principal).2 with
    | .ok p => (s.level i).canWrite || (s.sessions.store.heap p).readOnly
    | .error _ => true
  | _ => true

def servesReader (s : State) (i : Nat) : Bool :=
  match s.sessions.calls[i]? with
  | some (.serving p) => (s.sessions.store.heap p).readOnly
  | _ => false

/-- No request that may not write resumes a stream opened for writing, and no statement
on a read-only connection turns query_only off past the guard. -/
def Undisturbed (h : Handler) (s : State) : Action → Prop
  | .session (.step i .next) => keepsMode h s i = true
  | .exec i stmt ok => servesReader s i = true → (ok && stmt.unlocks) = false
  | .query db principal _ _ stmts => (s.policy.level principal db).canWrite = false →
      ∀ e ∈ stmts, (e.2 && e.1.unlocks) = false
  | _ => True

instance (h : Handler) (s : State) : ∀ act, Decidable (Undisturbed h s act)
  | .session (.step i .next) => inferInstanceAs (Decidable (keepsMode h s i = true))
  | .exec i stmt ok =>
    inferInstanceAs (Decidable (servesReader s i = true → (ok && stmt.unlocks) = false))
  | .query db principal _ _ stmts =>
    inferInstanceAs (Decidable ((s.policy.level principal db).canWrite = false →
      ∀ e ∈ stmts, (e.2 && e.1.unlocks) = false))
  | .session (.call _) | .session (.teardown _) | .session (.tick _) | .session (.step _ (.pinned _))
  | .session (.step _ (.generated _)) | .session (.step _ (.fail _)) | .session (.step _ (.range _))
  | .session (.step _ .peek) | .session (.step _ .baton) | .session (.step _ .close)
  | .grant _ _ _ | .revoke _ | .revokePrincipal _ | .stream _ _ _ | .register _ _ _ =>
    inferInstanceAs (Decidable True)

theorem admits_on (c : Conn) : c.admits (.pragma "query_only" (some "ON")) = true := by
  by_cases hAuth : c.authorizer = .denyWrites
  · rw [admits_query_only hAuth (by decide)]
    decide
  · exact admits_pragma hAuth _ _

theorem readOnly_of_setConnMode (c : Conn) (enter : Outcome) (h : (c.setConnMode true enter).2 = true) :
    (c.setConnMode true enter).1.ReadOnly := by
  obtain ⟨pragma, swap⟩ := enter
  cases pragma with
  | false => simp [Conn.setConnMode, Conn.exec] at h
  | true =>
    cases swap with
    | false => simp [Conn.setConnMode, Conn.exec, admits_on, Conn.setAuthorizer] at h
    | true =>
      have hName : isQueryOnly "query_only" = true := by decide
      have hOn : sqliteBool "ON" = true := by decide
      simp [Conn.setConnMode, Conn.exec, admits_on, Conn.setAuthorizer, Conn.apply, Conn.ReadOnly, hName, hOn]

theorem readOnly_of_trace {c : Conn} (hMode : c.ReadOnly) {stmts : List (Stmt × Bool)}
    (h : ∀ e ∈ stmts, (e.2 && e.1.unlocks) = false) : ∀ c' ∈ trace c stmts, c'.ReadOnly := by
  induction stmts generalizing c with
  | nil => simp [trace]
  | cons e rest ih =>
    intro c' hc'
    rcases List.mem_cons.mp hc' with rfl | hc'
    · exact hMode
    · exact ih (hMode.exec (h e List.mem_cons_self)) (fun e' he' => h e' (List.mem_cons_of_mem _ he')) c' hc'

theorem confined_runQuery {level : Level} {c : Conn} {enter : Outcome} {stmts : List (Stmt × Bool)}
    (h : level.canWrite = false → ∀ e ∈ stmts, (e.2 && e.1.unlocks) = false) :
    ∀ e ∈ runQuery level c enter stmts, e.level.canWrite = false → e.conn.ReadOnly := by
  intro e he hReader
  unfold runQuery at he
  split at he
  · rename_i hWrite
    obtain ⟨c', _, rfl⟩ := List.mem_map.mp he
    rw [hWrite] at hReader
    cases hReader
  · split at he
    · rename_i c' hMode
      obtain ⟨c'', hc'', rfl⟩ := List.mem_map.mp he
      have hEnter := readOnly_of_setConnMode c enter (by rw [hMode])
      rw [hMode] at hEnter
      exact readOnly_of_trace hEnter (h hReader) c'' hc''
    · cases he

/-! ## The invariant -/

structure Confined (s : State) : Prop where
  ran : ReadersConfined s
  live : ∀ id p, s.sessions.store.sessions.lookup id = some p → p < s.sessions.store.nextPtr
  readers : ∀ p, p < s.sessions.store.nextPtr → (s.sessions.store.heap p).readOnly = true →
    (s.conn p).ReadOnly
  opening : ∀ i c o, s.sessions.calls[i]? = some c → c.opener = some o →
    (s.level i).canWrite = !o.readOnly
  serving : ∀ i p, s.sessions.calls[i]? = some (.serving p) → p < s.sessions.store.nextPtr ∧
    ((s.level i).canWrite = false → (s.sessions.store.heap p).readOnly = true)

/-- The store moved on: sessions may have gone, the ones that exist kept their mode. -/
structure StoreKept (st st' : Sessions.Store) : Prop where
  live : ∀ id p, st'.sessions.lookup id = some p → st.sessions.lookup id = some p
  nextPtr : st'.nextPtr = st.nextPtr
  readOnly : ∀ p, (st'.heap p).readOnly = (st.heap p).readOnly

theorem StoreKept.refl (st : Sessions.Store) : StoreKept st st := ⟨fun _ _ h => h, rfl, fun _ => rfl⟩

theorem StoreKept.of_frame {st st' : Sessions.Store} (h : Sessions.EvictFrame st st') : StoreKept st st' :=
  ⟨h.live, h.nextPtr, fun p => by rw [h.heap]⟩

theorem StoreKept.setSession {st : Sessions.Store} {p : Sessions.Ptr} {session : Sessions.Session}
    (h : session.readOnly = (st.heap p).readOnly) : StoreKept st (st.setSession p session) := by
  exact ⟨fun _ _ hLookup => hLookup, rfl, Sessions.Store.setSession_field Sessions.Session.readOnly h⟩

/-- Calls in the new list come from calls of the old one that had at least their
session and their arguments. -/
theorem Confined.of_storeKept {s t : State} (hConf : Confined s) (hRan : t.ran = s.ran)
    (hConn : t.conn = s.conn) (hLevel : t.level = s.level)
    (hStore : StoreKept s.sessions.store t.sessions.store)
    (hOpening : ∀ i c o, t.sessions.calls[i]? = some c → c.opener = some o →
      (s.level i).canWrite = !o.readOnly)
    (hServing : ∀ i p, t.sessions.calls[i]? = some (.serving p) → p < s.sessions.store.nextPtr ∧
      ((s.level i).canWrite = false → (s.sessions.store.heap p).readOnly = true)) : Confined t where
  ran := by
    unfold ReadersConfined
    rw [hRan]
    exact hConf.ran
  live id p hLookup := by
    rw [hStore.nextPtr]
    exact hConf.live id p (hStore.live id p hLookup)
  readers p hp hReader := by
    rw [hStore.nextPtr] at hp
    rw [hStore.readOnly] at hReader
    rw [hConn]
    exact hConf.readers p hp hReader
  opening i c o hc ho := by
    rw [hLevel]
    exact hOpening i c o hc ho
  serving i p hp := by
    rw [hLevel, hStore.nextPtr, hStore.readOnly]
    exact hServing i p hp

theorem storeKept_of_move {codec : Sessions.Codec} {s t : Sessions.State} {c c' : Sessions.Call}
    {choice : Sessions.Choice} (h : Sessions.Move codec s c choice t c')
    (hChoice : ∀ id, choice ≠ .generated id) : StoreKept s.store t.store := by
  cases h with
  | quiet _ _ _ _ | obtain o | reserve o ref _ | randFailed o ref conn detail | dropRef ref err =>
    exact ⟨fun _ _ h => h, rfl, fun _ => rfl⟩
  | register o ref conn id => exact absurd rfl (hChoice id)
  | giveBack o ref err =>
    refine ⟨fun id p hp => ?_, Sessions.releaseSlot_nextPtr _, fun p => ?_⟩
    · rwa [Sessions.releaseSlot_sessions] at hp
    · rw [Sessions.releaseSlot_heap]
  | resume baton db principal _ _ _ => exact .setSession rfl
  | evict hEvicts _ _ _ _ => exact .of_frame hEvicts.frame
  | baton p => exact .setSession rfl
  | close p hp => exact .of_frame (Sessions.evictFrame_closeLocked _ _)

theorem Confined.move {h : Handler} {s : State} {t : Sessions.State} {i : Nat} {c c' : Sessions.Call}
    {choice : Sessions.Choice} (hConf : Confined s) (hc : s.sessions.calls[i]? = some c)
    (hKeeps : choice = .next → keepsMode h s i = true) (hChoice : ∀ id, choice ≠ .generated id)
    (hMove : Sessions.Move h.codec s.sessions c choice t c') :
    Confined { s with sessions := { t with calls := s.sessions.calls.set i c' } } := by
  have hStore : StoreKept s.sessions.store t.store := storeKept_of_move hMove hChoice
  refine hConf.of_storeKept rfl rfl rfl hStore ?_ ?_
  · intro j d o hd ho
    rcases getElem?_set_cases hd with ⟨rfl, rfl⟩ | ⟨_, hOld⟩
    · have hSame : c.opener = some o := by
        cases hMove with
        | quiet _ _ _ hOpener => exact hOpener o ho
        | evict _ _ _ _ hOpener => exact absurd ho (hOpener o)
        | obtain o' | reserve o' ref _ => exact ho
        | _ => cases ho
      exact hConf.opening i c o hc hSame
    · exact hConf.opening j d o hOld ho
  · intro j p hp
    rcases getElem?_set_cases hp with ⟨rfl, hEq⟩ | ⟨_, hOld⟩
    · subst hEq
      have hStill : c.serves p = true → c = .serving p := by
        intro hServes
        cases c with
        | serving q =>
          obtain rfl : q = p := by simpa [Sessions.Call.serves] using hServes
          rfl
        | _ => cases hServes
      have hSelf : (Sessions.Call.serving p).serves p = true := by simp [Sessions.Call.serves]
      cases hMove with
      | quiet _ _ hServes _ =>
        obtain rfl := hStill (by rw [← hServes]; exact hSelf)
        exact hConf.serving i p hc
      | evict _ _ _ hServes _ =>
        obtain rfl := hStill (by rw [← hServes]; exact hSelf)
        exact hConf.serving i p hc
      | register o ref conn id => exact absurd rfl (hChoice id)
      | resume baton db principal hVerify hAccepts hOk =>
        have hMode := hKeeps rfl
        simp only [keepsMode, hc, hOk, Bool.or_eq_true] at hMode
        refine ⟨hConf.live _ p hAccepts.lookup, fun hReader => ?_⟩
        rcases hMode with hWrite | hRead
        · rw [hReader] at hWrite
          cases hWrite
        · exact hRead
    · exact hConf.serving j p hOld

theorem Confined.session {h : Handler} {s : State} {t : Sessions.State} {act : Sessions.Action}
    (hConf : Confined s) (hInternal : internal act = true) (hKeeps : Undisturbed h s (.session act))
    (hStep : Sessions.step h.codec s.sessions act = some t) : Confined { s with sessions := t } := by
  cases act with
  | call op =>
    cases hStep
    have hStart : op.start.opener = none ∧ ∀ p, op.start ≠ .serving p := by
      cases op with
      | stream o | resume baton db principal => cases hInternal
      | _ => exact ⟨rfl, nofun⟩
    refine hConf.of_storeKept rfl rfl rfl (.refl _) ?_ ?_
    · intro j c o hc ho
      rcases getElem?_append_cases hc with ⟨_, rfl⟩ | ⟨_, hOld⟩
      · rw [hStart.1] at ho
        cases ho
      · exact hConf.opening j c o hOld ho
    · intro j p hp
      rcases getElem?_append_cases hp with ⟨_, hEq⟩ | ⟨_, hOld⟩
      · exact absurd hEq.symm (hStart.2 p)
      · exact hConf.serving j p hOld
  | tick elapsed =>
    cases hStep
    exact hConf.of_storeKept rfl rfl rfl ⟨fun _ _ h => h, rfl, fun _ => rfl⟩ hConf.opening hConf.serving
  | teardown i =>
    simp only [Sessions.step, Sessions.teardownStep] at hStep
    split at hStep
    · cases hStep
    · cases hStep
      exact hConf.of_storeKept rfl rfl rfl ⟨fun _ _ h => h, rfl, fun _ => rfl⟩ hConf.opening hConf.serving
  | step i choice =>
    simp only [Sessions.step] at hStep
    split at hStep
    · cases hStep
    · rename_i c hc
      split at hStep
      · cases hStep
      · rename_i t' c' hCall
        cases hStep
        refine hConf.move hc ?_ ?_ (Sessions.callStep_move hCall)
        · rintro rfl
          exact hKeeps
        · rintro id rfl
          cases hInternal

theorem Confined.register {s : State} {i : Nat} {o : Sessions.Open} {ref : Sessions.Ref}
    {pinned : Sessions.ConnId} (hConf : Confined s)
    (hc : s.sessions.calls[i]? = some (.register o ref pinned)) (id : Sessions.SessionId) (c : Conn) :
    Confined { s with
      sessions := { s.sessions with
        store := s.sessions.store.insertSession (o.session ref pinned id s.sessions.store.now)
        calls := s.sessions.calls.set i (.serving s.sessions.store.nextPtr) }
      conn := Function.update s.conn s.sessions.store.nextPtr (enterMode o c) } := by
  constructor
  · exact hConf.ran
  · exact Sessions.ptrs_insertSession _ hConf.live
  · intro p hp hReader
    dsimp only at hReader ⊢
    rcases Nat.lt_succ_iff_lt_or_eq.mp hp with hp | rfl
    · rw [Sessions.insertSession_of_lt _ hp] at hReader
      rw [Function.update_of_ne (Nat.ne_of_lt hp)]
      exact hConf.readers p hp hReader
    · rw [Sessions.insertSession_self] at hReader
      rw [Function.update_self]
      have hRead : o.readOnly = true := hReader
      unfold enterMode
      rw [if_pos hRead]
      apply readOnly_of_setConnMode
      simp [Conn.setConnMode, Conn.exec, admits_on, Conn.setAuthorizer]
  · intro j d o' hd ho
    rcases getElem?_set_cases hd with ⟨_, rfl⟩ | ⟨_, hPrev⟩
    · cases ho
    · exact hConf.opening j d o' hPrev ho
  · intro j p hp
    rcases getElem?_set_cases hp with ⟨rfl, hEq⟩ | ⟨_, hPrev⟩
    · obtain rfl := Sessions.Call.serving.inj hEq
      refine ⟨Nat.lt_succ_self _, fun hReader => ?_⟩
      dsimp only at hReader ⊢
      rw [hConf.opening i _ o hc rfl] at hReader
      rw [Sessions.insertSession_self]
      have hRead : o.readOnly = true := by simpa using hReader
      exact hRead
    · obtain ⟨hp, hRead⟩ := hConf.serving j p hPrev
      refine ⟨Nat.lt_succ_of_lt hp, fun hReader => ?_⟩
      dsimp only
      rw [Sessions.insertSession_of_lt _ hp]
      exact hRead hReader

theorem Confined.exec {s : State} {i : Nat} {p : Sessions.Ptr} {stmt : Stmt} {ok : Bool}
    (hConf : Confined s) (hc : s.sessions.calls[i]? = some (.serving p))
    (hLocked : (s.sessions.store.heap p).readOnly = true → (ok && stmt.unlocks) = false) :
    Confined { s with
      ran := s.ran ++ [⟨s.level i, s.conn p⟩]
      conn := Function.update s.conn p ((s.conn p).exec stmt ok).1 } := by
  obtain ⟨hp, hRead⟩ := hConf.serving i p hc
  refine ⟨?_, hConf.live, ?_, hConf.opening, hConf.serving⟩
  · intro e he hReader
    rcases List.mem_append.mp he with he | he
    · exact hConf.ran e he hReader
    · obtain rfl := List.mem_singleton.mp he
      exact hConf.readers p hp (hRead hReader)
  · intro q hq hReader
    dsimp only
    by_cases hEq : q = p
    · subst hEq
      rw [Function.update_self]
      exact (hConf.readers q hq hReader).exec (hLocked hReader)
    · rw [Function.update_of_ne hEq]
      exact hConf.readers q hq hReader

theorem Confined.stream {h : Handler} {s : State} (hConf : Confined s) (db principal : String)
    (baton : Option String) (level : Level) :
    Confined { s with
      sessions := { s.sessions with calls := s.sessions.calls ++ [(streamOp h db principal baton level).start] }
      level := Function.update s.level s.sessions.calls.length level } := by
  have hStart : ∀ o, (streamOp h db principal baton level).start.opener = some o →
      o.readOnly = !level.canWrite := by
    intro o ho
    unfold streamOp at ho
    split at ho
    · split at ho <;> cases ho
      rfl
    · cases ho
      rfl
  have hNot : ∀ p, (streamOp h db principal baton level).start ≠ .serving p := by
    intro p
    unfold streamOp
    split
    · split <;> nofun
    · nofun
  refine ⟨hConf.ran, hConf.live, hConf.readers, ?_, ?_⟩
  · intro j c o hc ho
    dsimp only
    rcases getElem?_append_cases hc with ⟨rfl, rfl⟩ | ⟨hj, hOld⟩
    · rw [Function.update_self, hStart o ho, Bool.not_not]
    · rw [Function.update_of_ne (Nat.ne_of_lt hj)]
      exact hConf.opening j c o hOld ho
  · intro j p hp
    dsimp only
    rcases getElem?_append_cases hp with ⟨_, hEq⟩ | ⟨hj, hOld⟩
    · exact absurd hEq.symm (hNot p)
    · rw [Function.update_of_ne (Nat.ne_of_lt hj)]
      exact hConf.serving j p hOld

/-! ## Every run -/

theorem Confined.step {h : Handler} {s t : State} {act : Action} (hConf : Confined s)
    (hKept : Undisturbed h s act) (hStep : step h s act = some t) : Confined t := by
  cases act with
  | grant db principal level | revoke db | revokePrincipal principal =>
    cases hStep
    exact ⟨hConf.ran, hConf.live, hConf.readers, hConf.opening, hConf.serving⟩
  | query db principal c enter stmts =>
    simp only [Httpapi.step, authorize] at hStep
    split at hStep
    · cases hStep
      exact hConf
    · rename_i level hLevel
      cases hStep
      obtain rfl : s.policy.level principal db = level := by
        split at hLevel <;> cases hLevel
        rfl
      refine ⟨?_, hConf.live, hConf.readers, hConf.opening, hConf.serving⟩
      intro e he
      rcases List.mem_append.mp he with he | he
      · exact hConf.ran e he
      · exact confined_runQuery hKept e he
  | stream db principal baton =>
    simp only [Httpapi.step] at hStep
    split at hStep
    · cases hStep
      exact hConf
    · cases hStep
      exact hConf.stream db principal baton _
  | exec i stmt ok =>
    simp only [Httpapi.step] at hStep
    split at hStep
    · rename_i p hc
      cases hStep
      apply hConf.exec hc
      intro hReader
      apply hKept
      simp only [servesReader, hc]
      exact hReader
    · cases hStep
  | register i id c =>
    simp only [Httpapi.step] at hStep
    split at hStep
    · rename_i o ref pinned hc
      cases hStep
      exact hConf.register hc id c
    · cases hStep
  | session act =>
    simp only [Httpapi.step] at hStep
    split at hStep
    · rename_i hInternal
      obtain ⟨t', ht', rfl⟩ := Option.map_eq_some_iff.mp hStep
      exact hConf.session hInternal hKept ht'
    · cases hStep

theorem confined_init (isOpen : Bool) (ttl maxLife : Sessions.Time) (max : Int) :
    Confined (init isOpen ttl maxLife max) := by
  constructor <;> simp [init, Sessions.init, Sessions.newStore, ReadersConfined]

/-- As long as no reader resumes a stream opened for writing and no read-only
connection is unlocked, every statement of a reader runs in read-only mode. -/
theorem readers_confined (h : Handler) (isOpen : Bool) (ttl maxLife : Sessions.Time) (max : Int)
    (actions : List Action)
    (hKept : Guarded (step h) (Undisturbed h) (init isOpen ttl maxLife max) actions) :
    Always (step h) ReadersConfined (init isOpen ttl maxLife max) actions :=
  (always_of_guarded (fun _ _ _ hConf hAct hStep => Confined.step hConf hAct hStep)
    (confined_init isOpen ttl maxLife max) hKept).mono (fun _ hConf => hConf.ran)

def plainHandler : Handler := ⟨Sessions.plainCodec, false, fun _ => false⟩

def opening (i : Nat) (id : Sessions.SessionId) : List Action :=
  [.session (.step i .next), .session (.step i .next), .session (.step i (.pinned i)),
   .session (.step i .next), .register i id Conn.fresh]

def insertRow : Stmt := .other [(.insert, "t", "")]

/-- A writer and a reader each open a stream; the writer resumes and inserts, the
reader's insert is refused on its read-only connection. -/
def writerAndReader : List Action :=
  [.grant "d" "alice" .readWrite, .grant "d" "*" .readOnly, .stream "d" "alice" none] ++
  opening 0 Sessions.sampleId ++
  [.session (.step 0 .baton), .stream "d" "alice" (some (Sessions.mint Sessions.plainCodec Sessions.sampleId 1)),
   .session (.step 1 .next), .exec 1 insertRow true, .stream "d" "bob" none] ++
  opening 2 ⟨List.replicate Sessions.idLen 9, rfl⟩ ++
  [.exec 2 insertRow true, .query "d" "bob" Conn.fresh ⟨true, true⟩ [(insertRow, true)]]

theorem writerAndReader_confined :
    (run (step plainHandler) (init false 0 0 0) writerAndReader).map (fun s => s.ran.length) = some 3 ∧
    Guarded (step plainHandler) (Undisturbed plainHandler) (init false 0 0 0) writerAndReader ∧
    Always (step plainHandler) ReadersConfined (init false 0 0 0) writerAndReader := by
  have hUndisturbed : Guarded (step plainHandler) (Undisturbed plainHandler) (init false 0 0 0) writerAndReader := by
    decide +kernel
  exact ⟨by decide +kernel, hUndisturbed, readers_confined plainHandler false 0 0 0 writerAndReader hUndisturbed⟩

/-- A principal opens a stream for writing, loses its own grant but not the wildcard's,
and resumes the stream. -/
def downgraded : List Action :=
  [.grant "d" "alice" .readWrite, .grant "d" "*" .readOnly, .stream "d" "alice" none] ++
  opening 0 Sessions.sampleId ++
  [.session (.step 0 .baton), .revokePrincipal "alice",
   .stream "d" "alice" (some (Sessions.mint Sessions.plainCodec Sessions.sampleId 1)),
   .session (.step 1 .next), .exec 1 insertRow true]

theorem downgraded_not_confined :
    ¬ Always (step plainHandler) ReadersConfined (init false 0 0 0) downgraded := by
  intro hAlways
  have hRun : (run (step plainHandler) (init false 0 0 0) downgraded).map
      (fun s => s.ran.map (fun e => (e.level, e.conn))) = some [(.readOnly, Conn.fresh)] := by decide +kernel
  obtain ⟨s, hs, hRan⟩ := Option.map_eq_some_iff.mp hRun
  obtain ⟨e, he, hEq⟩ := List.map_eq_singleton_iff.mp hRan
  obtain ⟨hLevel, hConn⟩ := Prod.mk.inj hEq
  have hMode := hAlways.final hs e (by simp [he]) (by rw [hLevel]; rfl)
  rw [hConn] at hMode
  cases hMode.1

end QuicSql.Httpapi
