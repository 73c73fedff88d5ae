import QuicSql.Client.Transaction
import QuicSql.Lib.Pool
import QuicSql.Session.Moves

/-!
# The thread of a transaction

A generation of a session is used up by the request that resumes it, and the
stream never goes back to an older one. The invariant follows the session that
answered BEGIN: which batons the requests carry, at which generation each of them
is handled, and what the answers tell the client.
-/

namespace QuicSql.Driver

open Lib Sessions

variable {cfg : Config} {d d' : State} {st st' : Store}

/-! ## The invariant -/

def Holds (cfg : Config) (d : State) (baton : Option String) (gen : Nat) : Prop :=
  ∃ p ∈ d.owned, d.client.thread = some p ∧
    baton = some (mint cfg.codec.toCodec (d.store.heap p).id gen) ∧ 0 < gen ∧ gen < 2 ^ 64

def Begun (d : State) : Prop :=
  ∃ p, d.client.thread = some p ∧
    ∃ e ∈ d.log, e.sql = .begin ∧ e.ok = true ∧ e.session = some p ∧ e.gen = 1

def Ran (d : State) (k : Nat) : Prop :=
  ∃ p, d.client.thread = some p ∧
    ∃ e ∈ d.log, e.sql = .stmt k ∧ e.ok = true ∧ e.session = some p ∧ e.gen ≤ d.client.gen

def Settled (d : State) (sql : Sql) : Prop :=
  ∃ p, d.client.thread = some p ∧
    ∃ c ∈ d.log, c.sql = sql ∧ c.ok = true ∧ c.session = some p ∧
      ∀ k, (k, true) ∈ d.client.returned →
        ∃ e ∈ d.log, e.sql = .stmt k ∧ e.ok = true ∧ e.session = some p ∧ e.gen < c.gen

structure SentOk (cfg : Config) (d : State) (q : Request) : Prop where
  pipeline : q.stateless = false
  baton : (q.baton = none ∧ q.gen = 0 ∧ q.body = .execute .begin) ∨
    (Holds cfg d q.baton q.gen ∧ q.body ≠ .execute .begin)
  stmt : ∀ k, q.body = .execute (.stmt k) → Begun d ∧ k < d.client.next
  le : q.gen ≤ d.client.gen

/-- Later requests carry no older generation, and later statements have later numbers. -/
def Request.precedes (q q' : Request) : Prop :=
  q.gen ≤ q'.gen ∧ ∀ k k', q.body = .execute (.stmt k) → q'.body = .execute (.stmt k') → k < k'

structure Serves (d : State) (r : Nat) (q : Request) (p : Ptr) : Prop where
  sent : d.sent[r]? = some q
  owned : p ∈ d.owned
  thread : q.gen ≠ 0 → d.client.thread = some p

def ExecOk (d : State) (e : Exec) : Prop :=
  ∃ q p, Serves d e.request q p ∧ e.session = some p ∧ q.body = .execute e.sql ∧
    e.gen = q.gen + 1 ∧ e.gen ≤ (d.store.heap p).gen

structure JobAt (d : State) (j : Job) (q : Request) : Prop where
  serves : Serves d j.request q j.ptr
  busy : (d.store.heap j.ptr).busy = true
  gen : (d.store.heap j.ptr).gen = q.gen + 1
  below : (d.store.heap j.ptr).gen < 2 ^ 64
  pending : j.ran = none → ∀ e ∈ d.log, e.session = some j.ptr → e.gen < (d.store.heap j.ptr).gen
  ran : ∀ ok, j.ran = some ok →
    ∃ e ∈ d.log, q.body = .execute e.sql ∧ e.ok = ok ∧ e.session = some j.ptr ∧ e.gen = q.gen + 1

def JobOk (d : State) (j : Job) : Prop := j.active = true → ∃ q, JobAt d j q

def AnswerOk (cfg : Config) (d : State) (a : Answer) : Prop :=
  ∀ baton ok, a.reply = .answered baton ok →
    ∃ q, Serves d a.request q a.session ∧ ∀ sql, q.body = .execute sql →
      baton = some (mint cfg.codec.toCodec (d.store.heap a.session).id a.gen) ∧
      a.gen = q.gen + 1 ∧ a.gen < 2 ^ 64 ∧
      ∃ e ∈ d.log, e.sql = sql ∧ e.ok = ok ∧ e.session = some a.session ∧ e.gen = a.gen

def Asked (d : State) (r : Nat) (sql : Sql) : Prop :=
  ∃ q, d.sent[r]? = some q ∧ q.body = .execute sql ∧ q.gen = d.client.gen

def Streaming (cfg : Config) (d : State) : Prop :=
  Begun d ∧ ∃ s, d.client.tx = some s ∧ Holds cfg d s.baton d.client.gen

def PhaseOk (cfg : Config) (d : State) : Prop :=
  match d.client.phase with
  | .fresh => d.client.thread = none ∧ d.client.gen = 0
  | .beginning s r => s.baton = none ∧ d.client.thread = none ∧ d.client.gen = 0 ∧ Asked d r .begin
  | .dropping _ | .ended => True
  | .ready => Streaming cfg d
  | .running k r => Streaming cfg d ∧ Asked d r (.stmt k)
  | .finishing sql s r => Holds cfg d s.baton d.client.gen ∧ Asked d r sql
  | .closing sql ok _ | .finished sql ok => ok = true → Settled d sql

def Job.on (p : Ptr) (j : Job) : Bool := j.active && decide (j.ptr = p)

def Exec.before (e e' : Exec) : Prop := e.session = e'.session → e.gen < e'.gen

/-- The invariant, but for the place where the caller stands. -/
structure Threaded (cfg : Config) (d : State) : Prop where
  named : Named d.store
  owned : ∀ p ∈ d.owned, p < d.store.nextPtr
  sent : ∀ q ∈ d.sent, SentOk cfg d q
  calls : d.sent.Pairwise Request.precedes
  jobs : ∀ j ∈ d.jobs, JobOk d j
  one : ∀ p, d.jobs.countP (Job.on p) ≤ 1
  log : ∀ e ∈ d.log, ExecOk d e
  order : d.log.Pairwise Exec.before
  answers : ∀ a ∈ d.answers, AnswerOk cfg d a
  returned : ∀ k, (k, true) ∈ d.client.returned → Ran d k

/-! ## Growth -/

/-- Requests, statements and sessions are only added, and no generation goes back. -/
structure Grows (d d' : State) : Prop where
  sent : ∀ {r : Nat} {q : Request}, d.sent[r]? = some q → d'.sent[r]? = some q
  log : ∀ e ∈ d.log, e ∈ d'.log
  owned : ∀ p ∈ d.owned, p ∈ d'.owned
  id : ∀ p ∈ d.owned, (d'.store.heap p).id = (d.store.heap p).id
  gen : ∀ p ∈ d.owned, (d.store.heap p).gen ≤ (d'.store.heap p).gen
  thread : ∀ {p : Ptr}, d.client.thread = some p → d'.client.thread = some p
  held : d.client.gen ≤ d'.client.gen
  next : d.client.next ≤ d'.client.next

theorem Grows.trans {d'' : State} (h : Grows d d') (h' : Grows d' d'') : Grows d d'' where
  sent hq := h'.sent (h.sent hq)
  log e he := h'.log e (h.log e he)
  owned p hp := h'.owned p (h.owned p hp)
  id p hp := (h'.id p (h.owned p hp)).trans (h.id p hp)
  gen p hp := (h.gen p hp).trans (h'.gen p (h.owned p hp))
  thread hp := h'.thread (h.thread hp)
  held := h.held.trans h'.held
  next := h.next.trans h'.next

section Growth

variable (hGrows : Grows d d')
include hGrows

theorem Holds.mono {baton : Option String} {gen : Nat} (h : Holds cfg d baton gen) : Holds cfg d' baton gen := by
  obtain ⟨p, hp, hThread, hBaton, hGen⟩ := h
  refine ⟨p, hGrows.owned p hp, hGrows.thread hThread, ?_, hGen⟩
  rw [hGrows.id p hp]
  exact hBaton

theorem Begun.mono (h : Begun d) : Begun d' := by
  obtain ⟨p, hThread, e, he, hAt⟩ := h
  exact ⟨p, hGrows.thread hThread, e, hGrows.log e he, hAt⟩

theorem Ran.mono {k : Nat} (h : Ran d k) : Ran d' k := by
  obtain ⟨p, hThread, e, he, hSql, hOk, hSession, hGen⟩ := h
  exact ⟨p, hGrows.thread hThread, e, hGrows.log e he, hSql, hOk, hSession, hGen.trans hGrows.held⟩

theorem SentOk.mono {q : Request} (h : SentOk cfg d q) : SentOk cfg d' q where
  pipeline := h.pipeline
  baton := h.baton.imp_right (fun ⟨hHolds, hBody⟩ => ⟨hHolds.mono hGrows, hBody⟩)
  stmt k hBody := ⟨(h.stmt k hBody).1.mono hGrows, Nat.lt_of_lt_of_le (h.stmt k hBody).2 hGrows.next⟩
  le := h.le.trans hGrows.held

theorem Serves.mono {r : Nat} {q : Request} {p : Ptr} (h : Serves d r q p) : Serves d' r q p :=
  ⟨hGrows.sent h.sent, hGrows.owned p h.owned, fun hGen => hGrows.thread (h.thread hGen)⟩

theorem ExecOk.mono {e : Exec} (h : ExecOk d e) : ExecOk d' e := by
  obtain ⟨q, p, hServes, hSession, hBody, hGen, hLe⟩ := h
  exact ⟨q, p, hServes.mono hGrows, hSession, hBody, hGen, hLe.trans (hGrows.gen p hServes.owned)⟩

theorem AnswerOk.mono {a : Answer} (h : AnswerOk cfg d a) : AnswerOk cfg d' a := by
  intro baton ok hReply
  obtain ⟨q, hServes, hExec⟩ := h baton ok hReply
  refine ⟨q, hServes.mono hGrows, fun sql hBody => ?_⟩
  obtain ⟨hBaton, hGen, hLt, e, he, hAt⟩ := hExec sql hBody
  refine ⟨?_, hGen, hLt, e, hGrows.log e he, hAt⟩
  rw [hGrows.id _ hServes.owned]
  exact hBaton

theorem JobOk.mono {j : Job} (h : JobOk d j)
    (hHeap : j.active = true → d'.store.heap j.ptr = d.store.heap j.ptr)
    (hLog : ∀ e ∈ d'.log, e.session = some j.ptr → e ∈ d.log) : JobOk d' j := by
  intro hActive
  obtain ⟨q, h⟩ := h hActive
  refine ⟨q, h.serves.mono hGrows, ?_, ?_, ?_, ?_, ?_⟩
  · rw [hHeap hActive]
    exact h.busy
  · rw [hHeap hActive]
    exact h.gen
  · rw [hHeap hActive]
    exact h.below
  · intro hRan e he hSession
    rw [hHeap hActive]
    exact h.pending hRan e (hLog e he hSession) hSession
  · intro ok hRan
    obtain ⟨e, he, hAt⟩ := h.ran ok hRan
    exact ⟨e, hGrows.log e he, hAt⟩

theorem Settled.mono {sql : Sql} (hClient : d'.client = d.client) (h : Settled d sql) : Settled d' sql := by
  obtain ⟨p, hThread, c, hc, hSql, hOk, hSession, hAll⟩ := h
  refine ⟨p, hGrows.thread hThread, c, hGrows.log c hc, hSql, hOk, hSession, fun k hk => ?_⟩
  rw [hClient] at hk
  obtain ⟨e, he, hAt⟩ := hAll k hk
  exact ⟨e, hGrows.log e he, hAt⟩

theorem Asked.mono {r : Nat} {sql : Sql} (hClient : d'.client = d.client) (h : Asked d r sql) : Asked d' r sql := by
  obtain ⟨q, hq, hBody, hGen⟩ := h
  exact ⟨q, hGrows.sent hq, hBody, by rw [hClient, hGen]⟩

theorem Streaming.mono (hClient : d'.client = d.client) (h : Streaming cfg d) : Streaming cfg d' := by
  obtain ⟨hBegun, s, hTx, hHolds⟩ := h
  refine ⟨hBegun.mono hGrows, s, ?_, ?_⟩
  · rw [hClient, hTx]
  · rw [hClient]
    exact hHolds.mono hGrows

theorem PhaseOk.mono (hClient : d'.client = d.client) (h : PhaseOk cfg d) : PhaseOk cfg d' := by
  unfold PhaseOk at h ⊢
  rw [hClient]
  cases hPhase : d.client.phase with
  | fresh =>
    rw [hPhase] at h
    exact h
  | beginning s r =>
    rw [hPhase] at h
    exact ⟨h.1, h.2.1, h.2.2.1, h.2.2.2.mono hGrows hClient⟩
  | dropping r => trivial
  | ended => trivial
  | ready =>
    rw [hPhase] at h
    exact Streaming.mono hGrows hClient h
  | running k r =>
    rw [hPhase] at h
    exact ⟨h.1.mono hGrows hClient, h.2.mono hGrows hClient⟩
  | finishing sql s r =>
    rw [hPhase] at h
    exact ⟨h.1.mono hGrows, h.2.mono hGrows hClient⟩
  | closing sql ok r =>
    rw [hPhase] at h
    exact fun hOk => (h hOk).mono hGrows hClient
  | finished sql ok =>
    rw [hPhase] at h
    exact fun hOk => (h hOk).mono hGrows hClient

end Growth

theorem Threaded.of_server (h : Threaded cfg d) (hGrows : Grows d d') (hClient : d'.client = d.client)
    (hSent : d'.sent = d.sent) (hNamed : Named d'.store) (hOwned : ∀ p ∈ d'.owned, p < d'.store.nextPtr)
    (hJobs : ∀ j ∈ d'.jobs, JobOk d' j) (hOne : ∀ p, d'.jobs.countP (Job.on p) ≤ 1)
    (hLog : ∀ e ∈ d'.log, e ∈ d.log ∨ ExecOk d' e) (hOrder : d'.log.Pairwise Exec.before)
    (hAnswers : ∀ a ∈ d'.answers, a ∈ d.answers ∨ AnswerOk cfg d' a) : Threaded cfg d' where
  named := hNamed
  owned := hOwned
  sent q hq := (h.sent q (hSent ▸ hq)).mono hGrows
  calls := hSent ▸ h.calls
  jobs := hJobs
  one := hOne
  log e he := (hLog e he).elim (fun hOld => (h.log e hOld).mono hGrows) id
  order := hOrder
  answers a ha := (hAnswers a ha).elim (fun hOld => (h.answers a hOld).mono hGrows) id
  returned k hk := (h.returned k (hClient ▸ hk)).mono hGrows

theorem JobOk.owned {j : Job} (h : JobOk d j) (hActive : j.active = true) : j.ptr ∈ d.owned := by
  obtain ⟨q, h⟩ := h hActive
  exact h.serves.owned

theorem Job.on_iff {p : Ptr} {j : Job} : j.on p = true ↔ j.active = true ∧ j.ptr = p := by
  simp [Job.on]

/-! ## Steps beside the transaction -/

/-- The sessions of the transaction are as they were, except that some may be closed. -/
structure Quiet (owned : List Ptr) (st st' : Store) : Prop where
  named : Named st'
  nextPtr : st.nextPtr ≤ st'.nextPtr
  heap : ∀ p ∈ owned, st'.heap p = st.heap p

theorem Quiet.of_frame {owned : List Ptr} (hNamed : Named st) (h : EvictFrame st st') : Quiet owned st st' where
  named := hNamed.of_frame h
  nextPtr := Nat.le_of_eq h.nextPtr.symm
  heap p _ := by rw [h.heap]

theorem Quiet.grows (h : Quiet d.owned d.store st) : Grows d { d with store := st } where
  sent hq := hq
  log _ he := he
  owned _ hp := hp
  id p hp := by
    dsimp only
    rw [h.heap p hp]
  gen p hp := by
    dsimp only
    rw [h.heap p hp]
  thread hp := hp
  held := Nat.le_refl _
  next := Nat.le_refl _

theorem Threaded.of_quiet (h : Threaded cfg d) (hQuiet : Quiet d.owned d.store st) :
    Threaded cfg { d with store := st } := by
  refine h.of_server hQuiet.grows rfl rfl hQuiet.named ?_ ?_ h.one (fun _ => .inl) h.order (fun _ => .inl)
  · intro p hp
    exact Nat.lt_of_lt_of_le (h.owned p hp) hQuiet.nextPtr
  · intro j hj
    exact (h.jobs j hj).mono hQuiet.grows (fun hActive => hQuiet.heap j.ptr ((h.jobs j hj).owned hActive))
      (fun _ he _ => he)

theorem Threaded.quiet_resume (h : Threaded cfg d) {token db principal : String}
    (hForeign : d.foreign cfg.codec.toCodec token = true) :
    Quiet d.owned d.store (d.store.resume cfg.codec.toCodec token db principal).1 := by
  rcases resume_cases cfg.codec.toCodec d.store token db principal with
    ⟨err, st, hResume, hEvicts⟩ | ⟨id, gen, q, hVerify, hAccepts, hResume⟩
  · rw [hResume]
    exact .of_frame h.named hEvicts.frame
  · rw [hResume]
    refine ⟨h.named.setSession rfl, Nat.le_refl _, fun p hp => ?_⟩
    -- The resumed session has an id that no session of the transaction has.
    simp only [State.foreign, hVerify, List.all_eq_true, decide_eq_true_eq] at hForeign
    apply Store.setSession_of_ne
    rintro rfl
    exact hForeign p hp (h.named.live id p hAccepts.lookup).2

theorem Threaded.quiet_other (h : Threaded cfg d) {o : Other} (hUnforged : Unforged cfg d (.other o)) :
    Quiet d.owned d.store (o.apply cfg.codec.toCodec d.store) := by
  cases o with
  | insert s =>
    refine ⟨h.named.insertSession hUnforged, Nat.le_succ _, fun p hp => ?_⟩
    exact insertSession_of_lt s (h.owned p hp)
  | slots db n => exact ⟨⟨h.named.live, h.named.ids⟩, Nat.le_refl _, fun _ _ => rfl⟩
  | resume token db principal => exact h.quiet_resume hUnforged
  | baton q =>
    refine ⟨h.named.setSession rfl, Nat.le_refl _, fun p hp => ?_⟩
    apply Store.setSession_of_ne
    rintro rfl
    exact hUnforged hp
  | close q => exact .of_frame h.named (evictFrame_closeLocked _ _)
  | kill idStr => exact .of_frame h.named (evicts_kill idStr).frame
  | reap order => exact .of_frame h.named (evicts_reap order).frame
  | closeAll order => exact .of_frame h.named (evicts_closeAll order).frame
  | tick elapsed => exact ⟨⟨h.named.live, h.named.ids⟩, Nat.le_refl _, fun _ _ => rfl⟩

theorem grows_answer (r : Nat) (reply : Reply) (session : Ptr) (gen : Nat) :
    Grows d (d.answer r reply session gen) :=
  ⟨id, fun _ => id, fun _ => id, fun _ _ => rfl, fun _ _ => Nat.le_refl _, id, Nat.le_refl _, Nat.le_refl _⟩

theorem Threaded.answer (h : Threaded cfg d) {r : Nat} {reply : Reply} {session : Ptr} {gen : Nat}
    (hNew : AnswerOk cfg d ⟨r, reply, session, gen⟩) : Threaded cfg (d.answer r reply session gen) := by
  have hGrows : Grows d (d.answer r reply session gen) := grows_answer r reply session gen
  refine h.of_server hGrows rfl rfl h.named h.owned ?_ h.one (fun _ => .inl) h.order (fun a ha => ?_)
  · intro j hj
    exact (h.jobs j hj).mono hGrows (fun _ => rfl) (fun _ he _ => he)
  · rcases List.mem_append.mp ha with ha | ha
    · exact .inl ha
    · rw [List.mem_singleton.mp ha]
      exact .inr (hNew.mono hGrows)

theorem answerOk_refused (r : Nat) (session : Ptr) (gen : Nat) : AnswerOk cfg d ⟨r, .refused, session, gen⟩ := by
  intro baton ok hReply
  cases hReply

end QuicSql.Driver
