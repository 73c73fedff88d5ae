import QuicSql.Client.Serve

/-!
# The client follows one session

A call of the driver sends its request with the baton the stream has, and takes the
baton of the response when there is one. A lost response leaves the stream with a
generation that the server no longer accepts; it never leaves it without a baton.
-/

namespace QuicSql.Driver

open Lib Sessions

variable {cfg : Config} {d d' : State}

/-! ## Requests -/

theorem Grows.of_client {c : Client} (hThread : ∀ p, d.client.thread = some p → c.thread = some p)
    (hGen : d.client.gen ≤ c.gen) (hNext : d.client.next ≤ c.next) : Grows d { d with client := c } where
  sent hq := hq
  log _ he := he
  owned _ hp := hp
  id _ _ := rfl
  gen _ _ := Nat.le_refl _
  thread hp := hThread _ hp
  held := hGen
  next := hNext

theorem Threaded.of_client (h : Threaded cfg d) {c : Client} (hGrows : Grows d { d with client := c })
    (hReturned : ∀ k, (k, true) ∈ c.returned → Ran { d with client := c } k) :
    Threaded cfg { d with client := c } where
  named := h.named
  owned := h.owned
  sent q hq := (h.sent q hq).mono hGrows
  calls := h.calls
  jobs j hj := (h.jobs j hj).mono hGrows (fun _ => rfl) (fun _ he _ => he)
  one := h.one
  log e he := (h.log e he).mono hGrows
  order := h.order
  answers a ha := (h.answers a ha).mono hGrows
  returned := hReturned

theorem Threaded.enter (h : Threaded cfg d) {c : Client} (hThread : c.thread = d.client.thread)
    (hGen : c.gen = d.client.gen) (hNext : d.client.next ≤ c.next) (hReturned : c.returned = d.client.returned) :
    Threaded cfg { d with client := c } := by
  have hGrows : Grows d { d with client := c } :=
    .of_client (fun _ hp => hThread.trans hp) (Nat.le_of_eq hGen.symm) hNext
  refine h.of_client hGrows (fun k hk => ?_)
  rw [hReturned] at hk
  exact (h.returned k hk).mono hGrows

theorem Threaded.send (h : Threaded cfg d) {baton : Option String} {body : Body} (phase : Nat → Phase)
    (hNew : SentOk cfg d ⟨false, baton, body, d.client.gen⟩)
    (hLast : ∀ k, body = .execute (.stmt k) → ∀ q ∈ d.sent, ∀ k', q.body = .execute (.stmt k') → k' < k) :
    Threaded cfg (d.send false baton body phase) := by
  have hGrows : Grows d (d.send false baton body phase) :=
    ⟨fun hq => getElem?_append_of_some hq, fun _ => id, fun _ => id, fun _ _ => rfl, fun _ _ => Nat.le_refl _, id,
      Nat.le_refl _, Nat.le_refl _⟩
  refine ⟨h.named, h.owned, ?_, ?_, fun j hj => (h.jobs j hj).mono hGrows (fun _ => rfl) (fun _ he _ => he), h.one,
    fun e he => (h.log e he).mono hGrows, h.order, fun a ha => (h.answers a ha).mono hGrows,
    fun k hk => (h.returned k hk).mono hGrows⟩
  · intro q hq
    rcases List.mem_append.mp hq with hq | hq
    · exact (h.sent q hq).mono hGrows
    · rw [List.mem_singleton.mp hq]
      exact hNew.mono hGrows
  · change (d.sent ++ [_]).Pairwise Request.precedes
    rw [List.pairwise_append]
    refine ⟨h.calls, List.pairwise_singleton _ _, fun q hq q' hq' => ?_⟩
    rw [List.mem_singleton.mp hq']
    exact ⟨(h.sent q hq).le, fun k k' hk hk' => hLast k' hk' q hq k hk⟩

theorem asked_send (baton : Option String) (sql : Sql) (phase : Nat → Phase) :
    Asked (d.send false baton (.execute sql) phase) d.sent.length sql :=
  ⟨⟨false, baton, .execute sql, d.client.gen⟩, by simp [State.send], rfl, rfl⟩

theorem Holds.closeStream {baton : Option String} {gen : Nat} (h : Holds cfg d' baton gen) (noop : Phase)
    (phase : Nat → Phase) : d.closeStream baton noop phase = d.send false baton .close phase := by
  obtain ⟨p, _, _, rfl, _⟩ := h
  rfl

theorem Threaded.sendClose (h : Threaded cfg d) {baton : Option String} (hHolds : Holds cfg d baton d.client.gen)
    (phase : Nat → Phase) : Threaded cfg (d.send false baton .close phase) := by
  refine h.send phase ⟨rfl, .inr ⟨hHolds, by simp⟩, fun k hk => ?_, Nat.le_refl _⟩ (fun k hk => ?_)
  · cases hk
  · cases hk

/-! ## Responses -/

/-- What a response tells about the request the call waits for. -/
structure Told (cfg : Config) (d : State) (sql : Sql) (got : Got) : Prop where
  owned : got.session ∈ d.owned
  baton : got.baton = some (mint cfg.codec.toCodec (d.store.heap got.session).id got.gen)
  gen : got.gen = d.client.gen + 1
  below : got.gen < 2 ^ 64
  thread : d.client.gen ≠ 0 → d.client.thread = some got.session
  ran : got.ok = true →
    ∃ e ∈ d.log, e.sql = sql ∧ e.ok = true ∧ e.session = some got.session ∧ e.gen = got.gen

theorem AnswerOk.told {a : Answer} {baton : Option String} {ok fine : Bool} {sql : Sql} (h : AnswerOk cfg d a)
    (hReply : a.reply = .answered baton ok) (hAsked : Asked d a.request sql) :
    Told cfg d sql ⟨baton, ok && fine, a.session, a.gen⟩ := by
  obtain ⟨q, hServes, hExec⟩ := h baton ok hReply
  obtain ⟨q', hq', hBody, hGen⟩ := hAsked
  obtain rfl : q = q' := Option.some.inj (hServes.sent.symm.trans hq')
  obtain ⟨hBaton, hNext, hBelow, e, he, hSql, hOk, hAt⟩ := hExec sql hBody
  refine ⟨hServes.owned, hBaton, by rw [hNext, hGen], hBelow, fun hPos => hServes.thread (by rwa [hGen]), ?_⟩
  intro hBoth
  rw [Bool.and_eq_true] at hBoth
  exact ⟨e, he, hSql, hOk.trans hBoth.1, hAt⟩

theorem Told.holds {sql : Sql} {got : Got} (h : Told cfg d sql got) :
    Holds cfg (d.took got) got.baton got.gen :=
  ⟨got.session, h.owned, rfl, h.baton, by rw [h.gen]; exact Nat.succ_pos _, h.below⟩

theorem Told.grows {sql : Sql} {got : Got} (h : Told cfg d sql got)
    (hThread : d.client.thread = none ∨ 0 < d.client.gen) : Grows d (d.took got) := by
  refine .of_client (fun p hp => ?_) ?_ (Nat.le_refl _)
  · rcases hThread with hNone | hPos
    · rw [hNone] at hp
      cases hp
    · exact (h.thread (Nat.ne_of_gt hPos)).symm.trans hp
  · change d.client.gen ≤ got.gen
    rw [h.gen]
    exact Nat.le_succ _

theorem Threaded.took (h : Threaded cfg d) {sql : Sql} {got : Got} (hTold : Told cfg d sql got)
    (hThread : d.client.thread = none ∨ 0 < d.client.gen) : Threaded cfg (d.took got) :=
  h.of_client (hTold.grows hThread) (fun k hk => (h.returned k hk).mono (hTold.grows hThread))

/-! ## Calls -/

structure Good (cfg : Config) (d : State) : Prop where
  threaded : Threaded cfg d
  phase : PhaseOk cfg d

theorem Good.serviced (h : Good cfg d) (hServiced : Serviced cfg d d') : Good cfg d' :=
  ⟨hServiced.threaded, h.phase.mono hServiced.grows hServiced.client⟩

theorem Good.begin (h : Good cfg d) (hStep : d.begin = some d') : Good cfg d' := by
  unfold State.begin at hStep
  split at hStep
  · rename_i hPhase hTx
    cases hStep
    have hOk := h.phase
    simp only [PhaseOk, hPhase] at hOk
    refine ⟨h.threaded.send _ ⟨rfl, .inl ⟨rfl, hOk.2, rfl⟩, ?_, Nat.le_refl _⟩ ?_,
      rfl, hOk.1, hOk.2, asked_send none .begin _⟩
    · intro k hk
      cases hk
    · intro k hk
      cases hk
  · cases hStep

theorem Good.streaming (h : Good cfg d) (hPhase : d.client.phase = .ready) : Streaming cfg d := by
  have hOk := h.phase
  simp only [PhaseOk, hPhase] at hOk
  exact hOk

theorem Good.exec (h : Good cfg d) (hStep : d.exec = some d') : Good cfg d' := by
  unfold State.exec at hStep
  split at hStep
  · rename_i hPhase
    obtain ⟨hBegun, s, hTx, hHolds⟩ := h.streaming hPhase
    dsimp only at hStep
    split at hStep
    · rename_i s' hTx'
      obtain rfl : s = s' := Option.some.inj (hTx.symm.trans hTx')
      cases hStep
      have hNext : Threaded cfg { d with client := { d.client with next := d.client.next + 1 } } :=
        h.threaded.enter rfl rfl (Nat.le_succ _) rfl
      refine ⟨hNext.send _ ⟨rfl, .inr ⟨hHolds, by simp⟩, ?_, Nat.le_refl _⟩ ?_,
        ⟨hBegun, s, hTx, hHolds⟩, asked_send s.baton (.stmt d.client.next) _⟩
      · intro k hk
        obtain rfl := Sql.stmt.inj (Body.execute.inj hk)
        exact ⟨hBegun, Nat.lt_succ_self _⟩
      · intro k hk q hq k' hk'
        obtain rfl := Sql.stmt.inj (Body.execute.inj hk)
        exact ((h.threaded.sent q hq).stmt k' hk').2
    · rename_i hNone
      cases hTx.symm.trans hNone
  · cases hStep

theorem Good.finish (h : Good cfg d) {sql : Sql} (hEnd : sql = .commit ∨ sql = .rollback)
    (hStep : d.finish sql = some d') : Good cfg d' := by
  unfold State.finish at hStep
  split at hStep
  · rename_i hPhase
    obtain ⟨_, s, hTx, hHolds⟩ := h.streaming hPhase
    simp only [hTx] at hStep
    cases hStep
    have hLeft : Threaded cfg { d with client := { d.client with tx := none } } :=
      h.threaded.enter rfl rfl (Nat.le_refl _) rfl
    refine ⟨hLeft.send _ ⟨rfl, .inr ⟨hHolds, ?_⟩, ?_, Nat.le_refl _⟩ ?_, hHolds, asked_send s.baton sql _⟩
    · rcases hEnd with rfl | rfl <;> simp
    · intro k hk
      rcases hEnd with rfl | rfl <;> cases hk
    · intro k hk
      rcases hEnd with rfl | rfl <;> cases hk
  · cases hStep

theorem Good.hangUp (h : Good cfg d) (hStep : d.hangUp = some d') : Good cfg d' := by
  unfold State.hangUp at hStep
  split at hStep
  · rename_i s hPhase hTx
    obtain ⟨_, s', hTx', hHolds⟩ := h.streaming hPhase
    obtain rfl : s = s' := Option.some.inj (hTx.symm.trans hTx')
    have hLeft : Threaded cfg { d with client := { d.client with tx := none } } :=
      h.threaded.enter rfl rfl (Nat.le_refl _) rfl
    dsimp only at hStep
    rw [hHolds.closeStream] at hStep
    cases hStep
    exact ⟨hLeft.sendClose hHolds _, trivial⟩
  · cases hStep

theorem Threaded.returns (h : Threaded cfg d) {k : Nat} {ok : Bool} (hRan : ok = true → Ran d k) :
    Threaded cfg (d.returns k ok) := by
  refine h.of_client (.of_client (fun _ => id) (Nat.le_refl _) (Nat.le_refl _)) (fun k' hk' => ?_)
  rcases List.mem_append.mp hk' with hk' | hk'
  · exact h.returned k' hk'
  · obtain ⟨rfl, rfl⟩ := Prod.mk.inj (List.mem_singleton.mp hk')
    exact hRan rfl

theorem Good.lose (h : Good cfg d) (hStep : d.settle none = some d') : Good cfg d' := by
  have hOk := h.phase
  simp only [State.settle] at hStep
  split at hStep
  · rename_i s r hPhase
    simp only [PhaseOk, hPhase] at hOk
    rw [hOk.1] at hStep
    cases hStep
    exact ⟨h.threaded.enter rfl rfl (Nat.le_refl _) rfl, trivial⟩
  · cases hStep
    exact ⟨h.threaded.enter rfl rfl (Nat.le_refl _) rfl, trivial⟩
  · rename_i k r hPhase
    simp only [PhaseOk, hPhase] at hOk
    cases hStep
    exact ⟨h.threaded.returns (fun hTrue => by cases hTrue), hOk.1⟩
  · rename_i sql s r hPhase
    simp only [PhaseOk, hPhase] at hOk
    rw [hOk.1.closeStream] at hStep
    cases hStep
    exact ⟨h.threaded.sendClose hOk.1 _, fun hTrue => by cases hTrue⟩
  · cases hStep
    exact ⟨h.threaded.enter rfl rfl (Nat.le_refl _) rfl, fun hTrue => by cases hTrue⟩
  · cases hStep

theorem Threaded.settled (h : Threaded cfg d) {sql : Sql} {got : Got} (hTold : Told cfg d sql got)
    (hPos : 0 < d.client.gen) (hOk : got.ok = true) : Settled (d.took got) sql := by
  obtain ⟨c, hc, hSql, hcOk, hSession, hGen⟩ := hTold.ran hOk
  refine ⟨got.session, rfl, c, hc, hSql, hcOk, hSession, fun k hk => ?_⟩
  obtain ⟨p, hThread, e, he, heSql, heOk, heSession, hLe⟩ := h.returned k hk
  obtain rfl : p = got.session := Option.some.inj (hThread.symm.trans (hTold.thread (Nat.ne_of_gt hPos)))
  refine ⟨e, he, heSql, heOk, heSession, ?_⟩
  rw [hGen, hTold.gen]
  exact Nat.lt_succ_of_le hLe

theorem Good.told_begin (h : Good cfg d) {s : Stream} {r : Nat} {got : Got} (hPhase : d.client.phase = .beginning s r)
    (hTold : Told cfg d .begin got) (hStep : d.settle (some got) = some d') : Good cfg d' := by
  have hOk := h.phase
  simp only [PhaseOk, hPhase] at hOk
  simp only [State.settle, hPhase] at hStep
  have hTook := h.threaded.took hTold (.inl hOk.2.1)
  split at hStep
  · rename_i hGot
    cases hStep
    refine ⟨hTook.enter rfl rfl (Nat.le_refl _) rfl, ?_, ⟨got.baton⟩, rfl, hTold.holds⟩
    obtain ⟨e, he, hSql, heOk, hSession, hGen⟩ := hTold.ran hGot
    refine ⟨got.session, rfl, e, he, hSql, heOk, hSession, ?_⟩
    rw [hGen, hTold.gen, hOk.2.2.1]
  · rw [hTold.holds.closeStream] at hStep
    cases hStep
    exact ⟨hTook.sendClose hTold.holds _, trivial⟩

theorem Good.told_stmt (h : Good cfg d) {k r : Nat} {got : Got} (hPhase : d.client.phase = .running k r)
    (hTold : Told cfg d (.stmt k) got) (hStep : d.settle (some got) = some d') : Good cfg d' := by
  have hOk := h.phase
  simp only [PhaseOk, hPhase] at hOk
  obtain ⟨⟨hBegun, s, hTx, p, _, _, _, hPos, _⟩, _⟩ := hOk
  simp only [State.settle, hPhase, hTx] at hStep
  cases hStep
  have hBegun' : Begun (d.took got) := hBegun.mono (hTold.grows (.inr hPos))
  have hTook : Threaded cfg { d.took got with client := { (d.took got).client with tx := some ⟨got.baton⟩ } } :=
    (h.threaded.took hTold (.inr hPos)).enter rfl rfl (Nat.le_refl _) rfl
  refine ⟨hTook.returns (fun hGot => ?_), hBegun', ⟨got.baton⟩, rfl, hTold.holds⟩
  obtain ⟨e, he, hSql, heOk, hSession, hGen⟩ := hTold.ran hGot
  exact ⟨got.session, rfl, e, he, hSql, heOk, hSession, Nat.le_of_eq hGen⟩

theorem Good.told_finish (h : Good cfg d) {sql : Sql} {s : Stream} {r : Nat} {got : Got}
    (hPhase : d.client.phase = .finishing sql s r) (hTold : Told cfg d sql got)
    (hStep : d.settle (some got) = some d') : Good cfg d' := by
  have hOk := h.phase
  simp only [PhaseOk, hPhase] at hOk
  obtain ⟨⟨p, _, _, _, hPos, _⟩, _⟩ := hOk
  simp only [State.settle, hPhase] at hStep
  rw [hTold.holds.closeStream] at hStep
  cases hStep
  have hTook := h.threaded.took hTold (.inr hPos)
  exact ⟨hTook.sendClose hTold.holds _, h.threaded.settled hTold hPos⟩

theorem Good.receive (h : Good cfg d) {n : Nat} {fine : Bool} (hStep : d.receive n fine = some d') :
    Good cfg d' := by
  unfold State.receive at hStep
  split at hStep
  · cases hStep
  rename_i a ha
  split at hStep
  · rename_i hWaits
    split at hStep
    · exact h.lose hStep
    · rename_i baton ok hReply
      have hTold : ∀ {sql}, Asked d a.request sql → Told cfg d sql ⟨baton, ok && fine, a.session, a.gen⟩ :=
        fun hAsked => (h.threaded.answers a (List.mem_of_getElem? ha)).told hReply hAsked
      have hOk := h.phase
      cases hPhase : d.client.phase with
      | fresh =>
        simp only [State.settle, hPhase] at hStep
        cases hStep
      | ended =>
        simp only [State.settle, hPhase] at hStep
        cases hStep
      | ready =>
        simp only [State.settle, hPhase] at hStep
        cases hStep
      | finished sql ok =>
        simp only [State.settle, hPhase] at hStep
        cases hStep
      | beginning s r =>
        simp only [PhaseOk, hPhase] at hOk
        obtain rfl : r = a.request := by simpa [hPhase, Phase.waits] using hWaits
        exact h.told_begin hPhase (hTold hOk.2.2.2) hStep
      | dropping r =>
        simp only [State.settle, hPhase] at hStep
        cases hStep
        exact ⟨h.threaded.enter rfl rfl (Nat.le_refl _) rfl, trivial⟩
      | running k r =>
        simp only [PhaseOk, hPhase] at hOk
        obtain rfl : r = a.request := by simpa [hPhase, Phase.waits] using hWaits
        exact h.told_stmt hPhase (hTold hOk.2) hStep
      | finishing sql s r =>
        simp only [PhaseOk, hPhase] at hOk
        obtain rfl : r = a.request := by simpa [hPhase, Phase.waits] using hWaits
        exact h.told_finish hPhase (hTold hOk.2) hStep
      | closing sql ok r =>
        simp only [PhaseOk, hPhase] at hOk
        simp only [State.settle, hPhase] at hStep
        cases hStep
        exact ⟨h.threaded.enter rfl rfl (Nat.le_refl _) rfl, hOk⟩
  · cases hStep

theorem Good.step {act : Action} (h : Good cfg d) (hUnforged : Unforged cfg d act) (hStep : step cfg d act = some d') :
    Good cfg d' := by
  cases act with
  | begin => exact h.begin hStep
  | exec => exact h.exec hStep
  | commit => exact h.finish (.inl rfl) hStep
  | rollback => exact h.finish (.inr rfl) hStep
  | hangUp => exact h.hangUp hStep
  | receive n fine => exact h.receive hStep
  | lose => exact h.lose hStep
  | deliver r id => exact h.serviced (h.threaded.serviced_deliver hUnforged hStep)
  | reject r =>
    simp only [Driver.step] at hStep
    split at hStep
    · cases hStep
      exact h.serviced (h.threaded.serviced_self.refuse r)
    · cases hStep
  | query r ok =>
    simp only [Driver.step, h.threaded.no_query] at hStep
    cases hStep
  | execute i ok => exact h.serviced (h.threaded.serviced_execute hStep)
  | reply i => exact h.serviced (h.threaded.serviced_reply hStep)
  | abort i => exact h.serviced (h.threaded.serviced_abort hStep)
  | other o =>
    cases hStep
    exact h.serviced (h.threaded.serviced_quiet (h.threaded.quiet_other hUnforged))

theorem good_init (ttl maxLife : Time) (max : Int) : Good cfg (init ttl maxLife max) := by
  have hNamed : Named (newStore ttl maxLife max) := by constructor <;> simp [newStore]
  refine ⟨⟨hNamed, ?_, ?_, ?_, ?_, ?_, ?_, ?_, ?_, ?_⟩, rfl, rfl⟩ <;> simp [init]

end QuicSql.Driver
