import QuicSql.Client.Pinned

/-!
# What Commit and Rollback report

`tx.finish` makes two round trips: the statement that ends the transaction, and the close of
its stream. An error of the second one is returned although the first was acknowledged.
-/

namespace QuicSql.Driver

open Lib Sessions

/-- The round trip that a step ends: it failed, or it brought a result. -/
def roundTrip (d : State) : Action → Option (Option Bool)
  | .lose => some none
  | .receive n fine =>
    (d.answers[n]?).map fun a =>
      match a.reply with
      | .refused => none
      | .answered _ ok => some (ok && fine)
  | _ => none

/-- The statement that is acknowledged when a round trip ends in the phase. -/
def Phase.acknowledges : Phase → Option Bool → Option Sql
  | .finishing sql _ _, some true => some sql
  | _, _ => none

/-- The system with the statement at the end of the transaction for which the client has
received the acknowledgement. -/
structure Observed where
  state : State
  acked : Option Sql

namespace Observed

def step (cfg : Config) (o : Observed) (a : Action) : Option Observed :=
  (Driver.step cfg o.state a).map fun d =>
    ⟨d, ((roundTrip o.state a).bind o.state.client.phase.acknowledges).or o.acked⟩

def init (ttl maxLife : Time) (max : Int) : Observed := ⟨Driver.init ttl maxLife max, none⟩

/-- Commit or Rollback returns nil if its statement was acknowledged. -/
def Reported (o : Observed) : Prop :=
  ∀ sql ok, o.state.client.phase = .finished sql ok → o.acked = some sql → ok = true

/-- The close after an acknowledged statement does not fail. -/
def CloseAnswered (o : Observed) (a : Action) : Prop :=
  ∀ sql r, o.state.client.phase = .closing sql true r → roundTrip o.state a ≠ some none

/-! ## Phases -/

inductive Settles (ok : Option Bool) : Phase → Phase → Prop
  | begun {s : Stream} {r : Nat} {p : Phase} : p = .ready ∨ p = .ended ∨ (∃ r', p = .dropping r') →
      Settles ok (.beginning s r) p
  | dropped {r : Nat} : Settles ok (.dropping r) .ended
  | ran {k r : Nat} : Settles ok (.running k r) .ready
  | finished {sql : Sql} {s : Stream} {r : Nat} : Settles ok (.finishing sql s r) (.finished sql (ok = some true))
  | finishing {sql : Sql} {s : Stream} {r r' : Nat} :
      Settles ok (.finishing sql s r) (.closing sql (ok = some true) r')
  | closed {sql : Sql} {b : Bool} {r : Nat} : Settles ok (.closing sql b r) (.finished sql (b && ok.isSome))

inductive Starts : Phase → Phase → Prop
  | begin {s : Stream} {r : Nat} : Starts .fresh (.beginning s r)
  | exec {k r : Nat} : Starts .ready (.running k r)
  | finish {sql : Sql} {s : Stream} {r : Nat} : Starts .ready (.finishing sql s r)
  | finished {sql : Sql} : Starts .ready (.finished sql false)
  | hangUp {r : Nat} : Starts .ready (.dropping r)
  | ended : Starts .ready .ended

variable {cfg : Config} {d d' : State}

theorem closeStream_phase (d : State) (baton : Option String) (noop : Phase) (phase : Nat → Phase) :
    (d.closeStream baton noop phase).client.phase = noop ∨ ∃ r, (d.closeStream baton noop phase).client.phase = phase r := by
  cases baton with
  | none => exact .inl rfl
  | some b => exact .inr ⟨_, rfl⟩

theorem begun_of_closeStream {ok : Option Bool} {s : Stream} {r : Nat} (d : State) (baton : Option String) :
    Settles ok (.beginning s r) (d.closeStream baton .ended .dropping).client.phase := by
  rcases closeStream_phase d baton .ended .dropping with hEq | ⟨r', hEq⟩
  · exact .begun (.inr (.inl hEq))
  · exact .begun (.inr (.inr ⟨r', hEq⟩))

theorem finishing_of_closeStream {ok : Option Bool} {b : Bool} (hb : b = decide (ok = some true)) {sql : Sql} {s : Stream}
    {r : Nat} (d : State) (baton : Option String) :
    Settles ok (.finishing sql s r) (d.closeStream baton (.finished sql b) (.closing sql b)).client.phase := by
  subst hb
  rcases closeStream_phase d baton (.finished sql (ok = some true)) (.closing sql (ok = some true)) with hEq | ⟨r', hEq⟩
  · rw [hEq]
    exact .finished
  · rw [hEq]
    exact .finishing

theorem settle_settles {got : Option Got} (h : d.settle got = some d') :
    Settles (got.map Got.ok) d.client.phase d'.client.phase := by
  cases got with
  | none =>
    unfold State.settle at h
    dsimp only at h
    split at h <;> rename_i hPhase
    · cases h
      rw [hPhase]
      exact begun_of_closeStream d _
    · cases h
      rw [hPhase]
      exact .dropped
    · cases h
      rw [hPhase]
      exact .ran
    · cases h
      rw [hPhase]
      exact finishing_of_closeStream rfl d _
    · rename_i sql b r
      cases h
      rw [hPhase]
      have hClosed : Settles none (.closing sql b r) (.finished sql (b && (none : Option Bool).isSome)) := .closed
      rwa [Option.isSome_none, Bool.and_false] at hClosed
    · cases h
  | some got =>
    unfold State.settle at h
    dsimp only at h
    split at h <;> rename_i hPhase
    · split at h <;> cases h <;> rw [hPhase]
      · exact .begun (.inl rfl)
      · exact begun_of_closeStream _ _
    · cases h
      rw [hPhase]
      exact .dropped
    · split at h <;> cases h <;> rw [hPhase] <;> exact .ran
    · cases h
      rw [hPhase]
      refine finishing_of_closeStream ?_ _ _
      simp
    · rename_i sql b r
      cases h
      rw [hPhase]
      have hClosed : Settles (some got.ok) (.closing sql b r) (.finished sql (b && (some got.ok).isSome)) := .closed
      rwa [Option.isSome_some, Bool.and_true] at hClosed
    · cases h

/-- What a step does to the phase of the call. -/
inductive Turn (d : State) (a : Action) (d' : State) : Prop
  | still : d'.client.phase = d.client.phase → roundTrip d a = none → Turn d a d'
  | starts : Starts d.client.phase d'.client.phase → roundTrip d a = none → Turn d a d'
  | settles {ok : Option Bool} : Settles ok d.client.phase d'.client.phase → roundTrip d a = some ok → Turn d a d'

theorem receive_turn {n : Nat} {fine : Bool} (h : d.receive n fine = some d') : Turn d (.receive n fine) d' := by
  unfold State.receive at h
  split at h
  · cases h
  · rename_i a hAnswer
    split at h
    · split at h <;> rename_i hReply
      · exact .settles (settle_settles h) (by simp [roundTrip, hAnswer, hReply])
      · exact .settles (settle_settles h) (by simp [roundTrip, hAnswer, hReply])
    · cases h

theorem finish_turn {a : Action} {sql : Sql} (hTrip : roundTrip d a = none) (h : d.finish sql = some d') : Turn d a d' := by
  unfold State.finish at h
  split at h
  · rename_i hPhase
    split at h <;> cases h <;> refine .starts ?_ hTrip <;> rw [hPhase]
    · exact .finished
    · exact .finish
  · cases h

theorem hangUp_turn (h : d.hangUp = some d') : Turn d .hangUp d' := by
  unfold State.hangUp at h
  split at h
  · rename_i s hPhase hTx
    cases h
    refine .starts ?_ rfl
    rw [hPhase]
    cases s.baton with
    | none => exact .ended
    | some b => exact .hangUp
  · cases h

theorem stream_client (d : State) (r : Nat) (baton : String) (id : SessionId) : (d.stream cfg r baton id).client = d.client := by
  unfold State.stream
  dsimp only
  split
  · split <;> rfl
  · split <;> rfl

theorem deliver_client {r : Nat} {id : SessionId} (h : d.deliver cfg r id = some d') : d'.client = d.client := by
  unfold State.deliver at h
  split at h
  · cases h
  · split at h <;> cases h
    exact stream_client d r _ id

theorem query_client {r : Nat} {ok : Bool} (h : d.query r ok = some d') : d'.client = d.client := by
  unfold State.query at h
  split at h
  · cases h
  · split at h <;> cases h
    rfl

theorem execute_client {j : Nat} {ok : Bool} (h : d.execute j ok = some d') : d'.client = d.client := by
  unfold State.execute at h
  split at h
  · cases h
  · split at h <;> cases h
    rfl

theorem reply_client {j : Nat} (h : d.reply cfg j = some d') : d'.client = d.client := by
  unfold State.reply at h
  split at h
  · cases h
  · dsimp only at h
    split at h <;> cases h <;> rfl

theorem abort_client {j : Nat} (h : d.abort j = some d') : d'.client = d.client := by
  unfold State.abort at h
  split at h
  · cases h
  · split at h <;> cases h
    rfl

theorem Turn.of_client {a : Action} (hTrip : roundTrip d a = none) (h : d'.client = d.client) : Turn d a d' :=
  .still (congrArg Client.phase h) hTrip

theorem step_turn {a : Action} (h : Driver.step cfg d a = some d') : Turn d a d' := by
  cases a with
  | begin =>
    change d.begin = some d' at h
    unfold State.begin at h
    split at h <;> cases h
    rename_i hPhase _
    refine .starts ?_ rfl
    rw [hPhase]
    exact .begin
  | exec =>
    change d.exec = some d' at h
    unfold State.exec at h
    dsimp only at h
    split at h
    · rename_i hPhase
      split at h <;> cases h <;> refine .starts ?_ rfl <;> rw [hPhase] <;> exact .exec
    · cases h
  | commit | rollback => exact finish_turn rfl h
  | hangUp => exact hangUp_turn h
  | receive n fine => exact receive_turn h
  | lose =>
    change d.settle none = some d' at h
    exact .settles (settle_settles h) rfl
  | deliver r id => exact .of_client rfl (deliver_client h)
  | reject r =>
    obtain ⟨-, h⟩ := Option.ite_none_right_eq_some.mp h
    cases h
    exact .of_client rfl rfl
  | query r ok => exact .of_client rfl (query_client h)
  | execute j ok => exact .of_client rfl (execute_client h)
  | reply j => exact .of_client rfl (reply_client h)
  | abort j => exact .of_client rfl (abort_client h)
  | other o =>
    cases h
    exact .of_client rfl rfl

/-! ## The acknowledgement -/

structure Tracks (p : Phase) (acked : Option Sql) : Prop where
  closing : ∀ sql r, p = .closing sql true r → acked = some sql
  acked : ∀ sql, acked = some sql → (∃ r, p = .closing sql true r) ∨ ∃ ok, p = .finished sql ok

variable {p q : Phase} {acked : Option Sql} {ok : Option Bool}

theorem Tracks.acked_none (h : Tracks p acked) (hClosing : ∀ sql r, p ≠ .closing sql true r)
    (hFinished : ∀ sql ok, p ≠ .finished sql ok) : acked = none := by
  cases hAcked : acked with
  | none => rfl
  | some sql =>
    rcases h.acked sql hAcked with ⟨r, hPhase⟩ | ⟨ok, hPhase⟩
    · exact absurd hPhase (hClosing sql r)
    · exact absurd hPhase (hFinished sql ok)

theorem tracks_none (hClosing : ∀ sql r, p ≠ .closing sql true r) : Tracks p none where
  closing sql r hPhase := absurd hPhase (hClosing sql r)
  acked sql hSome := by cases hSome

theorem Starts.acked_none (h : Starts p q) (hTracks : Tracks p acked) : acked = none := by
  apply hTracks.acked_none <;> intros <;> cases h <;> exact Phase.noConfusion

theorem Starts.tracks (h : Starts p q) (hTracks : Tracks p acked) : Tracks q acked := by
  rw [h.acked_none hTracks]
  refine tracks_none fun sql r => ?_
  cases h <;> exact Phase.noConfusion

theorem acknowledges_finishing (sql : Sql) (s : Stream) (r : Nat) (ok : Option Bool) :
    (Phase.finishing sql s r).acknowledges ok = if ok = some true then some sql else none := by
  match ok with
  | none => rfl
  | some true => rfl
  | some false => rfl

theorem Settles.tracks (h : Settles ok p q) (hTracks : Tracks p acked) : Tracks q ((p.acknowledges ok).or acked) := by
  cases h with
  | begun hReady =>
    rw [hTracks.acked_none (by simp) (by simp)]
    refine tracks_none fun sql r => ?_
    rcases hReady with rfl | rfl | ⟨r', rfl⟩ <;> exact Phase.noConfusion
  | dropped | ran =>
    rw [hTracks.acked_none (by simp) (by simp)]
    exact tracks_none (by simp)
  | @finished sql s r =>
    rw [hTracks.acked_none (by simp) (by simp), Option.or_none, acknowledges_finishing]
    refine ⟨by simp, fun sql' hAcked => ?_⟩
    obtain ⟨-, hSql⟩ := Option.ite_none_right_eq_some.mp hAcked
    cases hSql
    exact .inr ⟨_, rfl⟩
  | @finishing sql s r r' =>
    rw [hTracks.acked_none (by simp) (by simp), Option.or_none, acknowledges_finishing]
    constructor
    · intro sql' r'' hClosing
      rw [Phase.closing.injEq] at hClosing
      obtain ⟨rfl, hOk, -⟩ := hClosing
      rw [if_pos (of_decide_eq_true hOk)]
    · intro sql' hAcked
      obtain ⟨hOk, hSql⟩ := Option.ite_none_right_eq_some.mp hAcked
      cases hSql
      exact .inl ⟨r', by rw [decide_eq_true hOk]⟩
  | @closed sql b r =>
    refine ⟨by simp, fun sql' hAcked => ?_⟩
    rcases hTracks.acked sql' hAcked with ⟨r', hPhase⟩ | ⟨ok', hPhase⟩
    · cases hPhase
      exact .inr ⟨_, rfl⟩
    · cases hPhase

/-- A round trip that fails in the close of an acknowledged statement, and nothing else, makes
the call report an error. -/
theorem Settles.reported (h : Settles ok p q) (hTracks : Tracks p acked) :
    (∀ sql b, q = .finished sql b → (p.acknowledges ok).or acked = some sql → b = true) ↔
      ∀ sql r, p = .closing sql true r → ok ≠ none := by
  cases h with
  | begun hReady =>
    refine iff_of_true (fun sql b hFinished => ?_) (by simp)
    rcases hReady with rfl | rfl | ⟨r', rfl⟩ <;> cases hFinished
  | dropped | ran => exact iff_of_true (by simp) (by simp)
  | @finished sql s r =>
    refine iff_of_true (fun sql' b hFinished hAcked => ?_) (by simp)
    rw [hTracks.acked_none (by simp) (by simp), Option.or_none, acknowledges_finishing] at hAcked
    obtain ⟨hOk, -⟩ := Option.ite_none_right_eq_some.mp hAcked
    cases hFinished
    exact decide_eq_true hOk
  | finishing => exact iff_of_true (by simp) (by simp)
  | @closed sql b r =>
    change (∀ sql' b', _ → acked = some sql' → b' = true) ↔ _
    constructor
    · rintro hReported sql' r' hClosing rfl
      cases hClosing
      have hAcked := hTracks.closing sql r rfl
      exact absurd (hReported sql _ rfl hAcked) (by simp)
    · intro hAnswered sql' b' hFinished hAcked
      cases hFinished
      rcases hTracks.acked sql hAcked with ⟨r', hClosing⟩ | ⟨ok', hPhase⟩
      · have hSome := hAnswered sql r' hClosing
        cases hClosing
        rw [Bool.true_and, Option.isSome_iff_ne_none]
        exact hSome
      · cases hPhase

variable {o o' : Observed} {a : Action}

theorem step_tracks (hTracks : Tracks o.state.client.phase o.acked) (h : step cfg o a = some o') :
    Tracks o'.state.client.phase o'.acked := by
  obtain ⟨d', hStep, rfl⟩ := Option.map_eq_some_iff.mp h
  cases step_turn hStep with
  | still hPhase hTrip =>
    rw [hTrip, hPhase]
    exact hTracks
  | starts hStarts hTrip =>
    rw [hTrip]
    exact hStarts.tracks hTracks
  | settles hSettles hTrip =>
    rw [hTrip]
    exact hSettles.tracks hTracks

theorem step_reported (hTracks : Tracks o.state.client.phase o.acked) (hReported : Reported o)
    (h : step cfg o a = some o') : Reported o' ↔ CloseAnswered o a := by
  obtain ⟨d', hStep, rfl⟩ := Option.map_eq_some_iff.mp h
  unfold Reported CloseAnswered
  cases step_turn hStep with
  | still hPhase hTrip =>
    rw [hTrip, hPhase]
    exact iff_of_true hReported (by simp)
  | starts hStarts hTrip =>
    rw [hTrip]
    refine iff_of_true (fun sql ok hFinished hAcked => ?_) (by simp)
    rw [hStarts.acked_none hTracks] at hAcked
    cases hAcked
  | settles hSettles hTrip =>
    rw [hTrip]
    refine (hSettles.reported hTracks).trans ?_
    simp

/-- In every run, Commit and Rollback report an acknowledged statement as done if and only if
no close after an acknowledgement fails. -/
theorem acknowledged_reported_iff (cfg : Config) (ttl maxLife : Time) (max : Int) (actions : List Action) :
    Always (step cfg) Reported (init ttl maxLife max) actions ↔
      Guarded (step cfg) CloseAnswered (init ttl maxLife max) actions := by
  have hInit : Tracks (init ttl maxLife max).state.client.phase (init ttl maxLife max).acked :=
    tracks_none (by simp [init, Driver.init])
  constructor
  · intro hAlways
    have hExact : ∀ o a o', Tracks o.state.client.phase o.acked → Reported o → step cfg o a = some o' → Reported o' →
        CloseAnswered o a :=
      fun o a o' hTracks hReported hStep => (step_reported hTracks hReported hStep).mp
    exact guarded_of_always (fun _ _ _ => step_tracks) hExact hInit hAlways
  · intro hGuarded
    have hStep : ∀ o a o', Tracks o.state.client.phase o.acked ∧ Reported o → CloseAnswered o a → step cfg o a = some o' →
        Tracks o'.state.client.phase o'.acked ∧ Reported o' :=
      fun o a o' hBoth hClose hStep =>
        ⟨step_tracks hBoth.1 hStep, (step_reported hBoth.1 hBoth.2 hStep).mpr hClose⟩
    refine (always_of_guarded hStep ⟨hInit, ?_⟩ hGuarded).mono fun _ hBoth => hBoth.2
    intro sql ok hPhase
    cases hPhase

/-- COMMIT is executed and its answer received; then the answer to the close is lost. -/
def lostClose : List Action :=
  [.begin, .deliver 0 sampleId, .execute 0 true, .reply 0, .receive 0 true,
   .commit, .deliver 1 sampleId, .execute 1 true, .reply 1, .receive 1 true, .lose]

theorem committed_reported_as_failed :
    let cfg : Config := ⟨plainBatons, ⟨"d", "alice", false, false⟩⟩
    ¬ Always (step cfg) Reported (init 5 9 4) lostClose := by
  intro cfg hAlways
  have hRun : (run (step cfg) (init 5 9 4) lostClose).map
      (fun o => (o.state.client.phase, o.acked, o.state.log.map fun e => (e.sql, e.ok))) =
      some (.finished .commit false, some .commit, [(.begin, true), (.commit, true)]) := by
    decide +kernel
  obtain ⟨o, ho, hEnd⟩ := Option.map_eq_some_iff.mp hRun
  simp only [Prod.mk.injEq] at hEnd
  exact absurd (hAlways.final ho .commit false hEnd.1 hEnd.2.1) (by decide)

end Observed

end QuicSql.Driver
