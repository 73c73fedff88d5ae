import QuicSql.Client.Follow

/-!
# Statements of a transaction run on one session

On the server the statements that run on the session of BEGIN are ordered by
generation, at the client they are ordered by call, and a later call never carries
an older generation: so the two orders agree.
-/

namespace QuicSql.Driver

open Lib Sessions

def Exec.stmt? (e : Exec) : Option Nat :=
  match e.sql with
  | .stmt k => some k
  | _ => none

structure Pinned (d : State) : Prop where
  single : ∀ e ∈ d.log, ∀ e' ∈ d.log, ∀ k k', e.sql = .stmt k → e'.sql = .stmt k' →
    e.session.isSome ∧ e.session = e'.session
  ordered : (d.log.filterMap Exec.stmt?).Pairwise (· < ·)
  begun : ∀ (i : Nat) (e : Exec) (k : Nat), d.log[i]? = some e → e.sql = .stmt k →
    ∃ j < i, ∃ b : Exec, d.log[j]? = some b ∧ b.sql = .begin ∧ b.ok = true ∧ b.session = e.session
  committed : d.client.phase = .finished .commit true →
    ∃ (j : Nat) (c : Exec), d.log[j]? = some c ∧ c.sql = .commit ∧ c.ok = true ∧
      (∀ e ∈ d.log, ∀ k, e.sql = .stmt k → e.session = c.session) ∧
      ∀ k, (k, true) ∈ d.client.returned →
        ∃ i < j, ∃ e : Exec, d.log[i]? = some e ∧ e.sql = .stmt k ∧ e.ok = true ∧ e.session = c.session

variable {cfg : Config} {d : State}

theorem Threaded.stmt_thread (h : Threaded cfg d) {e : Exec} {k : Nat} (he : e ∈ d.log) (hSql : e.sql = .stmt k) :
    ∃ p, d.client.thread = some p ∧ e.session = some p ∧ 1 < e.gen ∧ Begun d := by
  obtain ⟨q, p, hServes, hSession, hBody, hGen, _⟩ := h.log e he
  rw [hSql] at hBody
  have hSent := h.sent q (List.mem_of_getElem? hServes.sent)
  rcases hSent.baton with ⟨_, _, hBegin⟩ | ⟨⟨_, _, _, _, hPos, _⟩, _⟩
  · rw [hBody] at hBegin
    cases hBegin
  · exact ⟨p, hServes.thread (Nat.ne_of_gt hPos), hSession, by omega, (hSent.stmt k hBody).1⟩

theorem Threaded.lt_of_gen_lt (h : Threaded cfg d) {i j : Nat} {e e' : Exec} (hi : d.log[i]? = some e)
    (hj : d.log[j]? = some e') (hSession : e.session = e'.session) (hGen : e.gen < e'.gen) : i < j := by
  obtain ⟨hi', rfl⟩ := List.getElem?_eq_some_iff.mp hi
  obtain ⟨hj', rfl⟩ := List.getElem?_eq_some_iff.mp hj
  rcases Nat.lt_trichotomy i j with hLt | rfl | hGt
  · exact hLt
  · exact absurd hGen (Nat.lt_irrefl _)
  · have hBack := List.pairwise_iff_getElem.mp h.order j i hj' hi' hGt hSession.symm
    omega

theorem Threaded.stmt_lt (h : Threaded cfg d) {e e' : Exec} {k k' : Nat} (he : e ∈ d.log) (he' : e' ∈ d.log)
    (hSql : e.sql = .stmt k) (hSql' : e'.sql = .stmt k') (hGen : e.gen < e'.gen) : k < k' := by
  obtain ⟨q, _, hServes, _, hBody, hq, _⟩ := h.log e he
  obtain ⟨q', _, hServes', _, hBody', hq', _⟩ := h.log e' he'
  obtain ⟨hr, hqr⟩ := List.getElem?_eq_some_iff.mp hServes.sent
  obtain ⟨hr', hqr'⟩ := List.getElem?_eq_some_iff.mp hServes'.sent
  have hPair := List.pairwise_iff_getElem.mp h.calls
  rw [hSql] at hBody
  rw [hSql'] at hBody'
  rcases Nat.lt_trichotomy e.request e'.request with hLt | hEq | hGt
  · have hPre := hPair _ _ hr hr' hLt
    rw [hqr, hqr'] at hPre
    exact hPre.2 k k' hBody hBody'
  · -- One request has one generation.
    have hSame : q = q' := by
      rw [← hqr, ← hqr']
      simp only [hEq]
    subst hSame
    omega
  · have hPre := hPair _ _ hr' hr hGt
    rw [hqr, hqr'] at hPre
    have hLe := hPre.1
    omega

theorem Threaded.ordered (h : Threaded cfg d) : (d.log.filterMap Exec.stmt?).Pairwise (· < ·) := by
  rw [List.pairwise_filterMap]
  refine h.order.imp_of_mem (fun {e e'} he he' hBefore k hk k' hk' => ?_)
  have hSql : e.sql = .stmt k := by
    unfold Exec.stmt? at hk
    split at hk
    · cases hk
      assumption
    · cases hk
  have hSql' : e'.sql = .stmt k' := by
    unfold Exec.stmt? at hk'
    split at hk'
    · cases hk'
      assumption
    · cases hk'
  obtain ⟨p, hThread, hSession, _⟩ := h.stmt_thread he hSql
  obtain ⟨p', hThread', hSession', _⟩ := h.stmt_thread he' hSql'
  obtain rfl : p = p' := Option.some.inj (hThread.symm.trans hThread')
  exact h.stmt_lt he he' hSql hSql' (hBefore (hSession.trans hSession'.symm))

theorem Threaded.begun (h : Threaded cfg d) {i : Nat} {e : Exec} {k : Nat} (hi : d.log[i]? = some e)
    (hSql : e.sql = .stmt k) :
    ∃ j < i, ∃ b : Exec, d.log[j]? = some b ∧ b.sql = .begin ∧ b.ok = true ∧ b.session = e.session := by
  obtain ⟨p, hThread, hSession, hGen, p', hThread', b, hb, hBegin, hOk, hbSession, hbGen⟩ :=
    h.stmt_thread (List.mem_of_getElem? hi) hSql
  obtain rfl : p = p' := Option.some.inj (hThread.symm.trans hThread')
  obtain ⟨j, hj⟩ := List.mem_iff_getElem?.mp hb
  have hSame : b.session = e.session := hbSession.trans hSession.symm
  exact ⟨j, h.lt_of_gen_lt hj hi hSame (by omega), b, hj, hBegin, hOk, hSame⟩

theorem Good.pinned (h : Good cfg d) : Pinned d where
  single e he e' he' k k' hSql hSql' := by
    obtain ⟨p, hThread, hSession, _⟩ := h.threaded.stmt_thread he hSql
    obtain ⟨p', hThread', hSession', _⟩ := h.threaded.stmt_thread he' hSql'
    rw [hSession, hSession', ← hThread, ← hThread']
    exact ⟨by rw [hThread]; rfl, rfl⟩
  ordered := h.threaded.ordered
  begun i e k hi hSql := h.threaded.begun hi hSql
  committed hPhase := by
    have hOk := h.phase
    simp only [PhaseOk, hPhase] at hOk
    obtain ⟨p, hThread, c, hc, hSql, hcOk, hSession, hAll⟩ := hOk trivial
    obtain ⟨j, hj⟩ := List.mem_iff_getElem?.mp hc
    refine ⟨j, c, hj, hSql, hcOk, fun e he k heSql => ?_, fun k hk => ?_⟩
    · obtain ⟨p', hThread', heSession, _⟩ := h.threaded.stmt_thread he heSql
      rw [hSession, heSession, ← hThread', hThread]
    · obtain ⟨e, he, heSql, heOk, heSession, hGen⟩ := hAll k hk
      obtain ⟨i, hi⟩ := List.mem_iff_getElem?.mp he
      have hSame : e.session = c.session := heSession.trans hSession.symm
      exact ⟨i, h.threaded.lt_of_gen_lt hi hj hSame hGen, e, hi, heSql, heOk, hSame⟩

/-- Whatever the network loses, repeats or delays and whichever sessions are reaped or
killed. -/
theorem transaction_pinned_once (cfg : Config) (ttl maxLife : Time) (max : Int) (actions : List Action)
    (hUnforged : Guarded (step cfg) (Unforged cfg) (init ttl maxLife max) actions) :
    Always (step cfg) Pinned (init ttl maxLife max) actions :=
  (always_of_guarded (fun _ _ _ h hAct hStep => Good.step h hAct hStep) (good_init ttl maxLife max) hUnforged).mono
    (fun _ h => h.pinned)

/-- The interface without any cryptography, to run the transaction on given inputs. -/
def plainBatons : BatonCodec where
  toCodec := plainCodec
  encode_ne_empty token hToken hEmpty := by
    have hNil : (plainCodec.encode token).toList = [] := by
      rw [hEmpty]
      rfl
    simp only [plainCodec, String.toList_ofList, List.map_eq_nil_iff] at hNil
    exact hToken hNil

def spareId : SessionId := ⟨List.replicate idLen (UInt8.ofNat 5), List.length_replicate⟩

/-- BEGIN is delivered twice and opens two sessions, and the first statement is lost: the
second one takes its generation, and it comes in too late. -/
def lossyCommit : List Action :=
  [.begin, .deliver 0 spareId, .deliver 0 sampleId, .execute 1 true, .reply 1, .receive 0 true,
   .exec, .lose, .exec, .deliver 2 spareId, .deliver 1 spareId, .execute 2 true, .reply 2, .receive 2 true,
   .other (.tick 2), .commit, .deliver 3 spareId, .execute 3 true, .reply 3,
   .receive 3 true, .deliver 4 spareId, .reply 4, .receive 4 true]

theorem lossyCommit_pinned :
    let cfg : Config := ⟨plainBatons, ⟨"d", "alice", false, false⟩⟩
    (run (step cfg) (init 5 9 4) lossyCommit).map (fun d => (d.client.phase, d.log.filterMap Exec.stmt?)) =
      some (.finished .commit true, [1]) ∧
    Guarded (step cfg) (Unforged cfg) (init 5 9 4) lossyCommit ∧
    Always (step cfg) Pinned (init 5 9 4) lossyCommit := by
  intro cfg
  have hUnforged : Guarded (step cfg) (Unforged cfg) (init 5 9 4) lossyCommit := by decide +kernel
  exact ⟨by decide +kernel, hUnforged, transaction_pinned_once cfg 5 9 4 lossyCommit hUnforged⟩

end QuicSql.Driver
