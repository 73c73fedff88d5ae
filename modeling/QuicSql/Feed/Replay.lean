import QuicSql.Feed.Model
import QuicSql.Lib.Pool

/-!
# The ring and the replay

The feed's ring, and what a subscriber is replayed from it, are compared with the
history of all events published, as long as their number fits in the 64 bits of
the feed's counter.
-/

namespace QuicSql.Feed

open Lib

structure Recorded (cfg : Config) (f : DbFeed) (history : List Event) : Prop where
  seq : f.seq = history.length
  numbered : ∀ (k : Nat) (e : Event), history[k]? = some e → e.seq = k + 1
  length : f.ring.length = cfg.cap
  ring : Ring.Holds zeroEvent f.ring history

theorem slot_succ (cfg : Config) {k : Nat} (h : k + 1 < 2 ^ 64) : slot cfg (k + 1) = k % cfg.cap := by
  have hBefore : k + 1 + 2 ^ 64 - 1 = k + 2 ^ 64 := by omega
  have hFits : k < 2 ^ 64 := by omega
  rw [slot, hBefore, Nat.add_mod_right, Nat.mod_eq_of_lt hFits]

variable {cfg : Config} {f : DbFeed} {history : List Event}

theorem Recorded.withSubs (h : Recorded cfg f history) (subs : Finset Nat) :
    Recorded cfg { f with subs := subs } history :=
  ⟨h.seq, h.numbered, h.length, h.ring⟩

theorem Recorded.push (h : Recorded cfg f history) (hSmall : history.length + 1 < 2 ^ 64) (e : Event)
    {seq : Nat} (hSeq : seq = (f.seq + 1) % 2 ^ 64) :
    Recorded cfg { f with seq := seq, ring := f.ring.set (slot cfg seq) { e with seq := seq } }
      (history ++ [{ e with seq := seq }]) := by
  rw [h.seq, Nat.mod_eq_of_lt hSmall] at hSeq
  subst hSeq
  constructor
  · simp
  · intro k e' hEntry
    rcases getElem?_append_cases hEntry with ⟨rfl, rfl⟩ | ⟨-, hOld⟩
    · rfl
    · exact h.numbered k e' hOld
  · exact (List.length_set ..).trans h.length
  · rw [slot_succ cfg hSmall, ← h.length]
    exact h.ring.push (by rw [h.length]; exact cfg.capPos) _

theorem Recorded.getD_slot (h : Recorded cfg f history) {k : Nat} (hk : k < history.length)
    (hNear : history.length ≤ k + cfg.cap) (hSmall : history.length < 2 ^ 64) :
    f.ring.getD (slot cfg (k + 1)) zeroEvent = history[k] := by
  have hSlot := h.ring.recent k hk (by rw [h.length]; exact hNear)
  rw [h.length, List.getElem?_eq_getElem hk] at hSlot
  rw [slot_succ cfg (by omega), List.getD_eq_getElem?_getD, hSlot]
  rfl

theorem Recorded.replay (h : Recorded cfg f history) (hSmall : history.length + 1 < 2 ^ 64)
    {k fuel : Nat} (hk : k ≤ history.length) (hNear : history.length ≤ k + cfg.cap)
    (hFuel : history.length - k < fuel) :
    replayLoop cfg f fuel (k + 1) = some (history.drop k) := by
  induction fuel generalizing k with
  | zero => omega
  | succ fuel ih =>
    unfold replayLoop
    rw [h.seq]
    rcases Nat.lt_or_eq_of_le hk with hLt | rfl
    · rw [if_pos (Nat.succ_le_of_lt hLt), Nat.mod_eq_of_lt (by omega), ih hLt (by omega) (by omega),
        h.getD_slot hLt hNear (by omega), List.drop_eq_getElem_cons hLt]
      rfl
    · rw [if_neg (by omega), List.drop_length]

/-- At the largest number the loop's counter wraps around and never gets past it. -/
theorem replayLoop_max (hSeq : f.seq = 2 ^ 64 - 1) {sq : Nat} (hsq : sq < 2 ^ 64) (fuel : Nat) :
    replayLoop cfg f fuel sq = none := by
  induction fuel generalizing sq with
  | zero => rfl
  | succ fuel ih =>
    unfold replayLoop
    rw [if_pos (by omega), ih (Nat.mod_lt _ (by decide))]
    rfl

theorem retained_eq (cfg : Config) (f : DbFeed) : retained cfg f = min f.seq cfg.cap := by
  unfold retained
  split <;> omega

/-- For a number the feed has reached, an answer is a reset exactly when the next event
has left the window of the ring, and else the replay from there on. -/
theorem Recorded.horizon_spec (h : Recorded cfg f history) (hSmall : history.length < 2 ^ 64) {since : Nat}
    (hPos : 1 ≤ since) (hSince : since ≤ history.length) {replay : List Event} {reset : Bool}
    (hHorizon : horizon cfg f since = some (replay, reset)) :
    (reset = true ↔ since + cfg.cap < history.length) ∧ (reset = true → replay = []) ∧
      (reset = false → replay = history.drop since) := by
  have hCap := cfg.capPos
  unfold horizon at hHorizon
  rw [retained_eq, h.seq, if_neg (by omega)] at hHorizon
  split at hHorizon
  · rename_i hBehind
    rw [Nat.mod_eq_of_lt (by omega)] at hHorizon
    split at hHorizon
    · cases hHorizon
      exact ⟨by simp only [true_iff]; omega, fun _ => rfl, nofun⟩
    · obtain ⟨events, hLoop, hResult⟩ := Option.map_eq_some_iff.mp hHorizon
      cases hResult
      -- The loop came to an end, so the counter did not wrap.
      have hNotMax : history.length + 1 < 2 ^ 64 := by
        by_contra hMax
        rw [replayLoop_max (by rw [h.seq]; omega) (by omega)] at hLoop
        cases hLoop
      rw [h.replay hNotMax hSince (by omega) (by omega)] at hLoop
      cases hLoop
      exact ⟨by simp only [Bool.false_eq_true, false_iff]; omega, nofun, fun _ => rfl⟩
  · cases hHorizon
    obtain rfl : since = history.length := by omega
    exact ⟨by simp, nofun, fun _ => List.drop_length.symm⟩

theorem Recorded.horizon_left (h : Recorded cfg f history) (hSmall : history.length < 2 ^ 64) {since : Nat}
    (hPos : 1 ≤ since) (hFar : since + cfg.cap < history.length) : horizon cfg f since = some ([], true) := by
  unfold horizon
  rw [retained_eq, h.seq, if_neg (by omega), if_pos (by omega), Nat.mod_eq_of_lt (by omega), if_pos (by omega)]

theorem Recorded.horizon_start (h : Recorded cfg f history) (hSmall : history.length < 2 ^ 64) {since : Nat}
    {replay : List Event} {reset : Bool} (hHorizon : horizon cfg f since = some (replay, reset)) :
    (since = 0 ∨ reset = true → replay = []) ∧
      (¬ (since = 0 ∨ reset = true) → since ≤ history.length ∧ replay = history.drop since) := by
  rcases Nat.eq_zero_or_pos since with rfl | hPos
  · cases hHorizon
    exact ⟨fun _ => rfl, fun hNot => absurd (.inl rfl) hNot⟩
  · rcases Nat.lt_or_ge history.length since with hAhead | hSince
    · rw [horizon, h.seq, if_pos hAhead] at hHorizon
      cases hHorizon
      exact ⟨fun _ => rfl, fun hNot => absurd (.inr rfl) hNot⟩
    · obtain ⟨-, hReset, hReplay⟩ := h.horizon_spec hSmall hPos hSince hHorizon
      constructor
      · rintro (rfl | hTrue)
        · cases hPos
        · exact hReset hTrue
      · intro hNot
        exact ⟨hSince, hReplay (Bool.eq_false_iff.mpr (fun hTrue => hNot (.inr hTrue)))⟩

theorem Recorded.horizon_returns (h : Recorded cfg f history) (hSmall : history.length + 1 < 2 ^ 64) (since : Nat) :
    ∃ answer, horizon cfg f since = some answer := by
  have hCap := cfg.capPos
  unfold horizon
  rw [retained_eq, h.seq]
  split
  · exact ⟨_, rfl⟩
  · split
    · rename_i hBehind
      rw [Nat.mod_eq_of_lt (by omega)]
      split
      · exact ⟨_, rfl⟩
      · rw [h.replay hSmall (by omega) (by omega) (by omega)]
        exact ⟨_, rfl⟩
    · exact ⟨_, rfl⟩

/-- An event is in the ring exactly as long as fewer than `cap` others came after it. -/
theorem Recorded.left_ring_iff (h : Recorded cfg f history) {since : Nat} (hNext : since < history.length) :
    (∀ e ∈ f.ring, e.seq ≠ since + 1) ↔ since + cfg.cap < history.length := by
  constructor
  · intro hLeft
    by_contra hNear
    have hSlot := h.ring.recent since hNext (by rw [h.length]; omega)
    rw [List.getElem?_eq_getElem hNext] at hSlot
    exact hLeft _ (List.mem_of_getElem? hSlot) (h.numbered since _ (List.getElem?_eq_getElem hNext))
  · intro hFar e hMem hSeq
    obtain ⟨i, hi⟩ := List.getElem?_of_mem hMem
    rcases h.ring.only i e hi with rfl | ⟨k, -, hNear, -, hEntry⟩
    · cases hSeq
    · rw [h.numbered k e hEntry] at hSeq
      rw [h.length] at hNear
      omega

end QuicSql.Feed
