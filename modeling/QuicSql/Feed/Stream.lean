import QuicSql.Feed.Replay

/-!
# Exact subscriber streams

Over every run of a feed, the replay of a subscriber followed by what comes out of
its channel is a gapless stretch of the history. One step is the delivery of one
event to one subscriber, so consumers receive, and fall behind, in the middle of a
batch.
-/

namespace QuicSql.Feed

open Lib

def Subscriber.start (sub : Subscriber) : Nat :=
  if sub.since = 0 ∨ sub.reset = true then sub.seq else sub.since

/-- The event at hand has still to be offered to this subscriber. -/
def State.owes (s : State) (id : Nat) : Bool := s.publishing.any (fun p => id ∈ p.todo)

def State.reach (s : State) (id : Nat) (sub : Subscriber) : Nat :=
  sub.upto.getD (if s.owes id then s.history.length - 1 else s.history.length)

structure SubOk (s : State) (id : Nat) (sub : Subscriber) : Prop where
  attached : sub.upto = none ↔ id ∈ s.feed.subs
  closed : sub.closed = true ↔ id ∉ s.feed.subs
  start_le : sub.start ≤ s.reach id sub
  reach_le : s.reach id sub ≤ s.history.length
  stream : sub.replay ++ sub.received ++ sub.buf = (s.history.take (s.reach id sub)).drop sub.start

structure Inv (cfg : Config) (s : State) : Prop where
  recorded : Recorded cfg s.feed s.history
  made : ∀ id ∈ s.feed.subs, id < s.heap.length
  todo : ∀ p, s.publishing = some p → p.todo ⊆ s.feed.subs
  current : ∀ p, s.publishing = some p → p.todo.Nonempty → s.history.getLast? = some p.event
  limit : 0 < cfg.maxSubs → (s.feed.subs.card : Int) ≤ cfg.maxSubs
  subs : ∀ id sub, s.heap[id]? = some sub → SubOk s id sub

variable {cfg : Config} {s t : State} {id : Nat} {sub : Subscriber}

theorem inv_init (cfg : Config) : Inv cfg (init cfg) where
  recorded := {
    seq := rfl
    numbered := by
      intro k e h
      cases h
    length := List.length_replicate
    ring := Ring.holds_replicate _ _ }
  made := by
    intro id h
    cases h
  todo := nofun
  current := nofun
  limit := fun hPos => Int.le_of_lt hPos
  subs := by
    intro id sub h
    cases h

theorem reach_of_upto {n : Nat} (h : sub.upto = some n) : s.reach id sub = n := by
  rw [State.reach, h, Option.getD_some]

theorem reach_of_owes (h : sub.upto = none) (hOwes : s.owes id = true) :
    s.reach id sub = s.history.length - 1 := by
  rw [State.reach, h, Option.getD_none, if_pos hOwes]

theorem reach_of_not_owes (h : sub.upto = none) (hOwes : s.owes id = false) :
    s.reach id sub = s.history.length := by
  rw [State.reach, h, Option.getD_none, hOwes, if_neg Bool.false_ne_true]

theorem SubOk.frame (h : SubOk s id sub) (hSubs : id ∈ t.feed.subs ↔ id ∈ s.feed.subs)
    (hHistory : t.history = s.history) (hOwes : t.owes id = s.owes id) : SubOk t id sub := by
  have hReach : t.reach id sub = s.reach id sub := by
    unfold State.reach
    rw [hHistory, hOwes]
  constructor
  · rw [hSubs]
    exact h.attached
  · rw [hSubs]
    exact h.closed
  · rw [hReach]
    exact h.start_le
  · rw [hReach, hHistory]
    exact h.reach_le
  · rw [hReach, hHistory]
    exact h.stream

theorem owes_of_none (h : s.publishing = none) (id : Nat) : s.owes id = false := by
  rw [State.owes, h]
  rfl

theorem owes_of_some {p : Publishing} (h : s.publishing = some p) (id : Nat) :
    s.owes id = decide (id ∈ p.todo) := by
  rw [State.owes, h]
  rfl

theorem owes_of_empty {p : Publishing} (h : s.publishing = some p) (hTodo : p.todo = ∅) (id : Nat) :
    s.owes id = false := by
  rw [owes_of_some h, hTodo]
  rfl

/-! ## Publishing -/

theorem Inv.lock (h : Inv cfg s) {publishing : Option Publishing}
    (hQuiet : ∀ p, publishing = some p → p.todo = ∅) (hBefore : ∀ id, s.owes id = false) :
    Inv cfg { s with publishing := publishing } := by
  have hOwes : ∀ id, State.owes { s with publishing := publishing } id = false := by
    intro id
    cases publishing with
    | none => rfl
    | some p => exact owes_of_empty rfl (hQuiet p rfl) id
  constructor
  · exact h.recorded
  · exact h.made
  · intro p hp
    rw [hQuiet p hp]
    exact Finset.empty_subset _
  · intro p hp hTodo
    rw [hQuiet p hp] at hTodo
    exact absurd hTodo Finset.not_nonempty_empty
  · exact h.limit
  · intro id sub hSub
    exact (h.subs id sub hSub).frame Iff.rfl rfl ((hOwes id).trans (hBefore id).symm)

theorem next_length (e : Event) (rest : List Event) :
    (s.next cfg e rest).history.length = s.history.length + 1 :=
  List.length_append

theorem Inv.next (h : Inv cfg s) (hSmall : s.history.length + 1 < 2 ^ 64)
    (hBefore : ∀ id, s.owes id = false) (e : Event) (rest : List Event) : Inv cfg (s.next cfg e rest) := by
  constructor
  · exact h.recorded.push hSmall e rfl
  · exact h.made
  · rintro p ⟨⟩
    exact Finset.Subset.refl _
  · rintro p ⟨⟩ -
    exact List.getLast?_concat
  · exact h.limit
  · intro id sub hSub
    have hOk := h.subs id sub hSub
    -- The history grows by the event at hand, which nobody has been offered yet.
    have hReach : (s.next cfg e rest).reach id sub = s.reach id sub := by
      cases hUpto : sub.upto with
      | some n => rw [reach_of_upto hUpto, reach_of_upto hUpto]
      | none =>
        have hOwes : (s.next cfg e rest).owes id = true := by
          rw [owes_of_some rfl]
          exact decide_eq_true (hOk.attached.mp hUpto)
        rw [reach_of_owes hUpto hOwes, reach_of_not_owes hUpto (hBefore id), next_length, Nat.add_sub_cancel]
    constructor
    · exact hOk.attached
    · exact hOk.closed
    · rw [hReach]
      exact hOk.start_le
    · rw [hReach, next_length]
      exact Nat.le_succ_of_le hOk.reach_le
    · rw [hReach, hOk.stream]
      exact congrArg (List.drop sub.start) (List.take_append_of_le_length hOk.reach_le).symm

theorem Inv.history_eq (h : Inv cfg s) {p : Publishing} (hp : s.publishing = some p) (hTodo : id ∈ p.todo) :
    s.history = s.history.take (s.history.length - 1) ++ [p.event] := by
  have hLast := h.current p hp ⟨id, hTodo⟩
  rw [← List.dropLast_eq_take]
  exact (List.dropLast_append_getLast? _ hLast).symm

theorem Inv.offer_others (h : Inv cfg s) {p : Publishing} (hp : s.publishing = some p)
    (hPublishing : t.publishing = some { p with todo := p.todo.erase id }) (hHistory : t.history = s.history)
    (hSubs : ∀ other, id ≠ other → (other ∈ t.feed.subs ↔ other ∈ s.feed.subs))
    {other : Nat} (hOther : id ≠ other) (hSub : s.heap[other]? = some sub) : SubOk t other sub := by
  refine (h.subs other sub hSub).frame (hSubs other hOther) hHistory ?_
  rw [owes_of_some hPublishing, owes_of_some hp]
  simp [Finset.mem_erase, hOther.symm]

theorem Inv.reach_todo (h : Inv cfg s) {p : Publishing} (hp : s.publishing = some p) (hTodo : id ∈ p.todo)
    (hSub : s.heap[id]? = some sub) : sub.upto = none ∧ s.reach id sub = s.history.length - 1 := by
  have hUpto := (h.subs id sub hSub).attached.mpr (h.todo p hp hTodo)
  refine ⟨hUpto, reach_of_owes hUpto ?_⟩
  rw [owes_of_some hp]
  exact decide_eq_true hTodo

theorem Inv.send (h : Inv cfg s) {p : Publishing} (hp : s.publishing = some p) (hTodo : id ∈ p.todo)
    (hSub : s.heap[id]? = some sub) : Inv cfg (s.send p id sub) := by
  constructor
  · exact h.recorded
  · intro other hOther
    exact (h.made other hOther).trans_eq (List.length_set ..).symm
  · rintro p' ⟨⟩
    exact (Finset.erase_subset _ _).trans (h.todo p hp)
  · rintro p' ⟨⟩ hMore
    exact h.current p hp (hMore.mono (Finset.erase_subset _ _))
  · exact h.limit
  · intro other sub' hSub'
    rcases getElem?_set_cases hSub' with ⟨rfl, rfl⟩ | ⟨hNe, hOld⟩
    · have hOk := h.subs id sub hSub
      obtain ⟨hUpto, hReach⟩ := h.reach_todo hp hTodo hSub
      have hStart := hOk.start_le
      have hStream := hOk.stream
      rw [hReach] at hStart hStream
      have hDone : (s.send p id sub).reach id { sub with buf := sub.buf ++ [p.event] } = s.history.length :=
        reach_of_not_owes hUpto (by rw [owes_of_some rfl]; simp)
      constructor
      · exact hOk.attached
      · exact hOk.closed
      · rw [hDone]
        exact Nat.le_trans hStart (Nat.sub_le _ _)
      · exact hDone.le
      · rw [hDone]
        change sub.replay ++ sub.received ++ (sub.buf ++ [p.event]) = (s.history.take s.history.length).drop sub.start
        rw [← List.append_assoc, hStream, List.take_length]
        conv_rhs => rw [h.history_eq hp hTodo]
        exact (List.drop_append_of_le_length (by rw [List.length_take]; omega)).symm
    · exact h.offer_others (t := s.send p id sub) hp rfl rfl (fun _ _ => Iff.rfl) hNe hOld

theorem mem_erase_of_ne {subs : Finset Nat} {other : Nat} (h : id ≠ other) :
    other ∈ subs.erase id ↔ other ∈ subs := by
  rw [Finset.mem_erase, and_iff_right h.symm]

theorem SubOk.close (h : SubOk s id sub) {n : Nat} (hReach : s.reach id sub = n)
    (hSubs : id ∉ t.feed.subs) (hHistory : t.history = s.history) : SubOk t id (sub.close n) := by
  have hClosed : t.reach id (sub.close n) = s.reach id sub := by
    rw [hReach]
    rfl
  constructor
  · exact ⟨nofun, fun hIn => absurd hIn hSubs⟩
  · exact ⟨fun _ => hSubs, fun _ => rfl⟩
  · rw [hClosed]
    exact h.start_le
  · rw [hClosed, hHistory]
    exact h.reach_le
  · rw [hClosed, hHistory]
    exact h.stream

theorem card_erase_le {n : Int} {subs : Finset Nat} (h : (subs.card : Int) ≤ n) (id : Nat) :
    ((subs.erase id).card : Int) ≤ n := by
  have hLess := Finset.card_erase_le (s := subs) (a := id)
  omega

theorem Inv.drop (h : Inv cfg s) {p : Publishing} (hp : s.publishing = some p) (hTodo : id ∈ p.todo)
    (hSub : s.heap[id]? = some sub) : Inv cfg (s.drop p id sub) := by
  constructor
  · exact h.recorded.withSubs _
  · intro other hOther
    exact (h.made other (Finset.mem_of_mem_erase hOther)).trans_eq (List.length_set ..).symm
  · rintro p' ⟨⟩
    exact Finset.erase_subset_erase _ (h.todo p hp)
  · rintro p' ⟨⟩ hMore
    exact h.current p hp (hMore.mono (Finset.erase_subset _ _))
  · exact fun hPos => card_erase_le (h.limit hPos) id
  · intro other sub' hSub'
    rcases getElem?_set_cases hSub' with ⟨rfl, rfl⟩ | ⟨hNe, hOld⟩
    · exact (h.subs id sub hSub).close (h.reach_todo hp hTodo hSub).2 (Finset.notMem_erase _ _) rfl
    · exact h.offer_others (t := s.drop p id sub) hp rfl rfl (fun _ hNe => mem_erase_of_ne hNe) hNe hOld

/-! ## Attaching, detaching and receiving -/

theorem subOk_fresh {since seq : Nat} {replay : List Event} {reset : Bool} (hp : t.publishing = none)
    (hIn : id ∈ t.feed.subs) (hSeq : seq = t.history.length)
    (hEmpty : since = 0 ∨ reset = true → replay = [])
    (hReplay : ¬ (since = 0 ∨ reset = true) → since ≤ t.history.length ∧ replay = t.history.drop since) :
    SubOk t id ⟨[], false, since, replay, reset, seq, [], none⟩ := by
  have hReach : t.reach id ⟨[], false, since, replay, reset, seq, [], none⟩ = t.history.length :=
    reach_of_not_owes rfl (owes_of_none hp id)
  have hStream : (if since = 0 ∨ reset = true then seq else since) ≤ t.history.length ∧
      replay = t.history.drop (if since = 0 ∨ reset = true then seq else since) := by
    split
    · rename_i hNone
      exact ⟨hSeq.le, by rw [hEmpty hNone, hSeq, List.drop_length]⟩
    · rename_i hSome
      exact hReplay hSome
  constructor
  · exact ⟨fun _ => hIn, fun _ => rfl⟩
  · exact ⟨nofun, fun hOut => absurd hIn hOut⟩
  · exact hStream.1.trans_eq hReach.symm
  · exact hReach.le
  · rw [hReach, List.take_length, List.append_nil, List.append_nil]
    exact hStream.2

theorem Inv.attach (h : Inv cfg s) (hSmall : s.history.length < 2 ^ 64) (hp : s.publishing = none)
    (hFull : ¬ Full cfg s.feed) {since : Nat} {replay : List Event} {reset : Bool}
    (hHorizon : horizon cfg s.feed since = some (replay, reset)) :
    Inv cfg (s.attach { s.feed with subs := insert s.heap.length s.feed.subs } since
      ⟨some s.heap.length, replay, reset, false, s.feed.seq⟩) := by
  constructor
  · exact h.recorded.withSubs _
  · intro id hId
    refine Nat.lt_of_lt_of_eq ?_ List.length_append.symm
    rcases Finset.mem_insert.mp hId with rfl | hOld
    · exact Nat.lt_succ_self _
    · exact Nat.lt_succ_of_lt (h.made id hOld)
  · intro p hSome
    cases hp.symm.trans hSome
  · intro p hSome
    cases hp.symm.trans hSome
  · intro hPos
    have hRoom : (s.feed.subs.card : Int) < cfg.maxSubs := Int.not_le.mp (fun hLe => hFull ⟨hPos, hLe⟩)
    have hCard := Finset.card_insert_le s.heap.length s.feed.subs
    dsimp only [State.attach]
    omega
  · intro id sub hSub
    rcases getElem?_append_cases hSub with ⟨rfl, rfl⟩ | ⟨hLt, hOld⟩
    · obtain ⟨hEmpty, hReplay⟩ := h.recorded.horizon_start hSmall hHorizon
      exact subOk_fresh hp (Finset.mem_insert_self _ _) h.recorded.seq hEmpty hReplay
    · refine (h.subs id sub hOld).frame ?_ rfl rfl
      exact Finset.mem_insert.trans (or_iff_right (Nat.ne_of_lt hLt))

theorem Inv.detach (h : Inv cfg s) (hp : s.publishing = none) (hIn : id ∈ s.feed.subs)
    (hSub : s.heap[id]? = some sub) : Inv cfg (s.detach id sub) := by
  have hOk := h.subs id sub hSub
  have hReach := reach_of_not_owes (hOk.attached.mpr hIn) (owes_of_none hp id)
  constructor
  · exact h.recorded.withSubs _
  · intro other hOther
    exact (h.made other (Finset.mem_of_mem_erase hOther)).trans_eq (List.length_set ..).symm
  · intro p hSome
    cases hp.symm.trans hSome
  · intro p hSome
    cases hp.symm.trans hSome
  · exact fun hPos => card_erase_le (h.limit hPos) id
  · intro other sub' hSub'
    rcases getElem?_set_cases hSub' with ⟨rfl, rfl⟩ | ⟨hNe, hOld⟩
    · exact hOk.close hReach (Finset.notMem_erase _ _) rfl
    · exact (h.subs other sub' hOld).frame (mem_erase_of_ne hNe) rfl rfl

theorem Inv.detachAll (h : Inv cfg s) (hp : s.publishing = none) : Inv cfg s.detachAll := by
  constructor
  · exact h.recorded.withSubs _
  · intro id hId
    cases hId
  · intro p hSome
    cases hp.symm.trans hSome
  · intro p hSome
    cases hp.symm.trans hSome
  · exact fun hPos => Int.le_of_lt hPos
  · intro id sub' hSub'
    change (s.heap.mapIdx _)[id]? = some sub' at hSub'
    rw [List.getElem?_mapIdx] at hSub'
    obtain ⟨sub, hSub, rfl⟩ := Option.map_eq_some_iff.mp hSub'
    have hOk := h.subs id sub hSub
    split
    · rename_i hIn
      exact hOk.close (reach_of_not_owes (hOk.attached.mpr hIn) (owes_of_none hp id)) (Finset.notMem_empty _) rfl
    · rename_i hOut
      exact hOk.frame (by simp [State.detachAll, hOut]) rfl rfl

theorem Inv.receive (h : Inv cfg s) {e : Event} {rest : List Event} (hSub : s.heap[id]? = some sub)
    (hBuf : sub.buf = e :: rest) :
    Inv cfg { s with heap := s.heap.set id { sub with buf := rest, received := sub.received ++ [e] } } := by
  constructor
  · exact h.recorded
  · intro other hOther
    exact (h.made other hOther).trans_eq (List.length_set ..).symm
  · exact h.todo
  · exact h.current
  · exact h.limit
  · intro other sub' hSub'
    rcases getElem?_set_cases hSub' with ⟨rfl, rfl⟩ | ⟨hNe, hOld⟩
    · have hOk := h.subs id sub hSub
      refine ⟨hOk.attached, hOk.closed, hOk.start_le, hOk.reach_le, ?_⟩
      refine Eq.trans ?_ hOk.stream
      change sub.replay ++ (sub.received ++ [e]) ++ rest = sub.replay ++ sub.received ++ sub.buf
      rw [hBuf]
      simp
    · exact (h.subs other sub' hOld).frame Iff.rfl rfl rfl

/-! ## Runs -/

inductive Move (cfg : Config) (s : State) : State → Prop
  | stay : Move cfg s s
  | lock (publishing : Option Publishing) (hQuiet : ∀ p, publishing = some p → p.todo = ∅)
      (hBefore : ∀ id, s.owes id = false) : Move cfg s { s with publishing := publishing }
  | next (e : Event) (rest : List Event) (hBefore : ∀ id, s.owes id = false) : Move cfg s (s.next cfg e rest)
  | offer (p : Publishing) (id : Nat) (sub : Subscriber) (hp : s.publishing = some p) (hTodo : id ∈ p.todo)
      (hSub : s.heap[id]? = some sub) : Move cfg s (s.offer p id sub)
  | attach (since : Nat) (replay : List Event) (reset : Bool) (hp : s.publishing = none)
      (hFull : ¬ Full cfg s.feed) (hHorizon : horizon cfg s.feed since = some (replay, reset)) :
      Move cfg s (s.attach { s.feed with subs := insert s.heap.length s.feed.subs } since
        ⟨some s.heap.length, replay, reset, false, s.feed.seq⟩)
  | detach (id : Nat) (sub : Subscriber) (hp : s.publishing = none) (hIn : id ∈ s.feed.subs)
      (hSub : s.heap[id]? = some sub) : Move cfg s (s.detach id sub)
  | detachAll (hp : s.publishing = none) : Move cfg s s.detachAll
  | receive (id : Nat) (sub : Subscriber) (e : Event) (rest : List Event) (hSub : s.heap[id]? = some sub)
      (hBuf : sub.buf = e :: rest) :
      Move cfg s { s with heap := s.heap.set id { sub with buf := rest, received := sub.received ++ [e] } }

theorem step_move {a : Action} (h : step cfg s a = some t) : Move cfg s t := by
  cases step_effect h with
  | publish events hp =>
    refine .lock _ ?_ (owes_of_none hp)
    rintro p ⟨⟩
    rfl
  | next event e rest hp => exact .next e rest (owes_of_empty hp rfl)
  | offer p id sub hp hTodo hSub => exact .offer p id sub hp hTodo hSub
  | unlock event hp => exact .lock none nofun (owes_of_empty hp rfl)
  | refuse | detached => exact .stay
  | attach since replay reset hp hFull hHorizon => exact .attach since.toNat replay reset hp hFull hHorizon
  | detach id sub hp hIn hSub => exact .detach id sub hp hIn hSub
  | detachAll hp => exact .detachAll hp
  | receive id sub e rest hSub hBuf => exact .receive id sub e rest hSub hBuf

theorem offer_history (p : Publishing) (id : Nat) (sub : Subscriber) : (s.offer p id sub).history = s.history := by
  unfold State.offer
  split <;> rfl

theorem Move.history_le (h : Move cfg s t) : s.history.length ≤ t.history.length := by
  cases h with
  | next e rest => exact (Nat.le_succ _).trans_eq (next_length e rest).symm
  | offer p id sub => exact (congrArg List.length (offer_history p id sub)).ge
  | stay | lock | attach | detach | detachAll | receive => exact Nat.le_refl _

theorem offer_heap_length (p : Publishing) (id : Nat) (sub : Subscriber) :
    (s.offer p id sub).heap.length = s.heap.length := by
  unfold State.offer
  split
  · exact List.length_set ..
  · exact List.length_set ..

theorem step_heap_length {a : Action} (h : step cfg s a = some t) (hSubscribe : ∀ since, a ≠ .subscribe since) :
    t.heap.length = s.heap.length := by
  cases step_effect h with
  | refuse since | attach since => exact absurd rfl (hSubscribe since)
  | offer p id sub => exact offer_heap_length p id sub
  | detach | receive => exact List.length_set ..
  | detachAll => exact List.length_mapIdx
  | publish | next | unlock | detached => rfl

theorem Inv.move (h : Inv cfg s) (hMove : Move cfg s t) (hSmall : t.history.length < 2 ^ 64) : Inv cfg t := by
  cases hMove with
  | stay => exact h
  | lock publishing hQuiet hBefore => exact h.lock hQuiet hBefore
  | next e rest hBefore =>
    refine h.next ?_ hBefore e rest
    rwa [next_length] at hSmall
  | offer p id sub hp hTodo hSub =>
    unfold State.offer
    split
    · exact h.send hp hTodo hSub
    · exact h.drop hp hTodo hSub
  | attach since replay reset hp hFull hHorizon => exact h.attach hSmall hp hFull hHorizon
  | detach id sub hp hIn hSub => exact h.detach hp hIn hSub
  | detachAll hp => exact h.detachAll hp
  | receive id sub e rest hSub hBuf => exact h.receive hSub hBuf

theorem always_inv (cfg : Config) (actions : List Action) :
    Always (step cfg) (fun s => s.history.length < 2 ^ 64 → Inv cfg s) (init cfg) actions := by
  refine always_of_invariant ?_ (fun _ => inv_init cfg) actions
  intro s a t hInv hStep hSmall
  have hMove := step_move hStep
  exact (hInv (Nat.lt_of_le_of_lt hMove.history_le hSmall)).move hMove hSmall

/-- A subscribe at a number the feed has reached is answered with a reset exactly when
the next event exists and is no longer in the ring. -/
def ResetExact (cfg : Config) (s : State) : Prop :=
  ∀ since : UInt64, 1 ≤ since.toNat → since.toNat ≤ s.feed.seq →
    ((∃ answer, subscribe cfg s.feed s.heap.length since.toNat = some answer ∧ answer.2.reset = true) ↔
      since.toNat < s.feed.seq ∧ ∀ e ∈ s.feed.ring, e.seq ≠ since.toNat + 1)

structure Exact (cfg : Config) (s : State) : Prop where
  numbered : s.feed.seq = s.history.length ∧
    ∀ (k : Nat) (e : Event), s.history[k]? = some e → e.seq = k + 1
  ring : ∀ n, 1 ≤ n → n ≤ s.feed.seq → s.feed.seq < n + min s.feed.seq cfg.cap →
    ∃ e, s.feed.ring[(n - 1) % cfg.cap]? = some e ∧ s.history[n - 1]? = some e
  attached : ∀ (id : Nat) (sub : Subscriber), s.heap[id]? = some sub →
    (id ∈ s.feed.subs ↔ sub.upto = none) ∧ (sub.closed = true ↔ sub.upto ≠ none)
  stream : ∀ (id : Nat) (sub : Subscriber), s.heap[id]? = some sub → 1 ≤ sub.since → sub.reset = false →
    sub.replay ++ sub.received ++ sub.buf = (s.history.take (s.reach id sub)).drop sub.since
  reset : ¬ Full cfg s.feed → ResetExact cfg s
  refused : Full cfg s.feed → ∀ since : UInt64, ∃ f answer,
    subscribe cfg s.feed s.heap.length since.toNat = some (f, answer) ∧ answer.full = true ∧ answer.reset = false ∧
      f.subs = s.feed.subs
  returns : s.feed.seq + 1 < 2 ^ 64 → ∀ since : UInt64,
    ∃ answer, subscribe cfg s.feed s.heap.length since.toNat = some answer
  limit : 0 < cfg.maxSubs → (s.feed.subs.card : Int) ≤ cfg.maxSubs

theorem Inv.resetExact (h : Inv cfg s) (hSmall : s.history.length < 2 ^ 64) (hFull : ¬ Full cfg s.feed) :
    ResetExact cfg s := by
  intro since hPos hSince
  rw [h.recorded.seq] at hSince ⊢
  rw [subscribe, if_neg hFull]
  constructor
  · rintro ⟨answer, hAnswer, hReset⟩
    obtain ⟨⟨replay, reset⟩, hHorizon, rfl⟩ := Option.map_eq_some_iff.mp hAnswer
    have hFar := (h.recorded.horizon_spec hSmall hPos hSince hHorizon).1.mp hReset
    have hNext : since.toNat < s.history.length := by omega
    exact ⟨hNext, (h.recorded.left_ring_iff hNext).mpr hFar⟩
  · rintro ⟨hNext, hLeft⟩
    have hFar := (h.recorded.left_ring_iff hNext).mp hLeft
    rw [h.recorded.horizon_left hSmall hPos hFar]
    exact ⟨_, rfl, rfl⟩

theorem Inv.exact (h : Inv cfg s) (hSmall : s.history.length < 2 ^ 64) : Exact cfg s := by
  constructor
  · exact ⟨h.recorded.seq, h.recorded.numbered⟩
  · intro n hPos hLe hNear
    rw [h.recorded.seq] at hLe hNear
    have hIndex : n - 1 < s.history.length := by omega
    have hSlot := h.recorded.ring.recent (n - 1) hIndex (by rw [h.recorded.length]; omega)
    rw [h.recorded.length, List.getElem?_eq_getElem hIndex] at hSlot
    exact ⟨_, hSlot, List.getElem?_eq_getElem hIndex⟩
  · intro id sub hSub
    have hOk := h.subs id sub hSub
    exact ⟨hOk.attached.symm, hOk.closed.trans (not_congr hOk.attached.symm)⟩
  · intro id sub hSub hSince hReset
    have hStart : sub.start = sub.since := by
      rw [Subscriber.start, if_neg]
      rintro (hZero | hTrue)
      · omega
      · cases hReset.symm.trans hTrue
    rw [(h.subs id sub hSub).stream, hStart]
  · exact h.resetExact hSmall
  · intro hFull since
    exact ⟨s.feed, _, if_pos hFull, rfl, rfl, rfl⟩
  · intro hNotMax since
    rw [h.recorded.seq] at hNotMax
    obtain ⟨answer, hAnswer⟩ := h.recorded.horizon_returns hNotMax since.toNat
    rw [subscribe, hAnswer]
    split
    · exact ⟨_, rfl⟩
    · exact ⟨_, rfl⟩
  · exact h.limit

/-- In every run of a feed, with any interleaving of publishing, subscribing, detaching
and receiving, and as long as its numbers fit in 64 bits. -/
theorem feed_exact (cfg : Config) (actions : List Action) :
    Always (step cfg) (fun s => s.history.length < 2 ^ 64 → Exact cfg s) (init cfg) actions :=
  (always_inv cfg actions).mono (fun _ hInv hSmall => (hInv hSmall).exact hSmall)

example : (run (step (new 2 0)) (init (new 2 0))
    [.publish [zeroEvent, zeroEvent], .next, .next, .unlock, .subscribe 1, .publish [zeroEvent], .next, .offer 0,
      .unlock, .receive 0]).map
        (fun s => s.heap.map (fun sub => (sub.replay.map Event.seq, sub.received.map Event.seq))) =
      some [([2], [3])] := by
  decide +kernel

/-- A subscribe that is refused because the feed is full reports no reset, though the
event after the number asked for has left the ring. -/
theorem refused_subscribe_not_reset :
    ¬ Always (step (new 1 1)) (fun s => s.history.length < 2 ^ 64 → ResetExact (new 1 1) s) (init (new 1 1))
      [.publish [zeroEvent, zeroEvent, zeroEvent], .next, .next, .next, .unlock, .subscribe 3] := by
  intro hAlways
  have hRun : (run (step (new 1 1)) (init (new 1 1))
      [.publish [zeroEvent, zeroEvent, zeroEvent], .next, .next, .next, .unlock, .subscribe 3]).map
        (fun s => (s.history.length, s.feed.seq, s.feed.ring.map Event.seq,
          (subscribe (new 1 1) s.feed s.heap.length 1).map (fun answer => answer.2.reset))) =
      some (3, 3, [3], some false) := by
    decide +kernel
  obtain ⟨s, hs, hFacts⟩ := Option.map_eq_some_iff.mp hRun
  obtain ⟨hLength, hSeq, hRing, hAnswer⟩ : s.history.length = 3 ∧ s.feed.seq = 3 ∧
      s.feed.ring.map Event.seq = [3] ∧
      (subscribe (new 1 1) s.feed s.heap.length 1).map (fun answer => answer.2.reset) = some false := by
    simpa using hFacts
  have hReset := hAlways.final hs (by rw [hLength]; decide) 1 (by decide) (by rw [hSeq]; decide)
  obtain ⟨answer, hSome, hTrue⟩ := hReset.mpr ⟨by rw [hSeq]; decide, by
    intro e hMem hTwo
    have hIn := List.mem_map_of_mem (f := Event.seq) hMem
    rw [hRing, hTwo] at hIn
    exact absurd hIn (by decide)⟩
  rw [show (1 : UInt64).toNat = 1 from rfl] at hSome
  rw [hSome, Option.map_some, hTrue] at hAnswer
  cases hAnswer

end QuicSql.Feed
