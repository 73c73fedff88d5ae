import QuicSql.Feed.Stream

/-!
# Resuming across incarnations

A database's feed ends when the database is forgotten or the server stops, and the next
one counts from zero again. A client that comes back has only a number. The lineage of a
database keeps all its feeds, every change committed to it and every number that was
written to a client, so that a resumed stream can be compared with what it owes.
-/

namespace QuicSql.Feed

open Lib

/-- A feed, and how many changes had been committed when it was made. -/
structure Incarnation where
  base : Nat
  feed : State

/-- A number in a `ready` or `reset` header or an event id, written to a client of
`incarnation` when `moment` changes had been committed. -/
structure Report where
  seq : Nat
  incarnation : Nat
  moment : Nat
deriving DecidableEq, Repr

/-- A subscription that asked to go on from a number reported before. -/
structure Resume where
  incarnation : Nat
  sub : Nat
  report : Report
deriving DecidableEq, Repr

/-- The last incarnation is the registered one, if `observed`. A change in the log is an
event of an incarnation, or was committed while no feed was registered. -/
structure Lineage where
  incarnations : List Incarnation
  observed : Bool
  log : List (Option (Nat × Event))
  reports : List Report
  resumes : List Resume

namespace Lineage

inductive Action where
  | feed (a : Feed.Action)
  | receive (i sub : Nat)
  | report (i sub seq : Nat)
  | register
  | forget
  | restart
  | unobserved

def init : Lineage := ⟨[], false, [], [], []⟩

def tag (i : Nat) (e : Event) : Option (Nat × Event) := some (i, e)

/-- The reports that the subscriber just made goes on from. -/
def asked (d : Lineage) (i : Nat) (inc : Incarnation) (feed : State) : List Resume :=
  match feed.heap[inc.feed.heap.length]? with
  | none => []
  | some sub => (d.reports.filter (fun r => r.seq = sub.since)).map (Resume.mk i inc.feed.heap.length)

def advance (d : Lineage) (i : Nat) (inc : Incarnation) (feed : State) : Lineage :=
  { d with
    incarnations := d.incarnations.set i { inc with feed := feed }
    log := d.log ++ (feed.history.drop inc.feed.history.length).map (tag i)
    resumes := d.resumes ++ d.asked i inc feed }

def renewed (cfg : Config) (d : Lineage) : Lineage :=
  { d with incarnations := d.incarnations ++ [⟨d.log.length, Feed.init cfg⟩], observed := true }

def shown (sub : Subscriber) : List Nat := sub.seq :: (sub.replay ++ sub.received).map Event.seq

def current (d : Lineage) : Option (Nat × Incarnation) :=
  let i := d.incarnations.length - 1
  if d.observed then d.incarnations[i]?.map (fun inc => (i, inc)) else none

/-- A stream of an old incarnation goes on to the end of its channel. -/
def step (cfg : Config) (d : Lineage) : Action → Option Lineage
  | .feed a =>
    match d.current with
    | none => none
    | some (i, inc) => (Feed.step cfg inc.feed a).map (d.advance i inc)
  | .receive i sub =>
    match d.incarnations[i]? with
    | none => none
    | some inc => (Feed.step cfg inc.feed (.receive sub)).map (d.advance i inc)
  | .report i id seq =>
    match d.incarnations[i]? with
    | none => none
    | some inc =>
      match inc.feed.heap[id]? with
      | none => none
      | some sub =>
        if seq ∈ shown sub then some { d with reports := d.reports ++ [⟨seq, i, d.log.length⟩] } else none
  | .register => if d.observed then none else some (d.renewed cfg)
  | .forget =>
    match d.current with
    | none => none
    | some (i, inc) =>
      (Feed.step cfg inc.feed .closeAll).map (fun feed => { d.advance i inc feed with observed := false })
  | .restart => some (d.renewed cfg)
  | .unobserved => if d.observed then none else some { d with log := d.log ++ [none] }

/-- Every change committed since the number was reported, up to the last one that the
subscriber was served, is at the end of what it was sent, in order. -/
def Delivered (d : Lineage) (x : Resume) (inc : Incarnation) (sub : Subscriber) : Prop :=
  (d.log.take (inc.base + inc.feed.reach x.sub sub)).drop x.report.moment <:+
    (sub.replay ++ sub.received ++ sub.buf).map (tag x.incarnation)

def Resumed (d : Lineage) : Prop :=
  ∀ x ∈ d.resumes, ∀ (inc : Incarnation) (sub : Subscriber), d.incarnations[x.incarnation]? = some inc →
    inc.feed.heap[x.sub]? = some sub → sub.reset = false → d.Delivered x inc sub

/-- No counter has come to its last value. -/
def Small (d : Lineage) : Prop := ∀ inc ∈ d.incarnations, inc.feed.history.length < 2 ^ 64

/-- The registered feed had itself reached the number when it was reported; or the number
is ahead of it, or has left its ring; or nothing was committed in between. -/
def Resumable (cfg : Config) (d : Lineage) (inc : Incarnation) (r : Report) : Prop :=
  (1 ≤ r.seq ∧ inc.base + r.seq ≤ r.moment) ∨ inc.feed.feed.seq < r.seq ∨
    (1 ≤ r.seq ∧ r.seq + cfg.cap < inc.feed.feed.seq) ∨ d.log.length = r.moment

def ResumesOwn (cfg : Config) (d : Lineage) : Action → Prop
  | .feed (.subscribe since) =>
    d.Small → ∀ i inc, d.current = some (i, inc) → ¬ Full cfg inc.feed.feed →
      ∀ r ∈ d.reports, r.seq = since.toNat → Resumable cfg d inc r
  | _ => True

end Lineage

/-! ## Steps of one feed -/

section

variable {cfg : Config} {s t : State} {id : Nat} {sub : Subscriber}

theorem Move.history_prefix (h : Move cfg s t) : s.history <+: t.history := by
  cases h with
  | next e rest => exact List.prefix_append _ _
  | offer p id sub => rw [offer_history]
  | stay | lock | attach | detach | detachAll | receive => exact List.prefix_rfl

structure SameStart (sub sub' : Subscriber) : Prop where
  since : sub'.since = sub.since
  reset : sub'.reset = sub.reset
  seq : sub'.seq = sub.seq

theorem SameStart.start {sub sub' : Subscriber} (h : SameStart sub sub') : sub'.start = sub.start := by
  rw [Subscriber.start, Subscriber.start, h.since, h.reset, h.seq]

theorem sameStart_set {changed sub' : Subscriber} {other : Nat} (hSub : s.heap[id]? = some sub)
    (h : (s.heap.set id changed)[other]? = some sub') (hSame : SameStart sub changed) :
    ∃ before, s.heap[other]? = some before ∧ SameStart before sub' := by
  rcases getElem?_set_cases h with ⟨rfl, rfl⟩ | ⟨-, hOld⟩
  · exact ⟨sub, hSub, hSame⟩
  · exact ⟨sub', hOld, rfl, rfl, rfl⟩

theorem Move.sameStart (h : Move cfg s t) {other : Nat} (hOld : other < s.heap.length) {sub' : Subscriber}
    (hSub' : t.heap[other]? = some sub') : ∃ before, s.heap[other]? = some before ∧ SameStart before sub' := by
  cases h with
  | stay | lock | next => exact ⟨sub', hSub', rfl, rfl, rfl⟩
  | offer p id sub hp hTodo hSub =>
    unfold State.offer at hSub'
    split at hSub'
    · exact sameStart_set hSub hSub' ⟨rfl, rfl, rfl⟩
    · exact sameStart_set hSub hSub' ⟨rfl, rfl, rfl⟩
  | attach =>
    rcases getElem?_append_cases hSub' with ⟨rfl, -⟩ | ⟨-, hBefore⟩
    · exact absurd hOld (Nat.lt_irrefl _)
    · exact ⟨sub', hBefore, rfl, rfl, rfl⟩
  | detach id sub hp hIn hSub => exact sameStart_set hSub hSub' ⟨rfl, rfl, rfl⟩
  | detachAll =>
    change (s.heap.mapIdx _)[other]? = some sub' at hSub'
    rw [List.getElem?_mapIdx] at hSub'
    obtain ⟨before, hBefore, rfl⟩ := Option.map_eq_some_iff.mp hSub'
    refine ⟨before, hBefore, ?_⟩
    split
    · exact ⟨rfl, rfl, rfl⟩
    · exact ⟨rfl, rfl, rfl⟩
  | receive id sub e rest hSub hBuf => exact sameStart_set hSub hSub' ⟨rfl, rfl, rfl⟩

theorem Move.heap_length_le (h : Move cfg s t) : s.heap.length ≤ t.heap.length := by
  cases h with
  | stay | lock | next => exact Nat.le_refl _
  | offer p id sub => exact (offer_heap_length p id sub).ge
  | attach =>
    rw [State.attach, List.length_append]
    exact Nat.le_add_right _ _
  | detach | receive => exact (List.length_set ..).ge
  | detachAll => exact List.length_mapIdx.ge

theorem not_new (hLength : t.heap.length = s.heap.length) (hNew : s.heap.length ≤ id) : t.heap[id]? ≠ some sub := by
  rw [List.getElem?_eq_none (hLength.trans_le hNew)]
  exact nofun

theorem Move.made (h : Move cfg s t) (hNew : s.heap.length ≤ id) (hSub : t.heap[id]? = some sub) :
    sub.seq = s.feed.seq ∧ t.history = s.history := by
  cases h with
  | attach =>
    rcases getElem?_append_cases hSub with ⟨-, rfl⟩ | ⟨hLt, -⟩
    · exact ⟨rfl, rfl⟩
    · exact absurd hNew (Nat.not_le.mpr hLt)
  | stay | lock | next => exact absurd hSub (not_new rfl hNew)
  | offer p id' sub' => exact absurd hSub (not_new (offer_heap_length p id' sub') hNew)
  | detach | receive => exact absurd hSub (not_new (List.length_set ..) hNew)
  | detachAll => exact absurd hSub (not_new List.length_mapIdx hNew)

end

/-! ## Steps of a lineage -/

namespace Lineage

structure Inv (cfg : Config) (d : Lineage) : Prop where
  feeds : ∀ inc ∈ d.incarnations, inc.feed.history.length < 2 ^ 64 →
    Feed.Inv cfg inc.feed ∧ ∀ sub ∈ inc.feed.heap, sub.seq ≤ inc.feed.history.length
  logged : ∀ (i : Nat) (inc : Incarnation), d.incarnations[i]? = some inc →
    inc.base ≤ d.log.length ∧ inc.feed.history.map (tag i) <+: d.log.drop inc.base
  current : ∀ (i : Nat) (inc : Incarnation), d.current = some (i, inc) →
    inc.base + inc.feed.history.length = d.log.length
  reports : ∀ r ∈ d.reports, r.moment ≤ d.log.length ∧ ∃ inc, d.incarnations[r.incarnation]? = some inc ∧
    (inc.feed.history.length < 2 ^ 64 → inc.base + r.seq ≤ r.moment)
  resumes : ∀ x ∈ d.resumes, ∃ inc, d.incarnations[x.incarnation]? = some inc ∧ x.sub < inc.feed.heap.length

/-- A stream that was not reset starts no later than the moment its number was reported. -/
def Started (d : Lineage) : Prop :=
  ∀ x ∈ d.resumes, ∀ (inc : Incarnation) (sub : Subscriber), d.incarnations[x.incarnation]? = some inc →
    inc.feed.heap[x.sub]? = some sub → sub.reset = false → inc.base + sub.start ≤ x.report.moment

variable {cfg : Config} {d t : Lineage} {i : Nat} {inc : Incarnation} {feed : State}

theorem current_iff : d.current = some (i, inc) ↔
    d.observed = true ∧ i = d.incarnations.length - 1 ∧ d.incarnations[i]? = some inc := by
  unfold current
  cases d.observed with
  | false => simp
  | true =>
    simp only [if_true, Option.map_eq_some_iff, Prod.mk.injEq, true_and]
    constructor
    · rintro ⟨inc', hInc, rfl, rfl⟩
      exact ⟨rfl, hInc⟩
    · rintro ⟨rfl, hInc⟩
      exact ⟨inc, hInc, rfl, rfl⟩

theorem inv_init (cfg : Config) : Inv cfg init where
  feeds := nofun
  logged := nofun
  current := nofun
  reports := nofun
  resumes := nofun

theorem prefix_drop_append {α : Type} {l log : List α} {n : Nat} (hn : n ≤ log.length) (h : l <+: log.drop n)
    (more : List α) : l <+: (log ++ more).drop n := by
  rw [List.drop_append_of_le_length hn]
  exact h.trans (List.prefix_append _ _)

/-- The registered feed, or one that publishes nothing more, takes a step. -/
structure Advances (cfg : Config) (d : Lineage) (i : Nat) (inc : Incarnation) (feed : State) : Prop where
  found : d.incarnations[i]? = some inc
  move : Move cfg inc.feed feed
  live : d.current = some (i, inc) ∨ feed.history = inc.feed.history

theorem Advances.history (h : Advances cfg d i inc feed) :
    feed.history = inc.feed.history ++ feed.history.drop inc.feed.history.length := by
  obtain ⟨more, hMore⟩ := h.move.history_prefix
  rw [← hMore, List.drop_left]

theorem advance_lookup {j : Nat} {inc' : Incarnation}
    (hInc' : (d.advance i inc feed).incarnations[j]? = some inc') :
    (j = i ∧ inc' = { inc with feed := feed }) ∨ (j ≠ i ∧ d.incarnations[j]? = some inc') := by
  rcases getElem?_set_cases hInc' with ⟨rfl, rfl⟩ | ⟨hNe, hOld⟩
  · exact .inl ⟨rfl, rfl⟩
  · exact .inr ⟨hNe.symm, hOld⟩

theorem Advances.found_self (h : Advances cfg d i inc feed) :
    (d.advance i inc feed).incarnations[i]? = some { inc with feed := feed } :=
  getElem?_set_of_some h.found

theorem advance_other {j : Nat} (hj : j ≠ i) :
    (d.advance i inc feed).incarnations[j]? = d.incarnations[j]? :=
  List.getElem?_set_ne hj.symm

theorem Advances.still (h : Advances cfg d i inc feed) {Q : Incarnation → Prop}
    (hStep : ∀ inc, Q inc → ∀ feed, Move cfg inc.feed feed → Q { inc with feed := feed }) {j : Nat}
    (hBefore : ∃ inc', d.incarnations[j]? = some inc' ∧ Q inc') :
    ∃ inc', (d.advance i inc feed).incarnations[j]? = some inc' ∧ Q inc' := by
  obtain ⟨inc', hInc', hQ⟩ := hBefore
  rcases eq_or_ne j i with rfl | hNe
  · cases h.found.symm.trans hInc'
    exact ⟨_, h.found_self, hStep inc hQ feed h.move⟩
  · exact ⟨inc', (advance_other hNe).trans hInc', hQ⟩

theorem stamped_of_move {s t : State} (hMove : Move cfg s t) (hInv : Feed.Inv cfg s)
    (h : ∀ sub ∈ s.heap, sub.seq ≤ s.history.length) : ∀ sub ∈ t.heap, sub.seq ≤ t.history.length := by
  intro sub hMem
  obtain ⟨id, hSub⟩ := List.getElem?_of_mem hMem
  rcases Nat.lt_or_ge id s.heap.length with hOld | hNew
  · obtain ⟨before, hBefore, hSame⟩ := hMove.sameStart hOld hSub
    rw [hSame.seq]
    exact (h before (List.mem_of_getElem? hBefore)).trans hMove.history_le
  · obtain ⟨hSeq, hHistory⟩ := hMove.made hNew hSub
    rw [hSeq, hHistory]
    exact hInv.recorded.seq.le

theorem mem_asked {x : Resume} (h : x ∈ d.asked i inc feed) :
    ∃ sub, feed.heap[inc.feed.heap.length]? = some sub ∧ x.report ∈ d.reports ∧ x.report.seq = sub.since ∧
      x.incarnation = i ∧ x.sub = inc.feed.heap.length := by
  unfold asked at h
  split at h
  · cases h
  · rename_i sub hSub
    obtain ⟨r, hr, rfl⟩ := List.mem_map.mp h
    obtain ⟨hMem, hSeq⟩ := List.mem_filter.mp hr
    exact ⟨sub, hSub, hMem, of_decide_eq_true hSeq, rfl, rfl⟩

theorem Inv.logged_current (h : Inv cfg d) (hCurrent : d.current = some (i, inc)) :
    d.log.drop inc.base = inc.feed.history.map (tag i) := by
  obtain ⟨-, hLogged⟩ := h.logged i inc (current_iff.mp hCurrent).2.2
  have hLength := h.current i inc hCurrent
  refine (hLogged.eq_of_length ?_).symm
  rw [List.length_map, List.length_drop]
  omega

theorem Inv.logged_advance (h : Inv cfg d) (ha : Advances cfg d i inc feed) :
    feed.history.map (tag i) <+: (d.advance i inc feed).log.drop inc.base := by
  obtain ⟨hBase, hLogged⟩ := h.logged i inc ha.found
  rcases ha.live with hCurrent | hSame
  · rw [advance, List.drop_append_of_le_length hBase, h.logged_current hCurrent, ← List.map_append, ← ha.history]
  · rw [hSame]
    exact prefix_drop_append hBase hLogged _

theorem Inv.current_advance (h : Inv cfg d) (ha : Advances cfg d i inc feed) {j : Nat} {inc' : Incarnation}
    (hCurrent : (d.advance i inc feed).current = some (j, inc')) :
    inc'.base + inc'.feed.history.length = (d.advance i inc feed).log.length := by
  obtain ⟨hObserved, hLast, hInc'⟩ := current_iff.mp hCurrent
  have hLast' : j = d.incarnations.length - 1 := by
    rw [hLast, advance, List.length_set]
  have hLog : (d.advance i inc feed).log.length =
      d.log.length + (feed.history.length - inc.feed.history.length) := by
    rw [advance, List.length_append, List.length_map, List.length_drop]
  have hGrown := ha.move.history_le
  rcases advance_lookup hInc' with ⟨rfl, rfl⟩ | ⟨hNe, hOld⟩
  · have hLength := h.current j inc (current_iff.mpr ⟨hObserved, hLast', ha.found⟩)
    rw [hLog]
    change inc.base + feed.history.length = _
    omega
  · rcases ha.live with hOther | hSame
    · exact absurd (hLast'.trans (current_iff.mp hOther).2.1.symm) hNe
    · rw [hLog, hSame, Nat.sub_self]
      exact h.current j inc' (current_iff.mpr ⟨hObserved, hLast', hOld⟩)

theorem Inv.advance (h : Inv cfg d) (ha : Advances cfg d i inc feed) : Inv cfg (d.advance i inc feed) where
  feeds inc' hMem hSmall := by
    rcases List.mem_or_eq_of_mem_set hMem with hOld | rfl
    · exact h.feeds inc' hOld hSmall
    · obtain ⟨hInv, hStamped⟩ := h.feeds inc (List.mem_of_getElem? ha.found) (ha.move.history_le.trans_lt hSmall)
      exact ⟨hInv.move ha.move hSmall, stamped_of_move ha.move hInv hStamped⟩
  logged j inc' hInc' := by
    have hLonger : d.log.length ≤ (d.advance i inc feed).log.length := by
      rw [Lineage.advance, List.length_append]
      exact Nat.le_add_right _ _
    rcases advance_lookup hInc' with ⟨rfl, rfl⟩ | ⟨-, hOld⟩
    · exact ⟨(h.logged j inc ha.found).1.trans hLonger, h.logged_advance ha⟩
    · obtain ⟨hBase, hLogged⟩ := h.logged j inc' hOld
      exact ⟨hBase.trans hLonger, prefix_drop_append hBase hLogged _⟩
  current _ _ hCurrent := h.current_advance ha hCurrent
  reports r hr := by
    obtain ⟨hMoment, hOwn⟩ := h.reports r hr
    refine ⟨?_, ha.still ?_ hOwn⟩
    · rw [Lineage.advance, List.length_append]
      exact Nat.le_add_right_of_le hMoment
    · intro inc' hBefore feed' hMove hSmall
      exact hBefore (hMove.history_le.trans_lt hSmall)
  resumes x hx := by
    rcases List.mem_append.mp hx with hOld | hNew
    · refine ha.still ?_ (h.resumes x hOld)
      intro inc' hBefore feed' hMove
      exact hBefore.trans_le hMove.heap_length_le
    · obtain ⟨sub, hSub, -, -, hInc, hId⟩ := mem_asked hNew
      refine ⟨{ inc with feed := feed }, ?_, ?_⟩
      · rw [hInc]
        exact ha.found_self
      · rw [hId]
        exact (List.getElem?_eq_some_iff.mp hSub).1

theorem Inv.unobserve (h : Inv cfg d) : Inv cfg { d with observed := false } :=
  ⟨h.feeds, h.logged, nofun, h.reports, h.resumes⟩

theorem Inv.renewed (h : Inv cfg d) : Inv cfg (d.renewed cfg) where
  feeds inc hMem hSmall := by
    rcases List.mem_append.mp hMem with hOld | hNew
    · exact h.feeds inc hOld hSmall
    · cases List.mem_singleton.mp hNew
      exact ⟨Feed.inv_init cfg, nofun⟩
  logged i inc hInc := by
    rcases getElem?_append_cases hInc with ⟨-, rfl⟩ | ⟨-, hOld⟩
    · exact ⟨Nat.le_refl _, List.nil_prefix⟩
    · exact h.logged i inc hOld
  current i inc hCurrent := by
    obtain ⟨-, hLast, hInc⟩ := current_iff.mp hCurrent
    rcases getElem?_append_cases hInc with ⟨-, rfl⟩ | ⟨hLt, -⟩
    · rfl
    · simp [Lineage.renewed] at hLast
      omega
  reports r hr := by
    obtain ⟨hMoment, inc, hInc, hOwn⟩ := h.reports r hr
    exact ⟨hMoment, inc, getElem?_append_of_some hInc, hOwn⟩
  resumes x hx := by
    obtain ⟨inc, hInc, hSub⟩ := h.resumes x hx
    exact ⟨inc, getElem?_append_of_some hInc, hSub⟩

theorem Inv.unobserved (h : Inv cfg d) (hUnobserved : d.observed = false) :
    Inv cfg { d with log := d.log ++ [none] } where
  feeds := h.feeds
  logged i inc hInc := by
    obtain ⟨hBase, hLogged⟩ := h.logged i inc hInc
    refine ⟨?_, prefix_drop_append hBase hLogged _⟩
    rw [List.length_append]
    exact Nat.le_add_right_of_le hBase
  current i inc hCurrent := by
    cases hUnobserved.symm.trans (current_iff.mp hCurrent).1
  reports r hr := by
    obtain ⟨hMoment, hOwn⟩ := h.reports r hr
    refine ⟨?_, hOwn⟩
    rw [List.length_append]
    exact Nat.le_add_right_of_le hMoment
  resumes := h.resumes

theorem shown_le {s : State} {id : Nat} {sub : Subscriber} (hInv : Feed.Inv cfg s)
    (hStamped : ∀ sub ∈ s.heap, sub.seq ≤ s.history.length) (hSub : s.heap[id]? = some sub) :
    ∀ n ∈ shown sub, n ≤ s.history.length := by
  intro n hn
  rcases List.mem_cons.mp hn with rfl | hEvent
  · exact hStamped sub (List.mem_of_getElem? hSub)
  · obtain ⟨e, he, rfl⟩ := List.mem_map.mp hEvent
    have hStream := List.mem_append_left sub.buf he
    rw [(hInv.subs id sub hSub).stream] at hStream
    obtain ⟨k, hk⟩ := List.getElem?_of_mem (List.mem_of_mem_take (List.mem_of_mem_drop hStream))
    rw [hInv.recorded.numbered k e hk]
    exact (List.getElem?_eq_some_iff.mp hk).1

theorem Inv.report (h : Inv cfg d) (hInc : d.incarnations[i]? = some inc) {id seq : Nat} {sub : Subscriber}
    (hSub : inc.feed.heap[id]? = some sub) (hShown : seq ∈ shown sub) :
    Inv cfg { d with reports := d.reports ++ [⟨seq, i, d.log.length⟩] } where
  feeds := h.feeds
  logged := h.logged
  current := h.current
  reports r hr := by
    rcases List.mem_append.mp hr with hOld | hNew
    · exact h.reports r hOld
    · cases List.mem_singleton.mp hNew
      refine ⟨Nat.le_refl _, inc, hInc, fun hSmall => ?_⟩
      obtain ⟨hFeed, hStamped⟩ := h.feeds inc (List.mem_of_getElem? hInc) hSmall
      obtain ⟨hBase, hLogged⟩ := h.logged i inc hInc
      have hSeq := shown_le hFeed hStamped hSub seq hShown
      have hLength := hLogged.length_le
      rw [List.length_map, List.length_drop] at hLength
      change inc.base + seq ≤ d.log.length
      omega
  resumes := h.resumes

theorem advances_of_current {a : Feed.Action} (hCurrent : d.current = some (i, inc))
    (hStep : Feed.step cfg inc.feed a = some feed) : Advances cfg d i inc feed :=
  ⟨(current_iff.mp hCurrent).2.2, step_move hStep, .inl hCurrent⟩

theorem advances_of_receive {id : Nat} (hInc : d.incarnations[i]? = some inc)
    (hStep : Feed.step cfg inc.feed (.receive id) = some feed) : Advances cfg d i inc feed := by
  refine ⟨hInc, step_move hStep, .inr ?_⟩
  cases Feed.step_effect hStep with
  | receive => rfl

inductive Moves (cfg : Config) (d : Lineage) : Lineage → Prop
  | advance (i : Nat) (inc : Incarnation) (feed : State) (ha : Advances cfg d i inc feed) :
      Moves cfg d (d.advance i inc feed)
  | forget (i : Nat) (inc : Incarnation) (feed : State) (ha : Advances cfg d i inc feed) :
      Moves cfg d { d.advance i inc feed with observed := false }
  | report (i id seq : Nat) (inc : Incarnation) (sub : Subscriber) (hInc : d.incarnations[i]? = some inc)
      (hSub : inc.feed.heap[id]? = some sub) (hShown : seq ∈ shown sub) :
      Moves cfg d { d with reports := d.reports ++ [⟨seq, i, d.log.length⟩] }
  | renewed : Moves cfg d (d.renewed cfg)
  | unobserved (hUnobserved : d.observed = false) : Moves cfg d { d with log := d.log ++ [none] }

theorem Inv.moves (h : Inv cfg d) (hMove : Moves cfg d t) : Inv cfg t := by
  cases hMove with
  | advance i inc feed ha => exact h.advance ha
  | forget i inc feed ha => exact (h.advance ha).unobserve
  | report i id seq inc sub hInc hSub hShown => exact h.report hInc hSub hShown
  | renewed => exact h.renewed
  | unobserved hUnobserved => exact h.unobserved hUnobserved

inductive Effect (cfg : Config) (d : Lineage) : Action → Lineage → Prop
  | feed (a : Feed.Action) (i : Nat) (inc : Incarnation) (feed : State) (hCurrent : d.current = some (i, inc))
      (hFeed : Feed.step cfg inc.feed a = some feed) : Effect cfg d (.feed a) (d.advance i inc feed)
  | receive (i sub : Nat) (inc : Incarnation) (feed : State) (hInc : d.incarnations[i]? = some inc)
      (hFeed : Feed.step cfg inc.feed (.receive sub) = some feed) :
      Effect cfg d (.receive i sub) (d.advance i inc feed)
  | report (i id seq : Nat) (inc : Incarnation) (sub : Subscriber) (hInc : d.incarnations[i]? = some inc)
      (hSub : inc.feed.heap[id]? = some sub) (hShown : seq ∈ shown sub) :
      Effect cfg d (.report i id seq) { d with reports := d.reports ++ [⟨seq, i, d.log.length⟩] }
  | register : Effect cfg d .register (d.renewed cfg)
  | forget (i : Nat) (inc : Incarnation) (feed : State) (hCurrent : d.current = some (i, inc))
      (hFeed : Feed.step cfg inc.feed .closeAll = some feed) :
      Effect cfg d .forget { d.advance i inc feed with observed := false }
  | restart : Effect cfg d .restart (d.renewed cfg)
  | unobserved (hUnobserved : d.observed = false) : Effect cfg d .unobserved { d with log := d.log ++ [none] }

theorem step_effect {a : Action} (h : step cfg d a = some t) : Effect cfg d a t := by
  cases a with
  | feed a =>
    simp only [step] at h
    split at h
    · cases h
    · rename_i i inc hCurrent
      obtain ⟨feed, hFeed, rfl⟩ := Option.map_eq_some_iff.mp h
      exact .feed a i inc feed hCurrent hFeed
  | receive i sub =>
    simp only [step] at h
    split at h
    · cases h
    · rename_i inc hInc
      obtain ⟨feed, hFeed, rfl⟩ := Option.map_eq_some_iff.mp h
      exact .receive i sub inc feed hInc hFeed
  | report i id seq =>
    simp only [step] at h
    split at h
    · cases h
    · rename_i inc hInc
      split at h
      · cases h
      · rename_i sub hSub
        split at h
        · rename_i hShown
          cases h
          exact .report i id seq inc sub hInc hSub hShown
        · cases h
  | register =>
    simp only [step] at h
    split at h
    · cases h
    · cases h
      exact .register
  | forget =>
    simp only [step] at h
    split at h
    · cases h
    · rename_i i inc hCurrent
      obtain ⟨feed, hFeed, rfl⟩ := Option.map_eq_some_iff.mp h
      exact .forget i inc feed hCurrent hFeed
  | restart =>
    cases h
    exact .restart
  | unobserved =>
    simp only [step] at h
    split at h
    · cases h
    · rename_i hUnobserved
      cases h
      exact .unobserved (Bool.eq_false_iff.mpr hUnobserved)

theorem step_feed {a : Feed.Action} (h : step cfg d (.feed a) = some t) :
    ∃ i inc feed, d.current = some (i, inc) ∧ Feed.step cfg inc.feed a = some feed ∧ t = d.advance i inc feed := by
  cases step_effect h with
  | feed _ i inc feed hCurrent hFeed => exact ⟨i, inc, feed, hCurrent, hFeed, rfl⟩

theorem step_moves {a : Action} (h : step cfg d a = some t) : Moves cfg d t := by
  cases step_effect h with
  | feed a i inc feed hCurrent hFeed => exact .advance i inc feed (advances_of_current hCurrent hFeed)
  | receive i sub inc feed hInc hFeed => exact .advance i inc feed (advances_of_receive hInc hFeed)
  | report i id seq inc sub hInc hSub hShown => exact .report i id seq inc sub hInc hSub hShown
  | register | restart => exact .renewed
  | forget i inc feed hCurrent hFeed => exact .forget i inc feed (advances_of_current hCurrent hFeed)
  | unobserved hUnobserved => exact .unobserved hUnobserved

/-! ## Runs -/

theorem small_of_moves (h : Moves cfg d t) (hSmall : t.Small) : d.Small := by
  cases h with
  | advance i inc feed ha | forget i inc feed ha =>
    intro inc' hMem
    obtain ⟨j, hj⟩ := List.getElem?_of_mem hMem
    rcases eq_or_ne j i with rfl | hNe
    · cases ha.found.symm.trans hj
      exact ha.move.history_le.trans_lt (hSmall _ (List.mem_of_getElem? ha.found_self))
    · exact hSmall inc' (List.mem_of_getElem? ((advance_other hNe).trans hj))
  | renewed => exact fun inc hMem => hSmall inc (List.mem_append_left _ hMem)
  | report | unobserved => exact hSmall

theorem Inv.delivered (h : Inv cfg d) {x : Resume} {sub : Subscriber} (hInc : d.incarnations[x.incarnation]? = some inc)
    (hSub : inc.feed.heap[x.sub]? = some sub) (hSmall : inc.feed.history.length < 2 ^ 64)
    (hStart : inc.base + sub.start ≤ x.report.moment) : d.Delivered x inc sub := by
  have hOk := (h.feeds inc (List.mem_of_getElem? hInc) hSmall).1.subs x.sub sub hSub
  obtain ⟨more, hMore⟩ := (h.logged x.incarnation inc hInc).2
  have hWindow : (d.log.take (inc.base + inc.feed.reach x.sub sub)).drop x.report.moment =
      ((inc.feed.history.take (inc.feed.reach x.sub sub)).drop (x.report.moment - inc.base)).map
        (tag x.incarnation) := by
    have hMoment : x.report.moment = inc.base + (x.report.moment - inc.base) := by omega
    conv_lhs => rw [hMoment, ← List.drop_drop, List.drop_take, Nat.add_sub_cancel_left, ← hMore,
      List.take_append_of_le_length (by rw [List.length_map]; exact hOk.reach_le)]
    rw [List.map_drop, List.map_take]
  rw [Delivered, hWindow, hOk.stream, List.map_drop, List.map_drop]
  exact List.drop_suffix_drop_left _ (by omega)

theorem Inv.resumed (h : Inv cfg d) (hSmall : d.Small) (hStarted : d.Started) : d.Resumed := by
  intro x hx inc sub hInc hSub hReset
  exact h.delivered hInc hSub (hSmall inc (List.mem_of_getElem? hInc)) (hStarted x hx inc sub hInc hSub hReset)

theorem Started.advance (hStarted : d.Started) (h : Inv cfg d) (ha : Advances cfg d i inc feed)
    (hNew : ∀ x ∈ d.asked i inc feed, ∀ sub, feed.heap[inc.feed.heap.length]? = some sub → sub.reset = false →
      inc.base + sub.start ≤ x.report.moment) : (d.advance i inc feed).Started := by
  intro x hx inc' sub' hInc' hSub' hReset
  rcases List.mem_append.mp hx with hOld | hAsked
  · rcases advance_lookup hInc' with ⟨hIndex, rfl⟩ | ⟨-, hBefore⟩
    · obtain ⟨inc'', hInc'', hLt⟩ := h.resumes x hOld
      rw [hIndex, ha.found] at hInc''
      cases hInc''
      obtain ⟨before, hBefore, hSame⟩ := ha.move.sameStart hLt hSub'
      rw [hSame.start]
      exact hStarted x hOld inc before (hIndex ▸ ha.found) hBefore (hSame.reset.symm.trans hReset)
    · exact hStarted x hOld inc' sub' hBefore hSub' hReset
  · obtain ⟨sub, hSub, -, -, hIndex, hId⟩ := mem_asked hAsked
    rw [hIndex, ha.found_self] at hInc'
    cases hInc'
    exact hNew x hAsked sub' (hId ▸ hSub') hReset

theorem asked_nil (hLength : feed.heap.length = inc.feed.heap.length) : d.asked i inc feed = [] := by
  rw [asked, List.getElem?_eq_none hLength.le]

theorem Inv.resumable_iff (h : Inv cfg d) (hSmall : d.Small) (hCurrent : d.current = some (i, inc)) {r : Report}
    (hr : r ∈ d.reports) {replay : List Event} {reset : Bool}
    (hHorizon : horizon cfg inc.feed.feed r.seq = some (replay, reset)) :
    Resumable cfg d inc r ↔
      (reset = false → inc.base + (if r.seq = 0 ∨ reset = true then inc.feed.feed.seq else r.seq) ≤ r.moment) := by
  have hMem := List.mem_of_getElem? (current_iff.mp hCurrent).2.2
  have hRecorded := (h.feeds inc hMem (hSmall inc hMem)).1.recorded
  have hLength := h.current i inc hCurrent
  have hMoment := (h.reports r hr).1
  unfold Resumable
  rcases Nat.eq_zero_or_pos r.seq with hZero | hPos
  · rw [hZero] at hHorizon ⊢
    cases hHorizon
    rw [if_pos (.inl rfl), hRecorded.seq]
    constructor
    · rintro (⟨hNone, -⟩ | hAhead | ⟨hNone, -⟩ | hQuiet) -
      · omega
      · omega
      · omega
      · omega
    · intro hStart
      have hFrom := hStart rfl
      exact .inr (.inr (.inr (by omega)))
  · rcases Nat.lt_or_ge inc.feed.history.length r.seq with hAhead | hSince
    · rw [horizon, hRecorded.seq, if_pos hAhead] at hHorizon
      cases hHorizon
      exact ⟨fun _ hFalse => (by cases hFalse), fun _ => .inr (.inl (hRecorded.seq ▸ hAhead))⟩
    · have hReset := (hRecorded.horizon_spec (hSmall inc hMem) hPos hSince hHorizon).1
      rw [hRecorded.seq]
      cases reset with
      | true => exact ⟨fun _ hFalse => (by cases hFalse), fun _ => .inr (.inr (.inl ⟨hPos, hReset.mp rfl⟩))⟩
      | false =>
        have hNear : ¬ r.seq + cfg.cap < inc.feed.history.length := fun hFar => by cases hReset.mpr hFar
        rw [if_neg (by rintro (hZero | hTrue) <;> [omega; cases hTrue])]
        constructor
        · rintro (⟨-, hOwn⟩ | hAhead | ⟨-, hFar⟩ | hQuiet) -
          · exact hOwn
          · omega
          · exact absurd hFar hNear
          · omega
        · exact fun hStart => .inl ⟨hPos, hStart rfl⟩

theorem asked_attach {since : Nat} {replay : List Event} {reset : Bool} {r : Report} (hr : r ∈ d.reports)
    (hSeq : r.seq = since) :
    (⟨i, inc.feed.heap.length, r⟩ : Resume) ∈ d.asked i inc (inc.feed.attach
      { inc.feed.feed with subs := insert inc.feed.heap.length inc.feed.feed.subs } since
      ⟨some inc.feed.heap.length, replay, reset, false, inc.feed.feed.seq⟩) := by
  simp [asked, State.attach, hr, hSeq]

theorem step_resumes {a : Action} (h : step cfg d a = some t) (hSubscribe : ∀ since, a ≠ .feed (.subscribe since)) :
    t.resumes = d.resumes := by
  have hQuiet {a : Feed.Action} {i : Nat} {inc : Incarnation} {feed : State}
      (hFeed : Feed.step cfg inc.feed a = some feed) (hNot : ∀ since, a ≠ .subscribe since) :
      (d.advance i inc feed).resumes = d.resumes := by
    rw [Lineage.advance, asked_nil (step_heap_length hFeed hNot), List.append_nil]
  cases step_effect h with
  | feed a i inc feed _ hFeed => exact hQuiet hFeed (fun since hEq => hSubscribe since (congrArg _ hEq))
  | receive i sub inc feed _ hFeed | forget i inc feed _ hFeed => exact hQuiet hFeed nofun
  | report | register | restart | unobserved => rfl

theorem Started.moves (hStarted : d.Started) (h : Inv cfg d) (hMove : Moves cfg d t) (hSame : t.resumes = d.resumes) :
    t.Started := by
  cases hMove with
  | advance i inc feed ha | forget i inc feed ha =>
    have hNone : d.asked i inc feed = [] := List.append_right_eq_self.mp hSame
    refine hStarted.advance h ha ?_
    rw [hNone]
    exact nofun
  | renewed =>
    intro x hx inc sub hInc
    obtain ⟨inc', hInc', -⟩ := h.resumes x hx
    have hLt := (List.getElem?_eq_some_iff.mp hInc').1
    exact hStarted x hx inc sub ((List.getElem?_append_left hLt).symm.trans hInc)
  | report | unobserved => exact hStarted

theorem Started.step (hStarted : d.Small → d.Started) (h : Inv cfg d) {a : Action} (hOwn : ResumesOwn cfg d a)
    (hStep : step cfg d a = some t) (hSmallAfter : t.Small) : t.Started := by
  have hMove := step_moves hStep
  have hSmall := small_of_moves hMove hSmallAfter
  by_cases hSubscribe : ∃ since, a = .feed (.subscribe since)
  · obtain ⟨since, rfl⟩ := hSubscribe
    obtain ⟨i, inc, feed, hCurrent, hFeed, rfl⟩ := step_feed hStep
    refine (hStarted hSmall).advance h (advances_of_current hCurrent hFeed) ?_
    intro x hx sub hSub hReset
    cases Feed.step_effect hFeed with
    | refuse since hFull =>
      rw [asked_nil rfl] at hx
      cases hx
    | attach since replay reset hp hFull hHorizon =>
      obtain ⟨sub', hSub', hr, hSeq, -, -⟩ := mem_asked hx
      rw [hSub] at hSub'
      cases hSub'
      obtain rfl : sub = ⟨[], false, since.toNat, replay, reset, inc.feed.feed.seq, [], none⟩ := by
        simpa [State.attach] using hSub.symm
      change x.report.seq = since.toNat at hSeq
      have hResumable := hOwn hSmall i inc hCurrent hFull x.report hr hSeq
      rw [h.resumable_iff hSmall hCurrent hr (hSeq ▸ hHorizon), hSeq] at hResumable
      exact hResumable hReset
  · exact (hStarted hSmall).moves h hMove (step_resumes hStep (fun since hEq => hSubscribe ⟨since, hEq⟩))

/-- A stream that was just started can have delivered what it owes only from its replay. -/
theorem Inv.start_of_delivered (h : Inv cfg d) (hSmall : d.Small) (hCurrent : d.current = some (i, inc)) {r : Report}
    (hr : r ∈ d.reports) {replay : List Event} {reset : Bool}
    (hHorizon : horizon cfg inc.feed.feed r.seq = some (replay, reset))
    (hWindow : d.log.drop r.moment <:+ replay.map (tag i)) :
    inc.base + (if r.seq = 0 ∨ reset = true then inc.feed.feed.seq else r.seq) ≤ r.moment := by
  have hMem := List.mem_of_getElem? (current_iff.mp hCurrent).2.2
  have hRecorded := (h.feeds inc hMem (hSmall inc hMem)).1.recorded
  obtain ⟨hEmpty, hReplay⟩ := hRecorded.horizon_start (hSmall inc hMem) hHorizon
  have hLength := h.current i inc hCurrent
  have hMoment := (h.reports r hr).1
  have hShort := hWindow.length_le
  rw [List.length_drop, List.length_map] at hShort
  split
  · rename_i hNone
    rw [hEmpty hNone, List.length_nil] at hShort
    rw [hRecorded.seq]
    omega
  · rename_i hSome
    obtain ⟨hSince, rfl⟩ := hReplay hSome
    rw [List.length_drop] at hShort
    omega

theorem reach_attach {s : State} (hQuiet : s.publishing = none) (id since seq : Nat) (replay : List Event)
    (reset : Bool) (feed : DbFeed) (r : Subscription) :
    (s.attach feed since r).reach id ⟨[], false, since, replay, reset, seq, [], none⟩ = s.history.length :=
  reach_of_not_owes rfl (owes_of_none hQuiet id)

theorem Small.attach (hSmall : d.Small) (ha : Advances cfg d i inc feed) (hSame : feed.history = inc.feed.history) :
    (d.advance i inc feed).Small := by
  intro inc' hMem
  rcases List.mem_or_eq_of_mem_set hMem with hOld | rfl
  · exact hSmall inc' hOld
  · exact (congrArg List.length hSame).trans_lt (hSmall inc (List.mem_of_getElem? ha.found))

theorem ResumesOwn.of_resumed (h : Inv cfg d) {a : Action} (hStep : step cfg d a = some t)
    (hAfter : t.Small → t.Resumed) : ResumesOwn cfg d a := by
  unfold ResumesOwn
  split
  · rename_i since
    intro hSmall i inc hCurrent hFull r hr hSeq
    obtain ⟨i', inc', feed, hCurrent', hFeed, rfl⟩ := step_feed hStep
    cases hCurrent.symm.trans hCurrent'
    have ha := advances_of_current hCurrent hFeed
    cases Feed.step_effect hFeed with
    | refuse _ hRefused => exact absurd hRefused hFull
    | attach _ replay reset hQuiet _ hHorizon =>
      rw [h.resumable_iff hSmall hCurrent hr (hSeq ▸ hHorizon)]
      intro hReset
      refine h.start_of_delivered hSmall hCurrent hr (hSeq ▸ hHorizon) ?_
      have hDelivered := hAfter (hSmall.attach ha rfl) _ (List.mem_append_right _ (asked_attach hr hSeq)) _
        ⟨[], false, since.toNat, replay, reset, inc.feed.feed.seq, [], none⟩ ha.found_self
        (by simp [State.attach]) hReset
      have hLength := h.current i inc hCurrent
      dsimp only [Delivered] at hDelivered
      rw [reach_attach hQuiet] at hDelivered
      simpa [Lineage.advance, State.attach, hLength] using hDelivered
  · trivial

/-- From 1 on, what the registered feed reported itself can be resumed at. -/
theorem own_report_resumable (cfg : Config) (actions : List Action) :
    Always (step cfg)
      (fun d => d.Small → ∀ r ∈ d.reports, 1 ≤ r.seq → ∀ inc, d.current = some (r.incarnation, inc) →
        Resumable cfg d inc r) init actions := by
  refine (always_of_invariant (fun _ _ _ hInv hStep => hInv.moves (step_moves hStep)) (inv_init cfg) actions).mono ?_
  intro d hInv hSmall r hr hPos inc hCurrent
  obtain ⟨-, inc', hInc', hOwn⟩ := hInv.reports r hr
  have hInc := (current_iff.mp hCurrent).2.2
  cases hInc.symm.trans hInc'
  exact .inl ⟨hPos, hOwn (hSmall inc (List.mem_of_getElem? hInc))⟩

/-- In every run, every stream that was resumed at a reported number and not reset has
delivered what was committed since, exactly if every number resumed at is one that the
registered feed can place. -/
theorem resumed_iff_own_number (cfg : Config) (actions : List Action) :
    Always (step cfg) (fun d => d.Small → d.Resumed) init actions ↔
      Guarded (step cfg) (ResumesOwn cfg) init actions := by
  constructor
  · refine guarded_of_always (fun d a t hInv hStep => hInv.moves (step_moves hStep)) ?_ (inv_init cfg)
    intro d a t hInv _ hStep hAfter
    exact ResumesOwn.of_resumed hInv hStep hAfter
  · intro hGuarded
    have hAlways : Always (step cfg) (fun d => Inv cfg d ∧ (d.Small → d.Started)) init actions := by
      refine always_of_guarded ?_ ⟨inv_init cfg, fun _ => nofun⟩ hGuarded
      rintro d a t ⟨hInv, hStarted⟩ hOwn hStep
      exact ⟨hInv.moves (step_moves hStep), Started.step hStarted hInv hOwn hStep⟩
    exact hAlways.mono (fun d hBoth hSmall => hBoth.1.resumed hSmall (hBoth.2 hSmall))

/-- A client that was told sequence 0 and comes back after the first commit is neither
sent the change nor told to refetch. -/
theorem zero_misses_first_change :
    ¬ Always (step (new 4 0)) (fun d => d.Small → d.Resumed) init
      [.register, .feed (.subscribe 0), .report 0 0 0, .feed (.publish [zeroEvent]), .feed .next, .feed (.offer 0),
        .feed .unlock, .feed (.subscribe 0)] := by
  intro hAlways
  have hRun : (run (step (new 4 0)) init
      [.register, .feed (.subscribe 0), .report 0 0 0, .feed (.publish [zeroEvent]), .feed .next, .feed (.offer 0),
        .feed .unlock, .feed (.subscribe 0)]).map
        (fun d => (d.resumes, d.incarnations.map (fun inc => inc.feed.history.length),
          d.incarnations[0]?.bind (fun inc => inc.feed.heap[1]?.map (fun sub =>
            (sub.reset, [d.log.length, inc.base + inc.feed.reach 1 sub,
              (sub.replay ++ sub.received ++ sub.buf).length]))))) =
      some ([⟨0, 1, ⟨0, 0, 0⟩⟩], [1], some (false, [1, 1, 0])) := by
    decide +kernel
  obtain ⟨d, hd, hFacts⟩ := Option.map_eq_some_iff.mp hRun
  simp only [Prod.mk.injEq] at hFacts
  obtain ⟨hResumes, hHistory, hStream⟩ := hFacts
  obtain ⟨inc, hInc, hStream⟩ := Option.bind_eq_some_iff.mp hStream
  obtain ⟨sub, hSub, hStream⟩ := Option.map_eq_some_iff.mp hStream
  simp only [Prod.mk.injEq, List.cons.injEq, and_true] at hStream
  obtain ⟨hReset, hLog, hReach, hSent⟩ := hStream
  have hSmall : d.Small := by
    intro inc' hMem
    have hIn := List.mem_map_of_mem (f := fun inc : Incarnation => inc.feed.history.length) hMem
    rw [hHistory] at hIn
    rw [List.mem_singleton.mp hIn]
    decide
  have hDelivered := hAlways.final hd hSmall ⟨0, 1, ⟨0, 0, 0⟩⟩ (by rw [hResumes]; exact List.mem_singleton_self _)
    inc sub hInc hSub hReset
  have hLength := hDelivered.length_le
  rw [List.length_map, hSent, hReach, List.length_drop, List.length_take, hLog] at hLength
  exact absurd hLength (by decide)

end Lineage

end QuicSql.Feed
