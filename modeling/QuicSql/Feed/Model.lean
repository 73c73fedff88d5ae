import Mathlib.Data.Finset.Card
import QuicSql.Lib.Ring
import QuicSql.Lib.Transition

/-!
# One database's change feed

A feed numbers the events it publishes, keeps the last of them in a ring and hands
each one to every attached subscriber over a bounded channel. Publishing holds the
feed's lock from its first event to its last; consumers receive at any time.
-/

namespace QuicSql.Feed

open Lib

inductive Op where
  | unset
  | insert
  | update
  | delete
deriving DecidableEq, Repr, Inhabited

structure Event where
  seq : Nat
  table : String
  op : Op
  rowid : Int
  reset : Bool
deriving DecidableEq, Repr

def zeroEvent : Event := ⟨0, "", .unset, 0, false⟩

structure Config where
  cap : Nat
  maxSubs : Int
  capPos : 1 ≤ cap

/-- `New` floors the ring size. -/
def new (buffer maxSubs : Int) : Config where
  cap := if buffer < 1 then 1 else buffer.toNat
  maxSubs := maxSubs
  capPos := by split <;> omega

/-- Subscribers are pointers; `subs` are the attached ones. -/
structure DbFeed where
  seq : Nat
  ring : List Event
  subs : Finset Nat

def retained (cfg : Config) (f : DbFeed) : Nat := if f.seq < cfg.cap then f.seq else cfg.cap

def slot (cfg : Config) (sq : Nat) : Nat := (sq + 2 ^ 64 - 1) % 2 ^ 64 % cfg.cap

/-- `for sq := since + 1; sq <= f.seq; sq++`, at most `fuel` times. -/
def replayLoop (cfg : Config) (f : DbFeed) : Nat → Nat → Option (List Event)
  | 0, _ => none
  | fuel + 1, sq =>
    if sq ≤ f.seq then
      (replayLoop cfg f fuel ((sq + 1) % 2 ^ 64)).map (f.ring.getD (slot cfg sq) zeroEvent :: ·)
    else some []

/-- The replay and the reset flag; no result if the loop does not end. A counter of 64
bits that has taken 2 ^ 64 values without leaving the loop never leaves it. -/
def horizon (cfg : Config) (f : DbFeed) (since : Nat) : Option (List Event × Bool) :=
  if f.seq < since then some ([], true)
  else if 0 < since ∧ since < f.seq then
    if (since + 1) % 2 ^ 64 < f.seq - retained cfg f + 1 then some ([], true)
    else (replayLoop cfg f (2 ^ 64) ((since + 1) % 2 ^ 64)).map (fun replay => (replay, false))
  else some ([], false)

/-- What `subscribe` returns; no subscriber when the feed is full. -/
structure Subscription where
  sub : Option Nat
  replay : List Event
  reset : Bool
  full : Bool
  seq : Nat

def Full (cfg : Config) (f : DbFeed) : Prop := 0 < cfg.maxSubs ∧ cfg.maxSubs ≤ f.subs.card

instance (cfg : Config) (f : DbFeed) : Decidable (Full cfg f) := inferInstanceAs (Decidable (_ ∧ _))

def subscribe (cfg : Config) (f : DbFeed) (fresh since : Nat) : Option (DbFeed × Subscription) :=
  if Full cfg f then some (f, ⟨none, [], false, true, f.seq⟩)
  else
    (horizon cfg f since).map (fun (replay, reset) =>
      ({ f with subs := insert fresh f.subs }, ⟨some fresh, replay, reset, false, f.seq⟩))

/-! ## The feed with its consumers -/

def subscriberBuf : Nat := 256

/-- A subscriber's channel, what its consumer was given at the start and has received
since, and, once it is detached, up to which event it was served. -/
structure Subscriber where
  buf : List Event
  closed : Bool
  since : Nat
  replay : List Event
  reset : Bool
  seq : Nat
  received : List Event
  upto : Option Nat
deriving DecidableEq, Repr

def Subscriber.close (sub : Subscriber) (upto : Nat) : Subscriber :=
  { sub with closed := true, upto := some upto }

/-- A `publish` call inside the lock: the event at hand, the subscribers it has still to
be offered to, and the events after it. -/
structure Publishing where
  event : Event
  todo : Finset Nat
  rest : List Event

/-- `heap` are all subscribers ever made; `history` are all events ever published. -/
structure State where
  feed : DbFeed
  heap : List Subscriber
  publishing : Option Publishing
  history : List Event

inductive Action where
  | publish (events : List Event)
  | next
  | offer (sub : Nat)
  | unlock
  | subscribe (since : UInt64)
  | unsubscribe (sub : Nat)
  | closeAll
  | receive (sub : Nat)

def init (cfg : Config) : State :=
  ⟨⟨0, List.replicate cfg.cap zeroEvent, ∅⟩, [], none, []⟩

/-- The head of the loop over the batch: the next event gets its number and its slot. -/
def State.next (cfg : Config) (s : State) (e : Event) (rest : List Event) : State :=
  let seq := (s.feed.seq + 1) % 2 ^ 64
  let e := { e with seq := seq }
  { s with
    feed := { s.feed with seq := seq, ring := s.feed.ring.set (slot cfg seq) e }
    publishing := some ⟨e, s.feed.subs, rest⟩
    history := s.history ++ [e] }

def State.send (s : State) (p : Publishing) (id : Nat) (sub : Subscriber) : State :=
  { s with
    heap := s.heap.set id { sub with buf := sub.buf ++ [p.event] }
    publishing := some { p with todo := p.todo.erase id } }

/-- The event at hand is the first that a dropped subscriber does not get. -/
def State.drop (s : State) (p : Publishing) (id : Nat) (sub : Subscriber) : State :=
  { s with
    feed := { s.feed with subs := s.feed.subs.erase id }
    heap := s.heap.set id (sub.close (s.history.length - 1))
    publishing := some { p with todo := p.todo.erase id } }

def State.offer (s : State) (p : Publishing) (id : Nat) (sub : Subscriber) : State :=
  if sub.buf.length < subscriberBuf then s.send p id sub else s.drop p id sub

def State.attach (s : State) (feed : DbFeed) (since : Nat) (r : Subscription) : State :=
  { s with
    feed := feed
    heap := s.heap ++ [⟨[], false, since, r.replay, r.reset, r.seq, [], none⟩] }

def State.detach (s : State) (id : Nat) (sub : Subscriber) : State :=
  { s with
    feed := { s.feed with subs := s.feed.subs.erase id }
    heap := s.heap.set id (sub.close s.history.length) }

def State.detachAll (s : State) : State :=
  { s with
    feed := { s.feed with subs := ∅ }
    heap := s.heap.mapIdx (fun id sub => if id ∈ s.feed.subs then sub.close s.history.length else sub) }

/-- No step is the wait for the lock, or for something to receive. -/
def step (cfg : Config) (s : State) : Action → Option State
  | .publish events =>
    match s.publishing with
    | none => some { s with publishing := some ⟨zeroEvent, ∅, events⟩ }
    | some _ => none
  | .next =>
    match s.publishing with
    | some ⟨_, todo, e :: rest⟩ => if todo = ∅ then some (s.next cfg e rest) else none
    | _ => none
  | .offer id =>
    match s.publishing, s.heap[id]? with
    | some p, some sub => if id ∈ p.todo then some (s.offer p id sub) else none
    | _, _ => none
  | .unlock =>
    match s.publishing with
    | some ⟨_, todo, []⟩ => if todo = ∅ then some { s with publishing := none } else none
    | _ => none
  | .subscribe since =>
    match s.publishing, subscribe cfg s.feed s.heap.length since.toNat with
    | none, some (feed, r) =>
      match r.sub with
      | none => some s
      | some _ => some (s.attach feed since.toNat r)
    | _, _ => none
  | .unsubscribe id =>
    match s.publishing, s.heap[id]? with
    | none, some sub => if id ∈ s.feed.subs then some (s.detach id sub) else some s
    | _, _ => none
  | .closeAll =>
    match s.publishing with
    | none => some s.detachAll
    | some _ => none
  | .receive id =>
    match s.heap[id]? with
    | some sub =>
      match sub.buf with
      | e :: rest =>
        some { s with heap := s.heap.set id { sub with buf := rest, received := sub.received ++ [e] } }
      | [] => none
    | none => none

variable {cfg : Config} {s t : State}

inductive Effect (cfg : Config) (s : State) : Action → State → Prop
  | publish (events : List Event) (hp : s.publishing = none) :
      Effect cfg s (.publish events) { s with publishing := some ⟨zeroEvent, ∅, events⟩ }
  | next (event e : Event) (rest : List Event) (hp : s.publishing = some ⟨event, ∅, e :: rest⟩) :
      Effect cfg s .next (s.next cfg e rest)
  | offer (p : Publishing) (id : Nat) (sub : Subscriber) (hp : s.publishing = some p) (hTodo : id ∈ p.todo)
      (hSub : s.heap[id]? = some sub) : Effect cfg s (.offer id) (s.offer p id sub)
  | unlock (event : Event) (hp : s.publishing = some ⟨event, ∅, []⟩) :
      Effect cfg s .unlock { s with publishing := none }
  | refuse (since : UInt64) (hFull : Full cfg s.feed) : Effect cfg s (.subscribe since) s
  | attach (since : UInt64) (replay : List Event) (reset : Bool) (hp : s.publishing = none)
      (hFull : ¬ Full cfg s.feed) (hHorizon : horizon cfg s.feed since.toNat = some (replay, reset)) :
      Effect cfg s (.subscribe since)
        (s.attach { s.feed with subs := insert s.heap.length s.feed.subs } since.toNat
          ⟨some s.heap.length, replay, reset, false, s.feed.seq⟩)
  | detach (id : Nat) (sub : Subscriber) (hp : s.publishing = none) (hIn : id ∈ s.feed.subs)
      (hSub : s.heap[id]? = some sub) : Effect cfg s (.unsubscribe id) (s.detach id sub)
  | detached (id : Nat) : Effect cfg s (.unsubscribe id) s
  | detachAll (hp : s.publishing = none) : Effect cfg s .closeAll s.detachAll
  | receive (id : Nat) (sub : Subscriber) (e : Event) (rest : List Event) (hSub : s.heap[id]? = some sub)
      (hBuf : sub.buf = e :: rest) :
      Effect cfg s (.receive id)
        { s with heap := s.heap.set id { sub with buf := rest, received := sub.received ++ [e] } }

theorem subscribe_effect {since : UInt64} (h : step cfg s (.subscribe since) = some t) :
    Effect cfg s (.subscribe since) t := by
  simp only [step, subscribe] at h
  split at h
  · rename_i feed r hp hSubscribe
    split at hSubscribe
    · rename_i hFull
      cases hSubscribe
      cases h
      exact .refuse since hFull
    · rename_i hFull
      obtain ⟨⟨replay, reset⟩, hHorizon, hResult⟩ := Option.map_eq_some_iff.mp hSubscribe
      cases hResult
      cases h
      exact .attach since replay reset hp hFull hHorizon
  · cases h

theorem step_effect {a : Action} (h : step cfg s a = some t) : Effect cfg s a t := by
  cases a with
  | publish events =>
    simp only [step] at h
    split at h
    · rename_i hp
      cases h
      exact .publish events hp
    · cases h
  | next =>
    simp only [step] at h
    split at h
    · rename_i event todo e rest hp
      split at h
      · rename_i hTodo
        cases h
        exact .next event e rest (hTodo ▸ hp)
      · cases h
    · cases h
  | offer id =>
    simp only [step] at h
    split at h
    · rename_i p sub hp hSub
      split at h
      · rename_i hTodo
        cases h
        exact .offer p id sub hp hTodo hSub
      · cases h
    · cases h
  | unlock =>
    simp only [step] at h
    split at h
    · rename_i event todo hp
      split at h
      · rename_i hTodo
        cases h
        exact .unlock event (hTodo ▸ hp)
      · cases h
    · cases h
  | subscribe since => exact subscribe_effect h
  | unsubscribe id =>
    simp only [step] at h
    split at h
    · rename_i sub hp hSub
      split at h
      · rename_i hIn
        cases h
        exact .detach id sub hp hIn hSub
      · cases h
        exact .detached id
    · cases h
  | closeAll =>
    simp only [step] at h
    split at h
    · rename_i hp
      cases h
      exact .detachAll hp
    · cases h
  | receive id =>
    simp only [step] at h
    split at h
    · rename_i sub hSub
      split at h
      · rename_i e rest hBuf
        cases h
        exact .receive id sub e rest hSub hBuf
      · cases h
    · cases h

end QuicSql.Feed
