import QuicSql.Httpapi.Changes

/-!
# A client that follows a change stream

A client reads a stream, keeps the last id it was given, and after a break asks for the rest
with that id. The connection may break between any two characters, and the server may end a
stream at any time; the feed goes on meanwhile.
-/

namespace QuicSql.Changes

open Lib Lib.EventStream

open Feed (Config Event Subscriber)

/-! ## The stream and its client -/

/-- Where the handler is: before its head, with events of the replay still to write, in its
loop, or back. -/
inductive Phase where
  | head
  | replay (left : List Event)
  | live
  | done
deriving DecidableEq, Repr

/-- `pipe` was written and not yet read. -/
structure Conn where
  sub : Nat
  names : Option (List String)
  phase : Phase
  pipe : List Char
deriving DecidableEq, Repr

structure State where
  feed : Feed.State
  conn : Option Conn
  reader : Reader

inductive Action where
  | feed (a : Feed.Action)
  | connect (gate : Gate) (byQuery : Bool)
  | write
  | ping
  | finish
  | read (n : Nat)
  | cut

def init (cfg : Config) : State := ⟨Feed.init cfg, none, .start [] []⟩

/-- The last id goes into the parameter or into the header. -/
def request (filter : String) (byQuery : Bool) (lastId : List Char) : Request :=
  if byQuery then ⟨"GET", String.ofList lastId, "", filter⟩ else ⟨"GET", "", String.ofList lastId, filter⟩

def Conn.put (c : Conn) (phase : Phase) (blocks : List Block) : Conn :=
  { c with phase := phase, pipe := c.pipe ++ texts blocks }

namespace State

/-- Only the handler receives from its subscriber and detaches it. -/
def reserved (s : State) : Feed.Action → Bool
  | .receive id | .unsubscribe id => s.conn.any (·.sub = id)
  | _ => false

/-- A feed that is full takes no subscriber. -/
def connected (s : State) (names : Option (List String)) (feed : Feed.State) : State :=
  { s with
    feed := feed
    conn := if feed.heap.length = s.feed.heap.length then none else some ⟨s.feed.heap.length, names, .head, []⟩ }

def write (cfg : Config) (s : State) (c : Conn) (sub : Subscriber) : Option State :=
  match c.phase with
  | .head => some { s with conn := some (c.put (.replay sub.replay) [head sub.reset sub.seq]) }
  | .replay [] => some { s with conn := some { c with phase := .live } }
  | .replay (e :: rest) => some { s with conn := some (c.put (.replay rest) (change c.names e)) }
  | .live =>
    match sub.buf with
    | [] => none
    | e :: _ =>
      (Feed.step cfg s.feed (.receive c.sub)).map fun feed =>
        { s with feed := feed, conn := some (c.put .live (change c.names e)) }
  | .done => none

end State

/-- A request that is refused leaves the client where it was. -/
def step (cfg : Config) (filter : String) (s : State) : Action → Option State
  | .feed a => if s.reserved a then none else (Feed.step cfg s.feed a).map fun feed => { s with feed := feed }
  | .connect gate byQuery =>
    match s.conn, handleChanges gate (request filter byQuery s.reader.lastId) with
    | none, .ok (since, names) => (Feed.step cfg s.feed (.subscribe since)).map (s.connected names)
    | none, .error _ => some s
    | some _, _ => none
  | .write =>
    match s.conn with
    | none => none
    | some c =>
      match s.feed.heap[c.sub]? with
      | none => none
      | some sub => s.write cfg c sub
  | .ping =>
    match s.conn with
    | none => none
    | some c => if c.phase = .live then some { s with conn := some (c.put .live [ping]) } else none
  | .finish =>
    match s.conn with
    | none => none
    | some c =>
      (Feed.step cfg s.feed (.unsubscribe c.sub)).map fun feed =>
        { s with feed := feed, conn := some { c with phase := .done } }
  | .read n =>
    match s.conn with
    | none => none
    | some c =>
      some { s with conn := some { c with pipe := c.pipe.drop n }, reader := s.reader.read (c.pipe.take n) }
  | .cut => some { s with conn := none, reader := .start s.reader.lastId s.reader.messages }

/-! ## What a client has been shown -/

/-- The last number shown with an id, and up to where nothing that was asked for is missing. -/
structure Account where
  id : Nat
  pos : Nat
deriving DecidableEq, Repr

/-- The text of a last id; there is none before the first event. -/
def idText (id : Nat) : List Char := if id = 0 then [] else formatUint id

/-- A client without an id starts anew with every stream, and a reset tells it to refetch.
An event is new and nothing that was asked for lies between it and the account. -/
inductive Shows (history : List Event) (asked : Event → Bool) (acc : Account) : Shown → Account → Prop
  | ready (seq : Nat) (hSeq : seq ≤ history.length) :
      Shows history asked acc (.ready seq) ⟨acc.id, if acc.id = 0 then seq else acc.id⟩
  | reset (seq : Nat) (hSeq : seq ≤ history.length) : Shows history asked acc (.reset seq) ⟨acc.id, seq⟩
  | event (k : Nat) (e : Event) (hAt : history[k]? = some e) (hSeq : e.seq = k + 1) (hNew : acc.id ≤ k)
      (hAsked : asked e = true)
      (hGap : ∀ (k' : Nat) (e' : Event), history[k']? = some e' → acc.pos ≤ k' → k' < k → asked e' = false) :
      Shows history asked acc (if e.reset then .reset e.seq else .change e) ⟨e.seq, e.seq⟩

def Follows (history : List Event) (asked : Event → Bool) : Account → List Message → Account → Prop
  | acc, [], acc' => acc' = acc
  | acc, m :: rest, acc' =>
    ∃ x mid, readShown m = .ok x ∧ Shows history asked acc x mid ∧ m.lastId = idText mid.id ∧
      Follows history asked mid rest acc'

section

variable {history history' : List Event} {asked : Event → Bool} {acc acc' : Account}

theorem Shows.mono {x : Shown} (h : Shows history asked acc x acc') (hPrefix : history <+: history') :
    Shows history' asked acc x acc' := by
  cases h with
  | ready seq hSeq => exact .ready seq (hSeq.trans hPrefix.length_le)
  | reset seq hSeq => exact .reset seq (hSeq.trans hPrefix.length_le)
  | event k e hAt hSeq hNew hAsked hGap =>
    obtain ⟨more, rfl⟩ := hPrefix
    obtain ⟨hk, -⟩ := List.getElem?_eq_some_iff.mp hAt
    refine .event k e ((List.getElem?_append_left hk).trans hAt) hSeq hNew hAsked ?_
    intro k' e' hAt' hPos hLt
    rw [List.getElem?_append_left (hLt.trans hk)] at hAt'
    exact hGap k' e' hAt' hPos hLt

theorem Follows.mono {ms : List Message} (h : Follows history asked acc ms acc') (hPrefix : history <+: history') :
    Follows history' asked acc ms acc' := by
  induction ms generalizing acc with
  | nil => exact h
  | cons m rest ih =>
    obtain ⟨x, mid, hRead, hShows, hId, hRest⟩ := h
    exact ⟨x, mid, hRead, hShows.mono hPrefix, hId, ih hRest⟩

theorem Follows.append {a b : List Message} {mid : Account} (ha : Follows history asked acc a mid)
    (hb : Follows history asked mid b acc') : Follows history asked acc (a ++ b) acc' := by
  induction a generalizing acc with
  | nil =>
    cases ha
    exact hb
  | cons m rest ih =>
    obtain ⟨x, next, hRead, hShows, hId, hRest⟩ := ha
    exact ⟨x, next, hRead, hShows, hId, ih hRest⟩

theorem Follows.split {a b : List Message} (h : Follows history asked acc (a ++ b) acc') :
    ∃ mid, Follows history asked acc a mid ∧ Follows history asked mid b acc' := by
  induction a generalizing acc with
  | nil => exact ⟨acc, rfl, h⟩
  | cons m rest ih =>
    obtain ⟨x, next, hRead, hShows, hId, hRest⟩ := h
    obtain ⟨mid, hLeft, hRight⟩ := ih hRest
    exact ⟨mid, ⟨x, next, hRead, hShows, hId, hLeft⟩, hRight⟩

theorem Follows.id_le {ms : List Message} (h : Follows history asked acc ms acc') (hId : acc.id ≤ history.length) :
    acc'.id ≤ history.length := by
  induction ms generalizing acc with
  | nil =>
    cases h
    exact hId
  | cons m rest ih =>
    obtain ⟨x, mid, -, hShows, -, hRest⟩ := h
    refine ih hRest ?_
    cases hShows with
    | ready | reset => exact hId
    | event k e hAt hSeq =>
      obtain ⟨hk, -⟩ := List.getElem?_eq_some_iff.mp hAt
      change e.seq ≤ _
      omega

theorem Follows.lastIds {blocks : List Block}
    (h : Follows history asked acc (shown (idText acc.id) blocks) acc') :
    lastIds (idText acc.id) blocks = idText acc'.id := by
  induction blocks generalizing acc with
  | nil =>
    cases h
    rfl
  | cons b rest ih =>
    cases b with
    | comment text => exact ih h
    | message id type data =>
      obtain ⟨x, mid, -, -, hId, hRest⟩ := h
      change Follows history asked mid (shown (id.getD (idText acc.id)) rest) acc' at hRest
      change EventStream.lastIds (id.getD (idText acc.id)) rest = _
      rw [show id.getD (idText acc.id) = idText mid.id from hId] at hRest ⊢
      exact ih hRest

end

/-! ## Progress of a stream -/

/-- What the handler has dealt with, of what its subscriber was given. -/
def Progress (sub : Subscriber) (dealt : List Event) : Phase → Prop
  | .head => False
  | .replay left => dealt ++ left = sub.replay ∧ sub.received = []
  | .live => dealt = sub.replay ++ sub.received
  | .done => True

def Covered (history : List Event) (asked : Event → Bool) (pos n : Nat) : Prop :=
  ∀ (k : Nat) (e : Event), history[k]? = some e → pos ≤ k → k < n → asked e = false

inductive Written (history : List Event) (asked : Event → Bool) (sub : Subscriber) (start : Account) :
    Phase → List Block → Prop
  | fresh (hReceived : sub.received = []) : Written history asked sub start .head []
  | gone : Written history asked sub start .done []
  | begun (phase : Phase) (blocks : List Block) (acc : Account) (dealt : List Event)
      (hFollows : Follows history asked start (shown (idText start.id) blocks) acc)
      (hProgress : Progress sub dealt phase) (hReach : sub.start + dealt.length ≤ history.length)
      (hId : acc.id ≤ sub.start + dealt.length)
      (hCovered : Covered history asked acc.pos (sub.start + dealt.length)) :
      Written history asked sub start phase blocks

/-- A stream that goes on from the account `start`, of which `p` has been read. -/
structure Streams (s : State) (filter : String) (c : Conn) (sub : Subscriber) (start : Account) (ms : List Message)
    (blocks : List Block) (p : List Char) : Prop where
  found : s.feed.heap[c.sub]? = some sub
  names : c.names = tables filter
  since : sub.since = start.id
  behind : start.id ≤ sub.seq
  stamp : sub.seq ≤ s.feed.history.length
  before : Follows s.feed.history (wanted (tables filter)) ⟨0, 0⟩ ms start
  plain : ∀ b ∈ blocks, b.Plain
  wire : p ++ c.pipe = texts blocks
  reader : s.reader = (Reader.start (idText start.id) ms).read p
  written : Written s.feed.history (wanted (tables filter)) sub start c.phase blocks

structure Waits (s : State) (filter : String) (acc : Account) (ms : List Message) : Prop where
  before : Follows s.feed.history (wanted (tables filter)) ⟨0, 0⟩ ms acc
  reader : s.reader = .start (idText acc.id) ms

/-- The client waits, or a stream goes on from what it was shown. -/
def Follower (filter : String) (s : State) : Prop :=
  match s.conn with
  | none => ∃ acc ms, Waits s filter acc ms
  | some c => ∃ sub start ms blocks p, Streams s filter c sub start ms blocks p

structure Inv (cfg : Config) (filter : String) (s : State) : Prop where
  feed : Feed.Inv cfg s.feed
  follower : Follower filter s

/-! ### Steps of the feed -/

/-- What the handler was given at the start and has received is the same. -/
structure Kept (sub sub' : Subscriber) : Prop where
  since : sub'.since = sub.since
  reset : sub'.reset = sub.reset
  seq : sub'.seq = sub.seq
  replay : sub'.replay = sub.replay
  received : sub'.received = sub.received

theorem Kept.refl (sub : Subscriber) : Kept sub sub := ⟨rfl, rfl, rfl, rfl, rfl⟩

theorem Kept.start {sub sub' : Subscriber} (h : Kept sub sub') : sub'.start = sub.start := by
  rw [Subscriber.start, Subscriber.start, h.since, h.reset, h.seq]

theorem kept_set {heap : List Subscriber} {id id' : Nat} {sub old changed : Subscriber} (hSub : heap[id]? = some sub)
    (hOld : heap[id']? = some old) (hKept : Kept old changed) :
    ∃ sub', (heap.set id' changed)[id]? = some sub' ∧ Kept sub sub' := by
  rcases eq_or_ne id' id with rfl | hNe
  · cases hSub.symm.trans hOld
    exact ⟨changed, getElem?_set_of_some hSub, hKept⟩
  · exact ⟨sub, (List.getElem?_set_ne hNe).trans hSub, .refl sub⟩

theorem kept_of_step {cfg : Config} {f f' : Feed.State} {a : Feed.Action} {id : Nat} {sub : Subscriber}
    (h : Feed.step cfg f a = some f') (hSub : f.heap[id]? = some sub) (hNot : a ≠ .receive id) :
    ∃ sub', f'.heap[id]? = some sub' ∧ Kept sub sub' := by
  cases Feed.step_effect h with
  | publish | next | unlock | refuse | detached => exact ⟨sub, hSub, .refl sub⟩
  | offer p id' old hp hTodo hOld =>
    unfold Feed.State.offer
    split
    · exact kept_set hSub hOld ⟨rfl, rfl, rfl, rfl, rfl⟩
    · exact kept_set hSub hOld ⟨rfl, rfl, rfl, rfl, rfl⟩
  | attach => exact ⟨sub, getElem?_append_of_some hSub, .refl sub⟩
  | detach id' old hp hIn hOld => exact kept_set hSub hOld ⟨rfl, rfl, rfl, rfl, rfl⟩
  | detachAll =>
    refine ⟨_, (List.getElem?_mapIdx ..).trans (congrArg (Option.map _) hSub), ?_⟩
    split
    · exact ⟨rfl, rfl, rfl, rfl, rfl⟩
    · exact .refl sub
  | receive id' old e rest hOld =>
    have hNe : id' ≠ id := fun hEq => hNot (hEq ▸ rfl)
    exact ⟨sub, (List.getElem?_set_ne hNe).trans hSub, .refl sub⟩

variable {cfg : Config} {filter : String} {s t : State} {c : Conn} {sub : Subscriber} {start : Account}
  {ms : List Message} {blocks : List Block} {p : List Char}

theorem follower_waits {acc : Account} (hConn : s.conn = none) (h : Waits s filter acc ms) : Follower filter s := by
  rw [Follower, hConn]
  exact ⟨acc, ms, h⟩

theorem follower_streams (hConn : s.conn = some c) (h : Streams s filter c sub start ms blocks p) :
    Follower filter s := by
  rw [Follower, hConn]
  exact ⟨sub, start, ms, blocks, p, h⟩

theorem Progress.kept {dealt : List Event} {phase : Phase} {sub' : Subscriber} (h : Progress sub dealt phase)
    (hKept : Kept sub sub') : Progress sub' dealt phase := by
  cases phase with
  | head | done => exact h
  | replay left => exact ⟨h.1.trans hKept.replay.symm, hKept.received.trans h.2⟩
  | live => exact h.trans (by rw [hKept.replay, hKept.received])

theorem Covered.mono {history history' : List Event} {asked : Event → Bool} {pos n : Nat}
    (h : Covered history asked pos n) (hPrefix : history <+: history') (hn : n ≤ history.length) :
    Covered history' asked pos n := by
  obtain ⟨more, rfl⟩ := hPrefix
  intro k e hAt hPos hLt
  rw [List.getElem?_append_left (hLt.trans_le hn)] at hAt
  exact h k e hAt hPos hLt

theorem Written.kept {history history' : List Event} {asked : Event → Bool} {phase : Phase} {sub' : Subscriber}
    (h : Written history asked sub start phase blocks) (hKept : Kept sub sub') (hPrefix : history <+: history') :
    Written history' asked sub' start phase blocks := by
  cases h with
  | fresh hReceived => exact .fresh (hKept.received.trans hReceived)
  | gone => exact .gone
  | begun _ _ acc dealt hFollows hProgress hReach hId hCovered =>
    refine .begun phase blocks acc dealt (hFollows.mono hPrefix) (hProgress.kept hKept) ?_ ?_ ?_
    · rw [hKept.start]
      exact hReach.trans hPrefix.length_le
    · rwa [hKept.start]
    · rw [hKept.start]
      exact hCovered.mono hPrefix hReach

theorem history_grows {f f' : Feed.State} {a : Feed.Action} (h : Feed.step cfg f a = some f') :
    f.history <+: f'.history := by
  cases Feed.step_effect h with
  | next e rest => exact List.prefix_append _ _
  | offer p id sub => rw [Feed.offer_history]
  | publish | unlock | refuse | attach | detach | detached | detachAll | receive => exact List.prefix_rfl

theorem Streams.kept (h : Streams s filter c sub start ms blocks p) {a : Feed.Action} {f : Feed.State}
    (hStep : Feed.step cfg s.feed a = some f) (hNot : a ≠ .receive c.sub) :
    ∃ sub', Streams { s with feed := f } filter c sub' start ms blocks p := by
  obtain ⟨sub', hSub', hKept⟩ := kept_of_step hStep h.found hNot
  have hPrefix := history_grows hStep
  refine ⟨sub', hSub', h.names, hKept.since.trans h.since, ?_, ?_, h.before.mono hPrefix, h.plain, h.wire, h.reader,
    h.written.kept hKept hPrefix⟩
  · rw [hKept.seq]
    exact h.behind
  · rw [hKept.seq]
    exact h.stamp.trans hPrefix.length_le

/-! ### Steps of the handler -/

theorem start_of_ready (hSince : sub.since = start.id) (hReset : sub.reset = false) :
    sub.start = if start.id = 0 then sub.seq else start.id := by
  rw [Subscriber.start, hSince, hReset]
  simp only [Bool.false_eq_true, or_false]

theorem start_of_reset (hReset : sub.reset = true) : sub.start = sub.seq := by
  rw [Subscriber.start, if_pos (.inr hReset)]

/-- The head says where the stream begins. -/
theorem Streams.head (h : Streams s filter c sub start ms [] p) (hSmall : s.feed.history.length < 2 ^ 64)
    (hReceived : sub.received = []) :
    Written s.feed.history (wanted (tables filter)) sub start (.replay sub.replay) [head sub.reset sub.seq] := by
  obtain ⟨m, hMessages, hLast, hRead⟩ :=
    readShown_head sub.reset (h.stamp.trans_lt hSmall) (idText start.id)
  have hShown : shown (idText start.id) [Changes.head sub.reset sub.seq] = [m] := by
    rw [shown, hMessages]
    rfl
  cases hReset : sub.reset with
  | false =>
    have hStart := start_of_ready h.since hReset
    rw [hReset] at hRead hShown
    refine .begun _ _ ⟨start.id, if start.id = 0 then sub.seq else start.id⟩ [] ?_ ⟨rfl, hReceived⟩ ?_ ?_ ?_
    · rw [hShown]
      exact ⟨_, _, hRead, .ready sub.seq h.stamp, hLast, rfl⟩
    · rw [hStart]
      split
      · exact h.stamp
      · exact h.behind.trans h.stamp
    · rw [hStart]
      split
      · exact h.behind
      · exact Nat.le_refl _
    · rw [hStart]
      intro k e _ hPos hLt
      exact absurd hLt (by simpa using hPos)
  | true =>
    have hStart := start_of_reset hReset
    rw [hReset] at hRead hShown
    refine .begun _ _ ⟨start.id, sub.seq⟩ [] ?_ ⟨rfl, hReceived⟩ ?_ ?_ ?_
    · rw [hShown]
      exact ⟨_, _, hRead, .reset sub.seq h.stamp, hLast, rfl⟩
    · rw [hStart]
      exact h.stamp
    · rw [hStart]
      exact h.behind
    · rw [hStart]
      intro k e _ hPos hLt
      exact absurd hLt (by simpa using hPos)

theorem event_at {f : Feed.State} (hInv : Feed.Inv cfg f) {id : Nat} (hSub : f.heap[id]? = some sub) {dealt rest : List Event}
    {e : Event} (hNext : sub.replay ++ sub.received ++ sub.buf = dealt ++ e :: rest) :
    f.history[sub.start + dealt.length]? = some e ∧ e.seq = sub.start + dealt.length + 1 := by
  have hStream := (hInv.subs id sub hSub).stream
  rw [hNext] at hStream
  have hAt : ((f.history.take (f.reach id sub)).drop sub.start)[dealt.length]? = some e := by
    rw [← hStream]
    simp
  rw [List.getElem?_drop, List.getElem?_take] at hAt
  split at hAt
  · exact ⟨hAt, hInv.recorded.numbered _ e hAt⟩
  · cases hAt

/-- One event is dealt with: it is written, or nobody asked for it. -/
theorem Written.deal {history : List Event} {phase' : Phase} {names : Option (List String)}
    {acc : Account} {dealt : List Event} {e : Event} {sub' : Subscriber}
    (hFollows : Follows history (wanted names) start (shown (idText start.id) blocks) acc)
    (hId : acc.id ≤ sub.start + dealt.length)
    (hCovered : Covered history (wanted names) acc.pos (sub.start + dealt.length))
    (hAt : history[sub.start + dealt.length]? = some e) (hSeq : e.seq = sub.start + dealt.length + 1)
    (hSmall : history.length < 2 ^ 64) (hStart : sub'.start = sub.start) (hProgress : Progress sub' (dealt ++ [e]) phase') :
    Written history (wanted names) sub' start phase' (blocks ++ change names e) := by
  obtain ⟨hLt, -⟩ := List.getElem?_eq_some_iff.mp hAt
  have hLength : sub'.start + (dealt ++ [e]).length = sub.start + dealt.length + 1 := by
    rw [hStart, List.length_append, List.length_singleton]
    rfl
  cases hWanted : wanted names e with
  | false =>
    rw [change_of_not_wanted hWanted, List.append_nil]
    refine .begun phase' blocks acc (dealt ++ [e]) hFollows hProgress ?_ ?_ ?_
    · rw [hLength]
      exact hLt
    · rw [hLength]
      exact hId.trans (Nat.le_succ _)
    · rw [hLength]
      intro k e' hk hPos hBelow
      rcases Nat.lt_succ_iff_lt_or_eq.mp hBelow with hBelow | rfl
      · exact hCovered k e' hk hPos hBelow
      · cases hAt.symm.trans hk
        exact hWanted
  | true =>
    obtain ⟨hShown, -⟩ := change_of_wanted hWanted (lastIds (idText start.id) blocks)
    refine .begun phase' _ ⟨e.seq, e.seq⟩ (dealt ++ [e]) ?_ hProgress ?_ ?_ ?_
    · rw [shown_append, hShown]
      refine hFollows.append ⟨_, ⟨e.seq, e.seq⟩, readShown_change (by omega),
        .event (sub.start + dealt.length) e hAt hSeq hId hWanted hCovered, ?_, rfl⟩
      have hText : idText e.seq = formatUint e.seq := if_neg (by omega)
      rw [hText, changeMessage]
      split <;> rfl
    · rw [hLength]
      exact hLt
    · rw [hLength]
      exact hSeq.le
    · rw [hLength]
      intro k e' _ hPos hBelow
      change e.seq ≤ k at hPos
      omega

theorem texts_append (a b : List Block) : texts (a ++ b) = texts a ++ texts b := List.flatMap_append

/-- The handler has written some blocks, or none; it may have received an event before. -/
theorem Streams.put (h : Streams s filter c sub start ms blocks p) (phase : Phase) {new : List Block}
    {feed : Feed.State} {sub' : Subscriber} (hFeed : feed.history = s.feed.history)
    (hFound : feed.heap[c.sub]? = some sub') (hSince : sub'.since = sub.since) (hSeq : sub'.seq = sub.seq)
    (hPlain : ∀ b ∈ new, b.Plain)
    (hWritten : Written s.feed.history (wanted (tables filter)) sub' start phase (blocks ++ new)) :
    Streams { s with feed := feed, conn := some (c.put phase new) } filter (c.put phase new) sub' start ms
      (blocks ++ new) p where
  found := hFound
  names := h.names
  since := hSince.trans h.since
  behind := h.behind.trans_eq hSeq.symm
  stamp := by
    rw [hSeq, hFeed]
    exact h.stamp
  before := by
    rw [hFeed]
    exact h.before
  plain b hb := (List.mem_append.mp hb).elim (h.plain b) (hPlain b)
  wire := by
    rw [texts_append, ← h.wire, List.append_assoc]
    rfl
  reader := h.reader
  written := by
    rw [hFeed]
    exact hWritten

theorem Streams.write (h : Streams s filter c sub start ms blocks p) (hInv : Feed.Inv cfg s.feed)
    (hSmall : s.feed.history.length < 2 ^ 64) (hStep : s.write cfg c sub = some t) :
    ∃ c' sub' blocks', t.conn = some c' ∧ Streams t filter c' sub' start ms blocks' p := by
  obtain ⟨id, names, phase, pipe⟩ := c
  have hWritten := h.written
  unfold State.write at hStep
  cases hWritten with
  | fresh hReceived =>
    cases hStep
    exact ⟨_, sub, _, rfl, h.put _ rfl h.found rfl rfl (by simpa using plain_head _ _) (h.head hSmall hReceived)⟩
  | gone => cases hStep
  | begun _ _ acc dealt hFollows hProgress hReach hId hCovered =>
    have hNames : names = tables filter := h.names
    cases phase with
    | head => exact hProgress.elim
    | done => cases hStep
    | replay left =>
      obtain ⟨hReplay, hReceived⟩ := hProgress
      cases left with
      | nil =>
        cases hStep
        refine ⟨_, sub, blocks, rfl, ?_⟩
        have hLive : Progress sub dealt .live := by
          rw [Progress, ← hReplay, hReceived]
          simp
        exact ⟨h.found, h.names, h.since, h.behind, h.stamp, h.before, h.plain, h.wire, h.reader,
          .begun _ _ acc dealt hFollows hLive hReach hId hCovered⟩
      | cons e rest =>
        cases hStep
        have hNext : sub.replay ++ sub.received ++ sub.buf = dealt ++ e :: (rest ++ sub.buf) := by
          rw [← hReplay, hReceived]
          simp
        obtain ⟨hAt, hSeq⟩ := event_at hInv h.found hNext
        refine ⟨_, sub, _, rfl, h.put _ rfl h.found rfl rfl plain_change ?_⟩
        subst hNames
        refine Written.deal hFollows hId hCovered hAt hSeq hSmall rfl ⟨?_, hReceived⟩
        rw [← hReplay]
        simp
    | live =>
      dsimp only at hStep
      split at hStep
      · cases hStep
      · rename_i e rest hBuf
        obtain ⟨feed, hReceive, rfl⟩ := Option.map_eq_some_iff.mp hStep
        cases Feed.step_effect hReceive with
        | receive _ sub' e' rest' hSub' hBuf' =>
          cases h.found.symm.trans hSub'
          cases hBuf.symm.trans hBuf'
          have hNext : sub.replay ++ sub.received ++ sub.buf = dealt ++ e :: rest := by
            rw [hBuf, ← hProgress]
          obtain ⟨hAt, hSeq⟩ := event_at hInv h.found hNext
          refine ⟨_, _, _, rfl, h.put _ rfl (getElem?_set_of_some h.found) rfl rfl plain_change ?_⟩
          subst hNames
          refine Written.deal hFollows hId hCovered hAt hSeq hSmall rfl ?_
          change dealt ++ [e] = sub.replay ++ (sub.received ++ [e])
          rw [← List.append_assoc, ← hProgress]

theorem Streams.ping (h : Streams s filter c sub start ms blocks p) (hLive : c.phase = .live) :
    ∃ blocks', Streams { s with conn := some (c.put .live [ping]) } filter (c.put .live [ping]) sub start ms blocks' p := by
  refine ⟨_, h.put .live rfl h.found rfl rfl (by simpa using plain_ping) ?_⟩
  have hWritten := h.written
  rw [hLive] at hWritten
  cases hWritten with
  | begun _ _ acc dealt hFollows hProgress hReach hId hCovered =>
    refine .begun _ _ acc dealt ?_ hProgress hReach hId hCovered
    rw [shown_append]
    exact hFollows.append rfl

theorem Streams.finish (h : Streams s filter c sub start ms blocks p) :
    Streams { s with conn := some { c with phase := .done } } filter { c with phase := .done } sub start ms blocks p := by
  refine ⟨h.found, h.names, h.since, h.behind, h.stamp, h.before, h.plain, h.wire, h.reader, ?_⟩
  obtain ⟨id, names, phase, pipe⟩ := c
  have hWritten := h.written
  cases hWritten with
  | fresh | gone => exact .gone
  | begun _ _ acc dealt hFollows hProgress hReach hId hCovered =>
    exact .begun _ _ acc dealt hFollows trivial hReach hId hCovered

/-! ### The client -/

theorem Streams.read (h : Streams s filter c sub start ms blocks p) (n : Nat) :
    Streams { s with conn := some { c with pipe := c.pipe.drop n }, reader := s.reader.read (c.pipe.take n) } filter
      { c with pipe := c.pipe.drop n } sub start ms blocks (p ++ c.pipe.take n) where
  found := h.found
  names := h.names
  since := h.since
  behind := h.behind
  stamp := h.stamp
  before := h.before
  plain := h.plain
  wire := by
    rw [List.append_assoc, List.take_append_drop]
    exact h.wire
  reader := by
    rw [Reader.read_append, ← h.reader]
  written := h.written

theorem Written.follows {history : List Event} {asked : Event → Bool} {phase : Phase}
    (h : Written history asked sub start phase blocks) :
    ∃ acc, Follows history asked start (shown (idText start.id) blocks) acc := by
  cases h with
  | fresh | gone => exact ⟨start, rfl⟩
  | begun _ _ acc dealt hFollows => exact ⟨acc, hFollows⟩

/-- Wherever the stream is cut off, the client has an account with its last id. -/
theorem Streams.account (h : Streams s filter c sub start ms blocks p) :
    ∃ acc, Follows s.feed.history (wanted (tables filter)) ⟨0, 0⟩ s.reader.messages acc ∧
      s.reader.lastId = idText acc.id := by
  have hPrefix : p <+: texts blocks := ⟨c.pipe, h.wire⟩
  obtain ⟨done, rest, rfl, hMessages, hLast⟩ := Reader.read_prefix h.plain (idText start.id) ms hPrefix
  obtain ⟨acc, hAll⟩ := h.written.follows
  rw [shown_append] at hAll
  obtain ⟨mid, hDone, -⟩ := hAll.split
  refine ⟨mid, ?_, ?_⟩
  · rw [h.reader, hMessages]
    exact h.before.append hDone
  · rw [h.reader, hLast, hDone.lastIds]

theorem Streams.cut (h : Streams s filter c sub start ms blocks p) :
    ∃ acc ms', Waits { s with conn := none, reader := .start s.reader.lastId s.reader.messages } filter acc ms' := by
  obtain ⟨acc, hFollows, hLast⟩ := h.account
  exact ⟨acc, s.reader.messages, hFollows, by rw [hLast]⟩

/-- The number that the handler reads is the client's last id. -/
theorem since_request (filter : String) (byQuery : Bool) {id : Nat} (h : id < 2 ^ 64) :
    since (request filter byQuery (idText id)) = .ok (UInt64.ofNat id) := by
  rcases Nat.eq_zero_or_pos id with rfl | hPos
  · cases byQuery <;> rfl
  · have hText : idText id = formatUint id := if_neg (by omega)
    have hNe : String.ofList (formatUint id) ≠ "" := by
      intro hEq
      have hNil := congrArg String.toList hEq
      rw [String.toList_ofList] at hNil
      exact digitsOf_ne_nil id (List.map_eq_nil_iff.mp hNil)
    have hParse : parseUint (String.ofList (formatUint id)).toList = some (UInt64.ofNat id) := by
      rw [String.toList_ofList]
      exact parseUint_formatUint h
    rw [hText]
    cases byQuery with
    | true =>
      rw [since, request, if_pos rfl, if_pos hNe, hParse]
    | false =>
      rw [since, request, if_neg Bool.false_ne_true, if_neg (by simp), if_pos hNe, hParse]
      rfl

theorem handleChanges_request {gate : Gate} {byQuery : Bool} {id : Nat} (h : id < 2 ^ 64) {v : UInt64}
    {names : Option (List String)}
    (hOk : handleChanges gate (request filter byQuery (idText id)) = .ok (v, names)) :
    v.toNat = id ∧ names = tables filter := by
  have hFilter : (request filter byQuery (idText id)).tables = filter := by
    cases byQuery <;> rfl
  unfold handleChanges at hOk
  split_ifs at hOk
  split at hOk
  · cases hOk
  · cases hOk
  · rw [since_request filter byQuery h, hFilter] at hOk
    cases hOk
    exact ⟨UInt64.toNat_ofNat_of_lt' h, rfl⟩

theorem subscribed {f f' : Feed.State} {v : UInt64} (h : Feed.step cfg f (.subscribe v) = some f') :
    f' = f ∨ ∃ replay reset, f'.heap = f.heap ++ [⟨[], false, v.toNat, replay, reset, f.feed.seq, [], none⟩] ∧
      f'.history = f.history := by
  cases Feed.step_effect h with
  | refuse => exact .inl rfl
  | attach _ replay reset => exact .inr ⟨replay, reset, rfl, rfl⟩

theorem Waits.connect {acc : Account} (h : Waits s filter acc ms) (hInv : Feed.Inv cfg s.feed)
    (hSmall : s.feed.history.length < 2 ^ 64) {gate : Gate} {byQuery : Bool} {v : UInt64} {names : Option (List String)}
    {feed : Feed.State} (hOk : handleChanges gate (request filter byQuery s.reader.lastId) = .ok (v, names))
    (hStep : Feed.step cfg s.feed (.subscribe v) = some feed) :
    Follower filter (s.connected names feed) := by
  have hId : acc.id ≤ s.feed.history.length := h.before.id_le (Nat.zero_le _)
  have hLast : s.reader.lastId = idText acc.id := by
    rw [h.reader]
    rfl
  rw [hLast] at hOk
  obtain ⟨hSince, hNames⟩ := handleChanges_request (hId.trans_lt hSmall) hOk
  rcases subscribed hStep with rfl | ⟨replay, reset, hHeap, hHistory⟩
  · have hConn : (s.connected names s.feed).conn = none := if_pos rfl
    exact follower_waits hConn ⟨h.before, h.reader⟩
  · have hConn : (s.connected names feed).conn = some ⟨s.feed.heap.length, names, .head, []⟩ :=
      if_neg (by rw [hHeap]; simp)
    have hStreams : Streams (s.connected names feed) filter ⟨s.feed.heap.length, names, .head, []⟩
        ⟨[], false, v.toNat, replay, reset, s.feed.feed.seq, [], none⟩ acc ms [] [] := {
      found := by simp [State.connected, hHeap]
      names := hNames
      since := hSince
      behind := hId.trans_eq hInv.recorded.seq.symm
      stamp := (hInv.recorded.seq.trans (congrArg List.length hHistory).symm).le
      before := by
        change Follows feed.history _ _ _ _
        rw [hHistory]
        exact h.before
      plain := by simp
      wire := rfl
      reader := h.reader
      written := .fresh rfl }
    exact follower_streams hConn hStreams

/-! ## Runs -/

theorem step_feed {a : Action} (h : step cfg filter s a = some t) :
    t.feed = s.feed ∨ ∃ b, Feed.step cfg s.feed b = some t.feed := by
  cases a with
  | feed b =>
    simp only [step] at h
    split at h
    · cases h
    · obtain ⟨feed, hFeed, rfl⟩ := Option.map_eq_some_iff.mp h
      exact .inr ⟨b, hFeed⟩
  | connect gate byQuery =>
    simp only [step] at h
    split at h
    · obtain ⟨feed, hFeed, rfl⟩ := Option.map_eq_some_iff.mp h
      exact .inr ⟨_, hFeed⟩
    · cases h
      exact .inl rfl
    · cases h
  | write =>
    simp only [step] at h
    split at h
    · cases h
    · split at h
      · cases h
      · unfold State.write at h
        split at h
        · cases h
          exact .inl rfl
        · cases h
          exact .inl rfl
        · cases h
          exact .inl rfl
        · split at h
          · cases h
          · obtain ⟨feed, hFeed, rfl⟩ := Option.map_eq_some_iff.mp h
            exact .inr ⟨_, hFeed⟩
        · cases h
  | ping =>
    simp only [step] at h
    split at h
    · cases h
    · split at h
      · cases h
        exact .inl rfl
      · cases h
  | finish =>
    simp only [step] at h
    split at h
    · cases h
    · obtain ⟨feed, hFeed, rfl⟩ := Option.map_eq_some_iff.mp h
      exact .inr ⟨_, hFeed⟩
  | read n =>
    simp only [step] at h
    split at h
    · cases h
    · cases h
      exact .inl rfl
  | cut =>
    cases h
    exact .inl rfl

theorem step_history {a : Action} (h : step cfg filter s a = some t) : s.feed.history <+: t.feed.history := by
  rcases step_feed h with hSame | ⟨b, hFeed⟩
  · rw [hSame]
  · exact history_grows hFeed

theorem Follower.feed (h : Follower filter s) {b : Feed.Action} {feed : Feed.State}
    (hStep : Feed.step cfg s.feed b = some feed) (hFree : s.reserved b = false) :
    Follower filter { s with feed := feed } := by
  rcases Option.eq_none_or_eq_some s.conn with hConn | ⟨c, hConn⟩
  · rw [Follower, hConn] at h
    obtain ⟨acc, ms, hWaits⟩ := h
    exact follower_waits hConn ⟨hWaits.before.mono (history_grows hStep), hWaits.reader⟩
  · rw [Follower, hConn] at h
    obtain ⟨sub, start, ms, blocks, p, hStreams⟩ := h
    have hNot : b ≠ .receive c.sub := by
      rintro rfl
      simp [State.reserved, hConn] at hFree
    obtain ⟨sub', hKept⟩ := hStreams.kept hStep hNot
    exact follower_streams hConn hKept

theorem Follower.step (h : Follower filter s) (hInv : Feed.Inv cfg s.feed) (hSmall : s.feed.history.length < 2 ^ 64)
    {a : Action} (hStep : step cfg filter s a = some t) : Follower filter t := by
  cases a with
  | feed b =>
    simp only [Changes.step] at hStep
    split at hStep
    · cases hStep
    · rename_i hFree
      obtain ⟨feed, hFeed, rfl⟩ := Option.map_eq_some_iff.mp hStep
      exact h.feed hFeed (Bool.eq_false_iff.mpr hFree)
  | connect gate byQuery =>
    simp only [Changes.step] at hStep
    split at hStep
    · rename_i v names hConn hOk
      obtain ⟨feed, hFeed, rfl⟩ := Option.map_eq_some_iff.mp hStep
      rw [Follower, hConn] at h
      obtain ⟨acc, ms, hWaits⟩ := h
      exact hWaits.connect hInv hSmall hOk hFeed
    · cases hStep
      exact h
    · cases hStep
  | write =>
    simp only [Changes.step] at hStep
    split at hStep
    · cases hStep
    · rename_i c hConn
      rw [Follower, hConn] at h
      obtain ⟨sub, start, ms, blocks, p, hStreams⟩ := h
      rw [hStreams.found] at hStep
      obtain ⟨c', sub', blocks', hConn', hNext⟩ := hStreams.write hInv hSmall hStep
      exact follower_streams hConn' hNext
  | ping =>
    simp only [Changes.step] at hStep
    split at hStep
    · cases hStep
    · rename_i c hConn
      rw [Follower, hConn] at h
      obtain ⟨sub, start, ms, blocks, p, hStreams⟩ := h
      split at hStep
      · rename_i hLive
        cases hStep
        obtain ⟨blocks', hNext⟩ := hStreams.ping hLive
        exact follower_streams rfl hNext
      · cases hStep
  | finish =>
    simp only [Changes.step] at hStep
    split at hStep
    · cases hStep
    · rename_i c hConn
      rw [Follower, hConn] at h
      obtain ⟨sub, start, ms, blocks, p, hStreams⟩ := h
      obtain ⟨feed, hFeed, rfl⟩ := Option.map_eq_some_iff.mp hStep
      obtain ⟨sub', hKept⟩ := hStreams.kept hFeed (fun hEq => by cases hEq)
      exact follower_streams rfl hKept.finish
  | read n =>
    simp only [Changes.step] at hStep
    split at hStep
    · cases hStep
    · rename_i c hConn
      rw [Follower, hConn] at h
      obtain ⟨sub, start, ms, blocks, p, hStreams⟩ := h
      cases hStep
      exact follower_streams rfl (hStreams.read n)
  | cut =>
    cases hStep
    cases hConn : s.conn with
    | none =>
      rw [Follower, hConn] at h
      obtain ⟨acc, ms, hWaits⟩ := h
      refine follower_waits rfl ⟨hWaits.before, ?_⟩
      rw [hWaits.reader]
      rfl
    | some c =>
      rw [Follower, hConn] at h
      obtain ⟨sub, start, ms, blocks, p, hStreams⟩ := h
      obtain ⟨acc, ms', hWaits⟩ := hStreams.cut
      exact follower_waits rfl hWaits

theorem always_inv (cfg : Config) (filter : String) (actions : List Action) :
    Always (step cfg filter) (fun s => s.feed.history.length < 2 ^ 64 → Inv cfg filter s) (init cfg) actions := by
  refine always_of_invariant ?_ ?_ actions
  · intro s a t hInv hStep hSmall
    have hSmall' : s.feed.history.length < 2 ^ 64 := (step_history hStep).length_le.trans_lt hSmall
    obtain ⟨hFeed, hFollower⟩ := hInv hSmall'
    refine ⟨?_, hFollower.step hFeed hSmall' hStep⟩
    rcases step_feed hStep with hSame | ⟨b, hb⟩
    · rw [hSame]
      exact hFeed
    · exact hFeed.move (Feed.step_move hb) hSmall
  · intro _
    have hWaits : Waits (init cfg) filter ⟨0, 0⟩ [] := ⟨rfl, rfl⟩
    exact ⟨Feed.inv_init cfg, follower_waits rfl hWaits⟩

/-! ## Nothing is missed -/

/-- The handler waits for an event, and the client has read all that was written. -/
def CaughtUp (s : State) : Prop :=
  ∃ c sub, s.conn = some c ∧ c.phase = .live ∧ c.pipe = [] ∧ s.feed.heap[c.sub]? = some sub ∧ sub.buf = [] ∧
    c.sub ∈ s.feed.feed.subs ∧ s.feed.publishing = none

theorem Streams.caughtUp (h : Streams s filter c sub start ms blocks p) (hInv : Feed.Inv cfg s.feed)
    (hLive : c.phase = .live) (hPipe : c.pipe = []) (hBuf : sub.buf = []) (hIn : c.sub ∈ s.feed.feed.subs)
    (hQuiet : s.feed.publishing = none) :
    ∃ acc, Follows s.feed.history (wanted (tables filter)) ⟨0, 0⟩ s.reader.messages acc ∧
      s.reader.lastId = idText acc.id ∧ Covered s.feed.history (wanted (tables filter)) acc.pos s.feed.history.length := by
  have hAll : p = texts blocks := by rw [← h.wire, hPipe, List.append_nil]
  have hReader : s.reader = .start (lastIds (idText start.id) blocks) (ms ++ shown (idText start.id) blocks) := by
    rw [h.reader, hAll, Reader.read_blocks h.plain]
  have hWritten := h.written
  rw [hLive] at hWritten
  cases hWritten with
  | begun _ _ acc dealt hFollows hProgress hReach hId hCovered =>
    have hOk := hInv.subs c.sub sub h.found
    have hUpto : s.feed.reach c.sub sub = s.feed.history.length :=
      Feed.reach_of_not_owes (hOk.attached.mpr hIn) (Feed.owes_of_none hQuiet c.sub)
    have hStream := congrArg List.length hOk.stream
    rw [hBuf, List.append_nil, ← hProgress, hUpto, List.take_length, List.length_drop] at hStream
    have hEnd : sub.start + dealt.length = s.feed.history.length := by
      have hStart := hOk.start_le
      omega
    refine ⟨acc, ?_, ?_, hEnd ▸ hCovered⟩
    · rw [hReader]
      exact h.before.append hFollows
    · rw [hReader]
      exact hFollows.lastIds

/-- In every run of one feed and a client that follows it, however often its connection breaks
and wherever in the text, and with every filter: the client can read each message it was
handed; its numbered events are events of the history, each newer than the last; between two
of them, and between a reset and the next of them, nothing that was asked for is left out; the
id it would resume from is the number of the last one; and when the stream is drained nothing
that was asked for is missing. -/
theorem follower_misses_nothing (cfg : Config) (filter : String) (actions : List Action) :
    Always (step cfg filter)
      (fun s => s.feed.history.length < 2 ^ 64 →
        ∃ acc, Follows s.feed.history (wanted (tables filter)) ⟨0, 0⟩ s.reader.messages acc ∧
          s.reader.lastId = idText acc.id ∧
          (CaughtUp s → Covered s.feed.history (wanted (tables filter)) acc.pos s.feed.history.length))
      (init cfg) actions := by
  refine (always_inv cfg filter actions).mono ?_
  intro s hInv hSmall
  obtain ⟨hFeed, hFollower⟩ := hInv hSmall
  by_cases hCaught : CaughtUp s
  · obtain ⟨c, sub, hConn, hLive, hPipe, hSub, hBuf, hIn, hQuiet⟩ := hCaught
    rw [Follower, hConn] at hFollower
    obtain ⟨sub', start, ms, blocks, p, hStreams⟩ := hFollower
    cases hStreams.found.symm.trans hSub
    obtain ⟨acc, hFollows, hLast, hCovered⟩ := hStreams.caughtUp hFeed hLive hPipe hBuf hIn hQuiet
    exact ⟨acc, hFollows, hLast, fun _ => hCovered⟩
  · cases hConn : s.conn with
    | none =>
      rw [Follower, hConn] at hFollower
      obtain ⟨acc, ms, hWaits⟩ := hFollower
      refine ⟨acc, ?_, ?_, fun h => absurd h hCaught⟩
      · rw [hWaits.reader]
        exact hWaits.before
      · rw [hWaits.reader]
        rfl
    | some c =>
      rw [Follower, hConn] at hFollower
      obtain ⟨sub, start, ms, blocks, p, hStreams⟩ := hFollower
      obtain ⟨acc, hFollows, hLast⟩ := hStreams.account
      exact ⟨acc, hFollows, hLast, fun h => absurd h hCaught⟩

-- The second stream breaks inside the block of the third event.
example : (run (step (Feed.new 4 0) " t,") (init (Feed.new 4 0))
    [.connect ⟨true, .readOnly, none⟩ false, .write, .write, .feed (.publish [⟨0, "t", .insert, 7, false⟩]), .feed .next,
      .feed (.offer 0), .feed .unlock, .write, .read 200,
      .feed (.publish [⟨0, "u", .insert, 8, false⟩, ⟨0, "t", .delete, 9, false⟩]), .feed .next, .feed (.offer 0),
      .feed .next, .feed (.offer 0), .feed .unlock, .write, .write, .read 30, .cut,
      .connect ⟨true, .readOnly, none⟩ true, .write, .write, .write, .read 200]).map
        (fun s => s.reader.messages.map fun m => (readShown m).toOption) =
      some [some (.ready 0), some (.change ⟨1, "t", .insert, 7, false⟩), some (.ready 3),
        some (.change ⟨3, "t", .delete, 9, false⟩)] := by
  decide +kernel

end QuicSql.Changes
