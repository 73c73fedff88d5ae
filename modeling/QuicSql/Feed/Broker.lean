import Mathlib.Data.Finmap
import QuicSql.Feed.Stream

/-!
# The broker

The broker maps names and paths to feeds under a lock of its own and then works on the
feed under the feed's lock, so a call is a section of the broker followed by a section of
one feed, and other calls come in between. Feeds are heap objects: a subscriber or a
pending call keeps its feed when the maps have moved on.
-/

namespace QuicSql.Feed

open Lib

structure Named where
  name : String
  feed : State

/-- Where a call stands. `resolved` is the canonical form of `path`. -/
inductive BrokerCall where
  | subscribe (db : String) (since : UInt64)
  | attach (f : Nat) (since : UInt64)
  | register (name path resolved : String)
  | forget (name : String)
  | closeAll (f : Nat)
  | close (f sub : Nat)
  | returned
deriving DecidableEq

structure Broker where
  feeds : List Named
  byName : Finmap (fun _ : String => Nat)
  byPath : List (String × Nat)
  calls : List BrokerCall

namespace Broker

inductive Op where
  | subscribe (db : String) (since : UInt64)
  | register (name path resolved : String)
  | forget (name : String)
  | close (f sub : Nat)

def Op.start : Op → BrokerCall
  | .subscribe db since => .subscribe db since
  | .register name path resolved => .register name path resolved
  | .forget name => .forget name
  | .close f sub => .close f sub

/-- Connections publish to the feed they were opened under, and consumers receive. -/
inductive Traffic where
  | publish (events : List Event)
  | next
  | offer (sub : Nat)
  | unlock
  | receive (sub : Nat)

def Traffic.action : Traffic → Feed.Action
  | .publish events => .publish events
  | .next => .next
  | .offer sub => .offer sub
  | .unlock => .unlock
  | .receive sub => .receive sub

inductive Action where
  | call (op : Op)
  | step (i : Nat)
  | traffic (f : Nat) (x : Traffic)

def init : Broker := ⟨[], ∅, [], []⟩

/-- A section under the lock of feed `f`. -/
def onFeed (cfg : Config) (b : Broker) (f : Nat) (a : Feed.Action) : Option Broker :=
  match b.feeds[f]? with
  | none => none
  | some x => (Feed.step cfg x.feed a).map (fun feed => { b with feeds := b.feeds.set f { x with feed := feed } })

def register (cfg : Config) (b : Broker) (name resolved : String) : Broker :=
  { b with
    feeds := b.feeds ++ [⟨name, Feed.init cfg⟩]
    byPath := (resolved, b.feeds.length) :: b.byPath.filter (fun e => e.1 ≠ resolved)
    byName := b.byName.insert name b.feeds.length }

def unmap (b : Broker) (name : String) (f : Nat) : Broker :=
  { b with byName := b.byName.erase name, byPath := b.byPath.filter (fun e => e.2 ≠ f) }

def callStep (cfg : Config) (b : Broker) : BrokerCall → Option (Broker × BrokerCall)
  | .subscribe db since =>
    match b.byName.lookup db with
    | none => some (b, .returned)
    | some f => some (b, .attach f since)
  | .attach f since => (b.onFeed cfg f (.subscribe since)).map (fun b => (b, .returned))
  | .register name path resolved =>
    if path = "" then some (b, .returned) else some (b.register cfg name resolved, .returned)
  | .forget name =>
    match b.byName.lookup name with
    | none => some (b, .returned)
    | some f => some (b.unmap name f, .closeAll f)
  | .closeAll f => (b.onFeed cfg f .closeAll).map (fun b => (b, .returned))
  | .close f sub => (b.onFeed cfg f (.unsubscribe sub)).map (fun b => (b, .returned))
  | .returned => none

def step (cfg : Config) (b : Broker) : Action → Option Broker
  | .call op => some { b with calls := b.calls ++ [op.start] }
  | .step i =>
    match b.calls[i]? with
    | none => none
    | some c => (b.callStep cfg c).map (fun (b', c') => { b' with calls := b.calls.set i c' })
  | .traffic f x => b.onFeed cfg f x.action

def Quiescent (b : Broker) : Prop :=
  (∀ c ∈ b.calls, c = .returned) ∧ ∀ x ∈ b.feeds, x.feed.publishing = none

/-- Open channels belong to registered feeds, and paths lead to registered feeds. -/
structure Anchored (b : Broker) : Prop where
  subscribers : ∀ (f : Nat) (x : Named), b.feeds[f]? = some x → ∀ (id : Nat) (sub : Subscriber),
    x.feed.heap[id]? = some sub → sub.closed = false → b.byName.lookup x.name = some f
  paths : ∀ e ∈ b.byPath, ∃ name, b.byName.lookup name = some e.2

def Registered (b : Broker) (f : Nat) : Prop :=
  b.feeds[f]?.bind (fun x => b.byName.lookup x.name) = some f

instance (b : Broker) (f : Nat) : Decidable (b.Registered f) := inferInstanceAs (Decidable (_ = _))

/-- A feed that a registration replaces has no subscribers and no other path. -/
def Disused (b : Broker) (f : Nat) (resolved : String) : Prop :=
  (∀ x ∈ b.feeds[f]?, x.feed.feed.subs = ∅) ∧ ∀ e ∈ b.byPath, e.2 = f → e.1 = resolved

instance (b : Broker) (f : Nat) (resolved : String) : Decidable (b.Disused f resolved) :=
  inferInstanceAs (Decidable (_ ∧ _))

/-- The condition on a call's next section. -/
def CallOrderly (b : Broker) : BrokerCall → Prop
  | .attach f _ => b.Registered f ∨ .closeAll f ∈ b.calls
  | .register name path resolved => path = "" ∨ ∀ f ∈ b.byName.lookup name, b.Disused f resolved
  | _ => True

instance (b : Broker) : ∀ c, Decidable (b.CallOrderly c)
  | .attach f _ => inferInstanceAs (Decidable (b.Registered f ∨ .closeAll f ∈ b.calls))
  | .register name path resolved =>
    inferInstanceAs (Decidable (path = "" ∨ ∀ f ∈ b.byName.lookup name, b.Disused f resolved))
  | .subscribe _ _ => isTrue trivial
  | .forget _ => isTrue trivial
  | .closeAll _ => isTrue trivial
  | .close _ _ => isTrue trivial
  | .returned => isTrue trivial

def Orderly (b : Broker) : Action → Prop
  | .step i => ∀ c ∈ b.calls[i]?, b.CallOrderly c
  | .call _ => True
  | .traffic _ _ => True

instance (b : Broker) : ∀ a, Decidable (b.Orderly a)
  | .step i => inferInstanceAs (Decidable (∀ c ∈ b.calls[i]?, b.CallOrderly c))
  | .call _ => isTrue trivial
  | .traffic _ _ => isTrue trivial

end Broker

/-! ## Channels of one feed -/

section

variable {cfg : Config} {s t : State}

/-- A channel is open as long as its subscriber is attached. -/
structure Wired (s : State) : Prop where
  made : ∀ id ∈ s.feed.subs, id < s.heap.length
  closed : ∀ (id : Nat) (sub : Subscriber), s.heap[id]? = some sub → (sub.closed = true ↔ id ∉ s.feed.subs)

theorem wired_init (cfg : Config) : Wired (init cfg) where
  made := nofun
  closed := nofun

theorem Wired.use (h : Wired s) {id : Nat} {sub used : Subscriber} (hSub : s.heap[id]? = some sub)
    (hHeap : t.heap = s.heap.set id used) (hUsed : used.closed = sub.closed) (hSubs : t.feed.subs = s.feed.subs) :
    Wired t where
  made other hOther := by
    rw [hHeap, List.length_set]
    exact h.made other (hSubs ▸ hOther)
  closed other sub' hSub' := by
    rw [hHeap] at hSub'
    rw [hSubs]
    rcases getElem?_set_cases hSub' with ⟨rfl, rfl⟩ | ⟨-, hOld⟩
    · rw [hUsed]
      exact h.closed id sub hSub
    · exact h.closed other sub' hOld

theorem Wired.leave (h : Wired s) {id : Nat} {left : Subscriber} (hLeft : left.closed = true)
    (hHeap : t.heap = s.heap.set id left) (hSubs : t.feed.subs = s.feed.subs.erase id) : Wired t where
  made other hOther := by
    rw [hSubs] at hOther
    rw [hHeap, List.length_set]
    exact h.made other (Finset.mem_of_mem_erase hOther)
  closed other sub' hSub' := by
    rw [hHeap] at hSub'
    rw [hSubs]
    rcases getElem?_set_cases hSub' with ⟨rfl, rfl⟩ | ⟨hNe, hOld⟩
    · exact ⟨fun _ => Finset.notMem_erase _ _, fun _ => hLeft⟩
    · rw [h.closed other sub' hOld, mem_erase_of_ne hNe]

theorem Wired.move (h : Wired s) (hMove : Move cfg s t) : Wired t := by
  cases hMove with
  | stay => exact h
  | lock | next => exact ⟨h.made, h.closed⟩
  | offer p id sub hp hTodo hSub =>
    unfold State.offer
    split
    · exact h.use hSub rfl rfl rfl
    · exact h.leave rfl rfl rfl
  | attach =>
    constructor
    · intro id hId
      rw [State.attach, List.length_append]
      rcases Finset.mem_insert.mp hId with rfl | hOld
      · exact Nat.lt_succ_self _
      · exact Nat.lt_add_right _ (h.made id hOld)
    · intro id sub hSub
      rcases getElem?_append_cases hSub with ⟨rfl, rfl⟩ | ⟨hLt, hOld⟩
      · exact ⟨nofun, fun hOut => absurd (Finset.mem_insert_self _ _) hOut⟩
      · rw [h.closed id sub hOld]
        exact not_congr (Finset.mem_insert.trans (or_iff_right (Nat.ne_of_lt hLt))).symm
  | detach => exact h.leave rfl rfl rfl
  | detachAll =>
    constructor
    · nofun
    · intro id sub' hSub'
      change (s.heap.mapIdx _)[id]? = some sub' at hSub'
      rw [List.getElem?_mapIdx] at hSub'
      obtain ⟨sub, hSub, rfl⟩ := Option.map_eq_some_iff.mp hSub'
      refine ⟨fun _ => Finset.notMem_empty _, fun _ => ?_⟩
      split
      · rfl
      · rename_i hOut
        exact (h.closed id sub hSub).mpr hOut
  | receive id sub e rest hSub hBuf => exact h.use hSub rfl rfl rfl

theorem step_subs_subset {a : Action} (h : step cfg s a = some t) (hSubscribe : ∀ since, a ≠ .subscribe since) :
    t.feed.subs ⊆ s.feed.subs := by
  have hLength := step_heap_length h hSubscribe
  cases step_move h with
  | stay | lock | next | receive => exact Finset.Subset.refl _
  | offer p id sub =>
    unfold State.offer
    split
    · exact Finset.Subset.refl _
    · exact Finset.erase_subset _ _
  | attach =>
    rw [State.attach, List.length_append, List.length_singleton] at hLength
    omega
  | detach => exact Finset.erase_subset _ _
  | detachAll => exact Finset.empty_subset _

end

/-! ## Runs of the broker -/

namespace Broker

structure Inv (b : Broker) : Prop where
  wired : ∀ x ∈ b.feeds, Wired x.feed
  names : ∀ (name : String) (f : Nat), b.byName.lookup name = some f →
    ∃ x, b.feeds[f]? = some x ∧ x.name = name
  subscribers : ∀ (f : Nat) (x : Named), b.feeds[f]? = some x → x.feed.feed.subs.Nonempty →
    b.byName.lookup x.name = some f ∨ .closeAll f ∈ b.calls
  paths : ∀ e ∈ b.byPath, ∃ name, b.byName.lookup name = some e.2

variable {cfg : Config} {b t : Broker} {f i : Nat} {c : BrokerCall}

theorem inv_init : Inv init where
  wired := nofun
  names := nofun
  subscribers := nofun
  paths := nofun

theorem Inv.withCalls (h : Inv b) {calls : List BrokerCall} (hClosing : ∀ f, .closeAll f ∈ b.calls → .closeAll f ∈ calls) :
    Inv { b with calls := calls } where
  wired := h.wired
  names := h.names
  subscribers f x hx hSubs := (h.subscribers f x hx hSubs).imp_right (hClosing f)
  paths := h.paths

theorem onFeed_eq {a : Feed.Action} (h : b.onFeed cfg f a = some t) :
    ∃ x feed, b.feeds[f]? = some x ∧ Feed.step cfg x.feed a = some feed ∧
      t = { b with feeds := b.feeds.set f { x with feed := feed } } := by
  unfold onFeed at h
  split at h
  · cases h
  · rename_i x hx
    obtain ⟨feed, hFeed, rfl⟩ := Option.map_eq_some_iff.mp h
    exact ⟨x, feed, hx, hFeed, rfl⟩

theorem Inv.onFeed (h : Inv b) {a : Feed.Action} (hStep : b.onFeed cfg f a = some t) {calls : List BrokerCall}
    (hOthers : ∀ g, g ≠ f → .closeAll g ∈ b.calls → .closeAll g ∈ calls)
    (hOwn : ∀ x feed, b.feeds[f]? = some x → Feed.step cfg x.feed a = some feed → feed.feed.subs.Nonempty →
      b.byName.lookup x.name = some f ∨ .closeAll f ∈ calls) : Inv { t with calls := calls } := by
  obtain ⟨x, feed, hx, hFeed, rfl⟩ := onFeed_eq hStep
  constructor
  · apply forall_mem_set h.wired
    exact (h.wired x (List.mem_of_getElem? hx)).move (step_move hFeed)
  · intro name g hg
    obtain ⟨y, hy, hName⟩ := h.names name g hg
    rcases eq_or_ne f g with rfl | hNe
    · cases hx.symm.trans hy
      exact ⟨_, getElem?_set_of_some hx, hName⟩
    · exact ⟨y, (List.getElem?_set_ne hNe).trans hy, hName⟩
  · intro g y hy hSubs
    rcases getElem?_set_cases hy with ⟨rfl, rfl⟩ | ⟨hNe, hOld⟩
    · exact hOwn x feed hx hFeed hSubs
    · exact (h.subscribers g y hOld hSubs).imp_right (hOthers g hNe.symm)
  · exact h.paths

theorem Inv.onFeed_quiet (h : Inv b) {a : Feed.Action} (hStep : b.onFeed cfg f a = some t) {calls : List BrokerCall}
    (hClosing : ∀ g, .closeAll g ∈ b.calls → .closeAll g ∈ calls) (hSubscribe : ∀ since, a ≠ .subscribe since) :
    Inv { t with calls := calls } := by
  refine h.onFeed hStep (fun g _ => hClosing g) ?_
  intro x feed hx hFeed hSubs
  exact (h.subscribers f x hx (hSubs.mono (step_subs_subset hFeed hSubscribe))).imp_right (hClosing f)

theorem step_closeAll_subs {s s' : State} (h : Feed.step cfg s .closeAll = some s') : s'.feed.subs = ∅ := by
  cases step_effect h with
  | detachAll hp => rfl

theorem Inv.register (h : Inv b) {name resolved : String}
    (hDisused : ∀ f ∈ b.byName.lookup name, b.Disused f resolved) : Inv (b.register cfg name resolved) where
  wired := by
    intro x hx
    rcases List.mem_append.mp hx with hOld | hNew
    · exact h.wired x hOld
    · cases List.mem_singleton.mp hNew
      exact wired_init cfg
  names := by
    intro other f hf
    rcases eq_or_ne other name with rfl | hNe
    · rw [Broker.register, Finmap.lookup_insert] at hf
      cases hf
      exact ⟨⟨other, Feed.init cfg⟩, List.getElem?_concat_length, rfl⟩
    · rw [Broker.register, Finmap.lookup_insert_of_ne _ hNe] at hf
      obtain ⟨x, hx, hName⟩ := h.names other f hf
      exact ⟨x, getElem?_append_of_some hx, hName⟩
  subscribers := by
    intro f x hx hSubs
    rcases getElem?_append_cases hx with ⟨-, rfl⟩ | ⟨-, hOld⟩
    · exact absurd hSubs Finset.not_nonempty_empty
    · rcases h.subscribers f x hOld hSubs with hRegistered | hClosing
      · have hNe : x.name ≠ name := by
          rintro rfl
          rw [(hDisused f hRegistered).1 x hOld] at hSubs
          exact Finset.not_nonempty_empty hSubs
        exact .inl ((Finmap.lookup_insert_of_ne _ hNe).trans hRegistered)
      · exact .inr hClosing
  paths := by
    intro e he
    rcases List.mem_cons.mp he with rfl | hOld
    · exact ⟨name, Finmap.lookup_insert _⟩
    · obtain ⟨hMem, hOther⟩ := List.mem_filter.mp hOld
      obtain ⟨other, hLookup⟩ := h.paths e hMem
      have hNe : other ≠ name := by
        rintro rfl
        exact of_decide_eq_true hOther ((hDisused e.2 hLookup).2 e hMem rfl)
      exact ⟨other, (Finmap.lookup_insert_of_ne _ hNe).trans hLookup⟩

/-- Once the maps have forgotten a feed, its subscribers wait for the second section. -/
theorem Inv.unmap (h : Inv b) {name : String} (hf : b.byName.lookup name = some f) {calls : List BrokerCall}
    (hClosing : ∀ g, .closeAll g ∈ b.calls → .closeAll g ∈ calls) (hOwn : .closeAll f ∈ calls) :
    Inv { b.unmap name f with calls := calls } where
  wired := h.wired
  names := by
    intro other g hg
    rcases eq_or_ne other name with rfl | hNe
    · rw [Broker.unmap, Finmap.lookup_erase] at hg
      cases hg
    · rw [Broker.unmap, Finmap.lookup_erase_ne hNe] at hg
      exact h.names other g hg
  subscribers := by
    intro g x hx hSubs
    rcases h.subscribers g x hx hSubs with hRegistered | hPending
    · rcases eq_or_ne x.name name with hName | hNe
      · rw [hName, hf] at hRegistered
        cases hRegistered
        exact .inr hOwn
      · exact .inl ((Finmap.lookup_erase_ne hNe).trans hRegistered)
    · exact .inr (hClosing g hPending)
  paths := by
    intro e he
    obtain ⟨hMem, hOther⟩ := List.mem_filter.mp he
    obtain ⟨other, hLookup⟩ := h.paths e hMem
    have hNe : other ≠ name := by
      rintro rfl
      rw [hf] at hLookup
      exact of_decide_eq_true hOther (Option.some.inj hLookup).symm
    exact ⟨other, (Finmap.lookup_erase_ne hNe).trans hLookup⟩

theorem Inv.callStep (h : Inv b) (hCall : b.calls[i]? = some c) (hOrderly : b.CallOrderly c) {c' : BrokerCall}
    (hStep : b.callStep cfg c = some (t, c')) : Inv { t with calls := b.calls.set i c' } := by
  have hKeep (hOther : ∀ g, c ≠ .closeAll g) : ∀ g, .closeAll g ∈ b.calls → .closeAll g ∈ b.calls.set i c' :=
    fun g hIn => mem_set_of_mem_ne hCall hIn (hOther g).symm
  cases c with
  | subscribe db since =>
    simp only [Broker.callStep] at hStep
    split at hStep
    · cases hStep
      exact h.withCalls (hKeep nofun)
    · cases hStep
      exact h.withCalls (hKeep nofun)
  | attach f since =>
    obtain ⟨t', hFeed, hEq⟩ := Option.map_eq_some_iff.mp hStep
    cases hEq
    refine h.onFeed hFeed (fun g _ => hKeep nofun g) ?_
    intro x feed hx _ _
    rcases hOrderly with hRegistered | hClosing
    · rw [Registered, hx, Option.bind_some] at hRegistered
      exact .inl hRegistered
    · exact .inr (hKeep nofun f hClosing)
  | register name path resolved =>
    simp only [Broker.callStep] at hStep
    split at hStep
    · cases hStep
      exact h.withCalls (hKeep nofun)
    · rename_i hPath
      cases hStep
      exact (h.register (hOrderly.resolve_left hPath)).withCalls (hKeep nofun)
  | forget name =>
    simp only [Broker.callStep] at hStep
    split at hStep
    · cases hStep
      exact h.withCalls (hKeep nofun)
    · rename_i f hf
      cases hStep
      exact h.unmap hf (hKeep nofun) (mem_set_self hCall)
  | closeAll f =>
    obtain ⟨t', hFeed, hEq⟩ := Option.map_eq_some_iff.mp hStep
    cases hEq
    refine h.onFeed hFeed ?_ ?_
    · intro g hg hIn
      exact mem_set_of_mem_ne hCall hIn (fun hEq => hg (BrokerCall.closeAll.inj hEq))
    · intro x feed _ hClose hSubs
      rw [step_closeAll_subs hClose] at hSubs
      exact absurd hSubs Finset.not_nonempty_empty
  | close f sub =>
    obtain ⟨t', hFeed, hEq⟩ := Option.map_eq_some_iff.mp hStep
    cases hEq
    exact h.onFeed_quiet hFeed (hKeep nofun) nofun
  | returned => cases hStep

theorem Inv.step (h : Inv b) {a : Action} (hOrderly : b.Orderly a) (hStep : step cfg b a = some t) : Inv t := by
  cases a with
  | call op =>
    cases hStep
    exact h.withCalls (fun f hIn => List.mem_append_left _ hIn)
  | step i =>
    simp only [Broker.step] at hStep
    split at hStep
    · cases hStep
    · rename_i c hCall
      obtain ⟨⟨b', c'⟩, hCallStep, rfl⟩ := Option.map_eq_some_iff.mp hStep
      exact h.callStep hCall (hOrderly c hCall) hCallStep
  | traffic f x =>
    have hInv : Inv { t with calls := b.calls } := by
      refine h.onFeed_quiet hStep (fun _ hIn => hIn) ?_
      cases x <;> exact nofun
    obtain ⟨y, feed, -, -, rfl⟩ := onFeed_eq hStep
    exact hInv

theorem Inv.anchored (h : Inv b) (hQuiet : b.Quiescent) : b.Anchored := by
  refine ⟨?_, h.paths⟩
  intro f x hx id sub hSub hOpen
  have hAttached : id ∈ x.feed.feed.subs := by
    by_contra hOut
    have hClosed := ((h.wired x (List.mem_of_getElem? hx)).closed id sub hSub).mpr hOut
    cases hOpen.symm.trans hClosed
  rcases h.subscribers f x hx ⟨id, hAttached⟩ with hRegistered | hClosing
  · exact hRegistered
  · cases hQuiet.1 _ hClosing

/-- Nobody is stranded in a run where no subscriber attaches to a feed that the maps have
lost for good, and no registration replaces a feed that is in use. -/
theorem nobody_stranded (cfg : Config) (actions : List Action)
    (hOrderly : Guarded (step cfg) Orderly init actions) :
    Always (step cfg) (fun b => b.Quiescent → b.Anchored) init actions := by
  have hAlways : Always (step cfg) Inv init actions :=
    always_of_guarded (fun _ _ _ hInv hNext hStep => hInv.step hNext hStep) inv_init hOrderly
  exact hAlways.mono (fun _ hInv => hInv.anchored)

theorem late_subscriber_closed :
    Always (step (new 4 0)) (fun b => b.Quiescent → b.Anchored) init
      [.call (.register "d" "/d.db" "/d.db"), .step 0, .call (.subscribe "d" 0), .call (.forget "d"), .step 1,
        .step 2, .step 1, .step 2] :=
  nobody_stranded (new 4 0) _ (by decide +kernel)

/-- A subscriber looks its feed up before a `Forget` and attaches after it. -/
def overtakenSubscribe : List Action :=
  [.call (.register "d" "/d.db" "/d.db"), .step 0, .call (.subscribe "d" 0), .call (.forget "d"), .step 1,
    .step 2, .step 2, .step 1]

theorem forgotten_feed_strands :
    ¬ Always (step (new 4 0)) (fun b => b.Quiescent → b.Anchored) init overtakenSubscribe := by
  intro hAlways
  have hMaps : (run (step (new 4 0)) init overtakenSubscribe).map (fun b => (b.calls, b.byName.lookup "d")) =
      some ([.returned, .returned, .returned], none) := by
    decide +kernel
  have hFeeds : (run (step (new 4 0)) init overtakenSubscribe).map
      (fun b => b.feeds.map (fun x => (x.name, x.feed.publishing.isNone, x.feed.heap))) =
      some [("d", true, [⟨[], false, 0, [], false, 0, [], none⟩])] := by
    decide +kernel
  obtain ⟨b, hb, hFacts⟩ := Option.map_eq_some_iff.mp hMaps
  obtain ⟨hCalls, hLookup⟩ := Prod.mk.inj hFacts
  rw [hb, Option.map_some, Option.some.injEq] at hFeeds
  obtain ⟨x, rest, hList, hx, hRest⟩ := List.map_eq_cons_iff.mp hFeeds
  cases List.map_eq_nil_iff.mp hRest
  simp only [Prod.mk.injEq] at hx
  obtain ⟨hName, hIdle, hHeap⟩ := hx
  have hQuiet : b.Quiescent := by
    rw [Quiescent, hCalls, hList]
    exact ⟨by decide, by simpa using hIdle⟩
  have hRegistered := (hAlways.final hb hQuiet).subscribers 0 x (by rw [hList]; rfl) 0 _ (by rw [hHeap]; rfl) rfl
  rw [hName, hLookup] at hRegistered
  cases hRegistered

end Broker

end QuicSql.Feed
