import QuicSql.Lib.Pool
import QuicSql.Registry.Model

/-!
# The registry invariant

An entry in the map has one of three shapes: opening, serving a handle, or the
placeholder of a reservation. Each call in progress relies on the entry it was
given; `refs` counts exactly the calls that do. No clause speaks of two calls
at once except through these counts.
-/

namespace QuicSql.Registry

open Lib

def Usable (r : Registry) (name : DbName) (h : HandleId) : Prop :=
  h < r.nextHandle ∧ r.handles h = ⟨name, .open⟩

def Retired (r : Registry) (h : HandleId) : Prop :=
  h < r.nextHandle ∧ (r.handles h).status ≠ .open

def Opening (entry : Entry) : Prop :=
  entry.opening = true ∧ entry.db = none ∧ entry.reserved = false ∧ entry.refs = 1

def Serving (r : Registry) (name : DbName) (entry : Entry) : Prop :=
  entry.opening = false ∧ entry.reserved = false ∧
    ∃ db, entry.db = some db ∧ db.name = name ∧ Usable r name db.handle

def Placeholder (entry : Entry) : Prop :=
  entry.opening = false ∧ entry.reserved = true ∧ entry.db = none ∧ entry.refs = 0

structure EntryOk (r : Registry) (name : DbName) (entry : Entry) : Prop where
  name_eq : entry.name = name
  err_eq : entry.err = none
  shape : Opening entry ∨ Serving r name entry ∨ Placeholder entry

def Opens (r : Registry) (name : DbName) (e : EntryId) : Prop :=
  r.entries.lookup name = some e ∧ (r.heap e).opening = true

def Serves (r : Registry) (name : DbName) (e : EntryId) (db : DB) : Prop :=
  r.entries.lookup name = some e ∧ (r.heap e).db = some db

def Reserved (r : Registry) (name : DbName) : Prop :=
  ∃ e, r.entries.lookup name = some e ∧ (r.heap e).reserved = true

/-- What a call relies on at the point where it stands. -/
def CallOk (r : Registry) : Call → Prop
  | .opening name e => Opens r name e
  | .opened name e (.error _) => Opens r name e
  | .opened name e (.ok h) => Opens r name e ∧ Usable r name h
  | .signal _ e (.error _) => e < r.nextEntry ∧ (r.heap e).opening = false
  | .signal name e (.ok db) => Serves r name e db
  | .waiting _ e => e < r.nextEntry
  | .relock _ e => e < r.nextEntry ∧ (r.heap e).ready = true
  | .returning name e db | .holding name e db => ∃ d, db = some d ∧ Serves r name e d
  | .reserved name => Reserved r name
  | .closing (.reserve name) todo _ => Reserved r name ∧ ∀ db ∈ todo, Retired r db.handle
  | .closing _ todo _ => ∀ db ∈ todo, Retired r db.handle
  | _ => True

def Call.holdsRef (e : EntryId) : Call → Bool
  | .opening _ e' | .opened _ e' _ | .signal _ e' (.ok _) => e = e'
  | .returning _ e' _ | .holding _ e' _ => e = e'
  | _ => false

def Call.reserves (name : DbName) : Call → Bool
  | .reserved name' | .closing (.reserve name') _ _ => name = name'
  | _ => false

def Call.pins (name : DbName) : Call → Bool
  | .opening name' _ | .opened name' _ _ | .signal name' _ (.ok _) => name = name'
  | .returning name' _ _ | .holding name' _ _ => name = name'
  | .reserved name' | .closing (.reserve name') _ _ => name = name'
  | _ => false

/-- An open handle is in the map, or its opener has not published it yet. -/
def Live (s : State) (h : HandleId) : Prop :=
  (∃ name e db, (s.reg.handles h).name = name ∧ Serves s.reg name e db ∧ db.handle = h) ∨
  (∃ name e, Call.opened name e (.ok h) ∈ s.calls)

structure Inv (s : State) : Prop where
  entryOk : ∀ name e, s.reg.entries.lookup name = some e →
    e < s.reg.nextEntry ∧ EntryOk s.reg name (s.reg.heap e)
  readyOk : ∀ e, e < s.reg.nextEntry → (s.reg.heap e).ready = true → (s.reg.heap e).opening = false
  callOk : ∀ c ∈ s.calls, CallOk s.reg c
  refs : ∀ e, e < s.reg.nextEntry → (s.reg.heap e).refs = s.calls.countP (Call.holdsRef e)
  reservedOnce : ∀ name, s.calls.countP (Call.reserves name) ≤ 1
  live : ∀ h, h < s.reg.nextHandle → (s.reg.handles h).status = .open → Live s h

theorem inv_init (backends : Finmap (fun _ : DbName => Backend)) : Inv (init backends) where
  entryOk name e h := by simp [init, new] at h
  readyOk e h := by simp [init, new] at h
  callOk c h := by simp [init] at h
  refs e h := by simp [init, new] at h
  reservedOnce name := by simp [init]
  live h hLt := by simp [init, new] at hLt

theorem CallOk.of_pins {r : Registry} {name : DbName} {c : Call} (h : CallOk r c)
    (hPins : c.pins name = true) : ∃ e, r.entries.lookup name = some e ∧
      (c.holdsRef e = true ∨ (c.reserves name = true ∧ (r.heap e).reserved = true)) := by
  cases c with
  | opening name' e =>
    obtain rfl : name = name' := by simpa [Call.pins] using hPins
    exact ⟨e, h.1, .inl (by simp [Call.holdsRef])⟩
  | opened name' e result =>
    obtain rfl : name = name' := by simpa [Call.pins] using hPins
    cases result with
    | error _ => exact ⟨e, h.1, .inl (by simp [Call.holdsRef])⟩
    | ok _ => exact ⟨e, h.1.1, .inl (by simp [Call.holdsRef])⟩
  | signal name' e result =>
    cases result with
    | error _ => simp [Call.pins] at hPins
    | ok _ =>
      obtain rfl : name = name' := by simpa [Call.pins] using hPins
      exact ⟨e, h.1, .inl (by simp [Call.holdsRef])⟩
  | returning name' e db | holding name' e db =>
    obtain rfl : name = name' := by simpa [Call.pins] using hPins
    obtain ⟨d, _, hServes⟩ := h
    exact ⟨e, hServes.1, .inl (by simp [Call.holdsRef])⟩
  | reserved name' =>
    obtain rfl : name = name' := by simpa [Call.pins] using hPins
    obtain ⟨e, hLookup, hReserved⟩ := h
    exact ⟨e, hLookup, .inr ⟨by simp [Call.reserves], hReserved⟩⟩
  | closing purpose todo stage =>
    cases purpose with
    | reserve name' =>
      obtain rfl : name = name' := by simpa [Call.pins] using hPins
      obtain ⟨⟨e, hLookup, hReserved⟩, _⟩ := h
      exact ⟨e, hLookup, .inr ⟨by simp [Call.reserves], hReserved⟩⟩
    | remove | reap => simp [Call.pins] at hPins
  | _ => simp [Call.pins] at hPins

/-- The two entries agree on all that the invariant reads but a serving entry's count. -/
structure SameShape (x y : Entry) : Prop where
  name : y.name = x.name
  err : y.err = x.err
  opening : y.opening = x.opening
  db : y.db = x.db
  reserved : y.reserved = x.reserved
  refs : y.refs = x.refs ∨ x.db ≠ none

theorem SameShape.refl (x : Entry) : SameShape x x := ⟨rfl, rfl, rfl, rfl, rfl, .inl rfl⟩

/-- The step from `r` to `r'` leaves the entries of the kept names alone. -/
structure Frame (keep : DbName → Prop) (r r' : Registry) : Prop where
  nextEntry : r.nextEntry ≤ r'.nextEntry
  nextHandle : r.nextHandle ≤ r'.nextHandle
  mapped : ∀ name, keep name → r'.entries.lookup name = r.entries.lookup name
  shape : ∀ name e, keep name → r.entries.lookup name = some e → SameShape (r.heap e) (r'.heap e)
  closed : ∀ e, e < r.nextEntry → (r.heap e).opening = false → (r'.heap e).opening = false
  ready : ∀ e, e < r.nextEntry → (r.heap e).ready = true → (r'.heap e).ready = true
  usable : ∀ name h, keep name → Usable r name h → Usable r' name h
  retired : ∀ h, Retired r h → Retired r' h

section

variable {keep : DbName → Prop} {r r' : Registry} {name : DbName} {e : EntryId}

theorem Frame.opens (hFrame : Frame keep r r') (hKeep : keep name) (h : Opens r name e) :
    Opens r' name e :=
  ⟨(hFrame.mapped name hKeep).trans h.1, (hFrame.shape name e hKeep h.1).opening.trans h.2⟩

theorem Frame.serves (hFrame : Frame keep r r') {db : DB} (hKeep : keep name)
    (h : Serves r name e db) : Serves r' name e db :=
  ⟨(hFrame.mapped name hKeep).trans h.1, (hFrame.shape name e hKeep h.1).db.trans h.2⟩

theorem Frame.reserved (hFrame : Frame keep r r') (hKeep : keep name) (h : Reserved r name) :
    Reserved r' name := by
  obtain ⟨e, hLookup, hReserved⟩ := h
  exact ⟨e, (hFrame.mapped name hKeep).trans hLookup,
    (hFrame.shape name e hKeep hLookup).reserved.trans hReserved⟩

theorem Frame.entryOk (hFrame : Frame keep r r') (hKeep : keep name)
    (hLookup : r.entries.lookup name = some e) (h : EntryOk r name (r.heap e)) :
    EntryOk r' name (r'.heap e) := by
  have hSame := hFrame.shape name e hKeep hLookup
  refine ⟨hSame.name.trans h.name_eq, hSame.err.trans h.err_eq, ?_⟩
  rcases h.shape with ⟨hOpening, hDb, hReserved, hRefs⟩ | ⟨hOpening, hReserved, db, hDb, hName, hUsable⟩ |
    ⟨hOpening, hReserved, hDb, hRefs⟩
  · have hRefs' := hSame.refs.resolve_right (by simp [hDb])
    exact .inl ⟨hSame.opening.trans hOpening, hSame.db.trans hDb, hSame.reserved.trans hReserved,
      hRefs'.trans hRefs⟩
  · exact .inr (.inl ⟨hSame.opening.trans hOpening, hSame.reserved.trans hReserved, db,
      hSame.db.trans hDb, hName, hFrame.usable name db.handle hKeep hUsable⟩)
  · have hRefs' := hSame.refs.resolve_right (by simp [hDb])
    exact .inr (.inr ⟨hSame.opening.trans hOpening, hSame.reserved.trans hReserved,
      hSame.db.trans hDb, hRefs'.trans hRefs⟩)

theorem Frame.callOk (hFrame : Frame keep r r') {c : Call}
    (hKeep : ∀ name, c.pins name = true → keep name) (h : CallOk r c) : CallOk r' c := by
  cases c with
  | opening name e => exact hFrame.opens (hKeep name (by simp [Call.pins])) h
  | opened name e result =>
    have hName := hKeep name (by simp [Call.pins])
    cases result with
    | error _ => exact hFrame.opens hName h
    | ok _ => exact ⟨hFrame.opens hName h.1, hFrame.usable _ _ hName h.2⟩
  | signal name e result =>
    cases result with
    | error _ => exact ⟨h.1.trans_le hFrame.nextEntry, hFrame.closed e h.1 h.2⟩
    | ok _ => exact hFrame.serves (hKeep name (by simp [Call.pins])) h
  | waiting name e => exact Nat.lt_of_lt_of_le h hFrame.nextEntry
  | relock name e => exact ⟨h.1.trans_le hFrame.nextEntry, hFrame.ready e h.1 h.2⟩
  | returning name e db | holding name e db =>
    obtain ⟨d, hd, hServes⟩ := h
    exact ⟨d, hd, hFrame.serves (hKeep name (by simp [Call.pins])) hServes⟩
  | reserved name => exact hFrame.reserved (hKeep name (by simp [Call.pins])) h
  | closing purpose todo stage =>
    cases purpose with
    | reserve name =>
      exact ⟨hFrame.reserved (hKeep name (by simp [Call.pins])) h.1,
        fun db hdb => hFrame.retired _ (h.2 db hdb)⟩
    | remove | reap => exact fun db hdb => hFrame.retired _ (h db hdb)
  | _ => trivial

end

end QuicSql.Registry
