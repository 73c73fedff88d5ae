import QuicSql.Registry.Invariant

/-!
# Every step keeps the registry invariant

One lemma for each way a step can change the shared registry; the steps of the
calls are then compositions of these.
-/

namespace QuicSql.Registry

open Lib

variable {s : State} {i : Nat} {a b : Call} {r' : Registry} {name : DbName} {e : EntryId}

/-! ## What the invariant says about one database -/

theorem Inv.refs_set (hInv : Inv s) (hc : s.calls[i]? = some a) (he : e < s.reg.nextEntry) :
    ((s.calls.set i b).countP (Call.holdsRef e) : Int) =
      (s.reg.heap e).refs - (a.holdsRef e).toNat + (b.holdsRef e).toNat := by
  have hCount := countP_set_add (p := Call.holdsRef e) (b := b) hc
  have hRefs := hInv.refs e he
  omega

theorem Inv.reservedOnce_set (hInv : Inv s) (hc : s.calls[i]? = some a)
    (hKeep : ∀ name, b.reserves name = true → a.reserves name = true) (name : DbName) :
    (s.calls.set i b).countP (Call.reserves name) ≤ 1 := by
  have hCount := countP_set_add (p := Call.reserves name) (b := b) hc
  have hOnce := hInv.reservedOnce name
  have hLe : (b.reserves name).toNat ≤ (a.reserves name).toNat := by
    cases hb : b.reserves name with
    | false => exact Nat.zero_le _
    | true => rw [hKeep name hb]
  omega

theorem Inv.entry_ne (hInv : Inv s) {n : DbName} {e' : EntryId} (hn : n ≠ name)
    (h : s.reg.entries.lookup name = some e) (h' : s.reg.entries.lookup n = some e') : e' ≠ e := by
  rintro rfl
  have hName := (hInv.entryOk name e' h).2.name_eq
  have hName' := (hInv.entryOk n e' h').2.name_eq
  exact hn (hName'.symm.trans hName)

theorem Inv.opening_shape (hInv : Inv s) (h : Opens s.reg name e) : Opening (s.reg.heap e) := by
  rcases (hInv.entryOk name e h.1).2.shape with hShape | ⟨hClosed, _⟩ | ⟨hClosed, _⟩
  · exact hShape
  · rw [h.2] at hClosed
    cases hClosed
  · rw [h.2] at hClosed
    cases hClosed

theorem Inv.serving_shape (hInv : Inv s) {db : DB} (h : Serves s.reg name e db) :
    (s.reg.heap e).opening = false ∧ (s.reg.heap e).reserved = false ∧ db.name = name ∧
      Usable s.reg name db.handle := by
  rcases (hInv.entryOk name e h.1).2.shape with ⟨_, hNone, _⟩ |
    ⟨hClosed, hFree, d, hDb, hName, hUsable⟩ | ⟨_, _, hNone, _⟩
  · rw [h.2] at hNone
    cases hNone
  · obtain rfl : db = d := Option.some.inj (h.2.symm.trans hDb)
    exact ⟨hClosed, hFree, hName, hUsable⟩
  · rw [h.2] at hNone
    cases hNone

theorem Inv.not_serves_of_opens (hInv : Inv s) (h : Opens s.reg name e) {e' : EntryId} {db : DB} :
    ¬ Serves s.reg name e' db := by
  rintro ⟨hLookup, hDb⟩
  obtain rfl : e = e' := Option.some.inj (h.1.symm.trans hLookup)
  rw [(hInv.opening_shape h).2.1] at hDb
  cases hDb

theorem Inv.unpinned_of_opens (hInv : Inv s) (h : Opens s.reg name e) {c : Call} (hc : c ∈ s.calls)
    (hHolds : c.holdsRef e = false) : c.pins name = false := by
  by_contra hPins
  obtain ⟨e', hLookup, hCase⟩ := (hInv.callOk c hc).of_pins (by simpa using hPins)
  obtain rfl : e = e' := Option.some.inj (h.1.symm.trans hLookup)
  rcases hCase with hRef | ⟨_, hReserved⟩
  · rw [hHolds] at hRef
    cases hRef
  · rw [(hInv.opening_shape h).2.2.1] at hReserved
    cases hReserved

theorem Inv.unpinned_of_idle (hInv : Inv s) (hLookup : s.reg.entries.lookup name = some e)
    (hIdle : inUse (s.reg.heap e) = false) {c : Call} (hc : c ∈ s.calls) : c.pins name = false := by
  simp only [inUse, Bool.or_eq_false_iff, decide_eq_false_iff_not] at hIdle
  by_contra hPins
  obtain ⟨e', hLookup', hCase⟩ := (hInv.callOk c hc).of_pins (by simpa using hPins)
  obtain rfl : e = e' := Option.some.inj (hLookup.symm.trans hLookup')
  rcases hCase with hRef | ⟨_, hReserved⟩
  · have hPos : 0 < s.calls.countP (Call.holdsRef e) := List.countP_pos_iff.mpr ⟨c, hc, hRef⟩
    have hRefs := hInv.refs e (hInv.entryOk name e hLookup).1
    exact hIdle.1.2 (by omega)
  · rw [hIdle.2] at hReserved
    cases hReserved

theorem opened_mem_set (hc : s.calls[i]? = some a) (ha : ∀ name e h, a ≠ .opened name e (.ok h))
    {h : HandleId} (hMem : Call.opened name e (.ok h) ∈ s.calls) :
    Call.opened name e (.ok h) ∈ s.calls.set i b :=
  mem_set_of_mem_ne hc hMem (fun hEq => ha name e h hEq.symm)

/-! ## The invariant across a framed step -/

theorem Inv.entryOk_of_frame {keep : DbName → Prop} (hInv : Inv s) (hFrame : Frame keep s.reg r')
    (hNew : ∀ n e, ¬ keep n → r'.entries.lookup n = some e →
      e < r'.nextEntry ∧ EntryOk r' n (r'.heap e))
    (n : DbName) (e : EntryId) (hLookup : r'.entries.lookup n = some e) :
    e < r'.nextEntry ∧ EntryOk r' n (r'.heap e) := by
  by_cases hKeep : keep n
  · rw [hFrame.mapped n hKeep] at hLookup
    obtain ⟨hLt, hOk⟩ := hInv.entryOk n e hLookup
    exact ⟨hLt.trans_le hFrame.nextEntry, hFrame.entryOk hKeep hLookup hOk⟩
  · exact hNew n e hKeep hLookup

/-- A handle stays live when its name is kept, or when its opener has yet to publish it. -/
theorem Live.of_frame {keep : DbName → Prop} (hFrame : Frame keep s.reg r') {h : HandleId}
    {calls : List Call} (hLive : Live s h) (hName : (r'.handles h).name = (s.reg.handles h).name)
    (hKeep : ∀ n e db, (s.reg.handles h).name = n → Serves s.reg n e db → db.handle = h → keep n)
    (hMem : ∀ n e, Call.opened n e (.ok h) ∈ s.calls → Call.opened n e (.ok h) ∈ calls) :
    Live ⟨r', calls⟩ h := by
  rcases hLive with ⟨n, e, db, hn, hServes, hdb⟩ | ⟨n, e, hc⟩
  · exact .inl ⟨n, e, db, hName.trans hn, hFrame.serves (hKeep n e db hn hServes hdb) hServes, hdb⟩
  · exact .inr ⟨n, e, hMem n e hc⟩

/-- The shared parts that the invariant reads are unchanged. -/
structure Same (r r' : Registry) : Prop where
  entries : r'.entries = r.entries
  heap : r'.heap = r.heap
  nextEntry : r'.nextEntry = r.nextEntry
  handles : r'.handles = r.handles
  nextHandle : r'.nextHandle = r.nextHandle

theorem Same.refl (r : Registry) : Same r r := ⟨rfl, rfl, rfl, rfl, rfl⟩

theorem Same.frame {r : Registry} (h : Same r r') : Frame (fun _ => True) r r' where
  nextEntry := h.nextEntry.ge
  nextHandle := h.nextHandle.ge
  mapped name _ := by rw [h.entries]
  shape name e _ _ := by
    rw [h.heap]
    exact .refl _
  closed e _ hClosed := by rwa [h.heap]
  ready e _ hReady := by rwa [h.heap]
  usable name h' _ hUsable := by rwa [Usable, h.handles, h.nextHandle]
  retired h' hRetired := by rwa [Retired, h.handles, h.nextHandle]

theorem Inv.of_same (hInv : Inv s) (hSame : Same s.reg r') (hc : s.calls[i]? = some a)
    (hNew : CallOk r' b) (hHolds : ∀ e, b.holdsRef e = a.holdsRef e)
    (hReserves : ∀ name, b.reserves name = true → a.reserves name = true)
    (ha : ∀ name e h, a ≠ .opened name e (.ok h)) : Inv ⟨r', s.calls.set i b⟩ where
  entryOk := hInv.entryOk_of_frame hSame.frame (fun _ _ hKeep => absurd trivial hKeep)
  readyOk e := by
    simp only [hSame.nextEntry, hSame.heap]
    exact hInv.readyOk e
  callOk := forall_mem_set (fun c hMem => hSame.frame.callOk (fun _ _ => trivial) (hInv.callOk c hMem))
    hNew
  refs e he := by
    simp only [hSame.nextEntry] at he
    rw [hInv.refs_set hc he, hHolds e]
    simp [hSame.heap]
  reservedOnce := hInv.reservedOnce_set hc hReserves
  live h hLt hOpen := by
    simp only [hSame.nextHandle, hSame.handles] at hLt hOpen
    exact (hInv.live h hLt hOpen).of_frame hSame.frame (by rw [hSame.handles])
      (fun _ _ _ _ _ _ => trivial) (fun n e hMem => opened_mem_set hc ha hMem)

theorem Inv.tick (hInv : Inv s) (hSame : Same s.reg r') : Inv ⟨r', s.calls⟩ where
  entryOk := hInv.entryOk_of_frame hSame.frame (fun _ _ hKeep => absurd trivial hKeep)
  readyOk e := by
    simp only [hSame.nextEntry, hSame.heap]
    exact hInv.readyOk e
  callOk c hMem := hSame.frame.callOk (fun _ _ => trivial) (hInv.callOk c hMem)
  refs e he := by
    simp only [hSame.nextEntry, hSame.heap] at he ⊢
    exact hInv.refs e he
  reservedOnce := hInv.reservedOnce
  live h hLt hOpen := by
    simp only [hSame.nextHandle, hSame.handles] at hLt hOpen
    exact (hInv.live h hLt hOpen).of_frame hSame.frame (by rw [hSame.handles])
      (fun _ _ _ _ _ _ => trivial) (fun n e hMem => hMem)

/-! ## The first section of Get, and Reserve's placeholder -/

theorem install_frame (hInv : Inv s) (name : DbName) (entry : Entry) :
    Frame (fun n => n ≠ name) s.reg (s.reg.install name entry) where
  nextEntry := Nat.le_succ _
  nextHandle := le_rfl
  mapped n hn := by simp [install, Finmap.lookup_insert_of_ne _ hn]
  shape n e hn hLookup := by
    simp only [install, Function.update_of_ne (hInv.entryOk n e hLookup).1.ne]
    exact .refl _
  closed e he hClosed := by simpa [install, Function.update_of_ne he.ne] using hClosed
  ready e he hReady := by simpa [install, Function.update_of_ne he.ne] using hReady
  usable n h _ hUsable := hUsable
  retired h hRetired := hRetired

theorem Inv.unpinned_of_free (hInv : Inv s) (hFree : s.reg.entries.lookup name = none)
    {c : Call} (hc : c ∈ s.calls) : c.pins name = false := by
  by_contra hPins
  obtain ⟨e, hLookup, _⟩ := (hInv.callOk c hc).of_pins (by simpa using hPins)
  rw [hFree] at hLookup
  cases hLookup

theorem Call.pins_of_reserves {c : Call} (h : c.reserves name = true) : c.pins name = true := by
  cases c with
  | closing purpose _ _ => cases purpose <;> simp_all [Call.reserves, Call.pins]
  | _ => simp_all [Call.reserves, Call.pins]

theorem Call.not_reserves_of_holdsRef {c : Call} (h : c.holdsRef e = true) : c.reserves name = false := by
  cases c with
  | reserved n | closing purpose todo stage => cases h
  | _ => rfl

theorem CallOk.lt_of_holdsRef {c : Call} (hInv : Inv s) (hc : c ∈ s.calls)
    (hHolds : c.holdsRef e = true) : e < s.reg.nextEntry := by
  have hPins : ∃ n, c.pins n = true ∧ ∀ e', c.holdsRef e' = true → e' = e := by
    cases c with
    | opening n e' | opened n e' _ | returning n e' _ | holding n e' _ =>
      exact ⟨n, by simp [Call.pins], by simp_all [Call.holdsRef]⟩
    | signal n e' result =>
      cases result with
      | error _ => simp [Call.holdsRef] at hHolds
      | ok _ => exact ⟨n, by simp [Call.pins], by simp_all [Call.holdsRef]⟩
    | _ => simp [Call.holdsRef] at hHolds
  obtain ⟨n, hPins, hOnly⟩ := hPins
  obtain ⟨e', hLookup, hCase⟩ := (hInv.callOk c hc).of_pins hPins
  rcases hCase with hRef | ⟨hReserves, _⟩
  · rw [← hOnly e' hRef]
    exact (hInv.entryOk n e' hLookup).1
  · rw [Call.not_reserves_of_holdsRef hHolds] at hReserves
    cases hReserves

theorem Inv.install (hInv : Inv s) (hc : s.calls[i]? = some a) {entry : Entry}
    (hFree : s.reg.entries.lookup name = none) (hEntry : EntryOk s.reg name entry)
    (hReady : entry.ready = true → entry.opening = false)
    (hNew : CallOk (s.reg.install name entry) b)
    (ha : ∀ e, a.holdsRef e = false) (ha' : ∀ name e h, a ≠ .opened name e (.ok h))
    (hb : ∀ e, b.holdsRef e = true → e = s.reg.nextEntry)
    (hRefs : entry.refs = (b.holdsRef s.reg.nextEntry).toNat)
    (hReserves : ∀ n, b.reserves n = true → n = name) :
    Inv ⟨s.reg.install name entry, s.calls.set i b⟩ where
  entryOk := by
    apply hInv.entryOk_of_frame (install_frame hInv name entry)
    intro n e hn hLookup
    obtain rfl : n = name := not_not.mp hn
    simp only [Registry.install, Finmap.lookup_insert, Option.some.injEq] at hLookup
    subst hLookup
    refine ⟨Nat.lt_succ_self _, ?_⟩
    simpa [Registry.install] using
      (⟨hEntry.name_eq, hEntry.err_eq, hEntry.shape⟩ : EntryOk (s.reg.install n entry) n entry)
  readyOk e he hOld := by
    by_cases hNext : e = s.reg.nextEntry
    · subst hNext
      simpa [Registry.install] using hReady (by simpa [Registry.install] using hOld)
    · simp only [Registry.install, Function.update_of_ne hNext] at hOld ⊢
      exact hInv.readyOk e (Nat.lt_of_le_of_ne (Nat.lt_succ_iff.mp he) hNext) hOld
  callOk := by
    refine forall_mem_set (fun c hMem => ?_) hNew
    apply (install_frame hInv name entry).callOk ?_ (hInv.callOk c hMem)
    rintro n hPins rfl
    rw [hInv.unpinned_of_free hFree hMem] at hPins
    cases hPins
  refs e he := by
    by_cases hNext : e = s.reg.nextEntry
    · subst hNext
      have hNone : s.calls.countP (Call.holdsRef s.reg.nextEntry) = 0 := by
        refine List.countP_eq_zero.mpr (fun c hMem hHolds => ?_)
        exact absurd (CallOk.lt_of_holdsRef hInv hMem hHolds) (lt_irrefl _)
      have hCount := countP_set_add (p := Call.holdsRef s.reg.nextEntry) (b := b) hc
      rw [ha, hNone] at hCount
      simp only [Registry.install, Function.update_self, hRefs]
      simp at hCount
      omega
    · have he' : e < s.reg.nextEntry := Nat.lt_of_le_of_ne (Nat.lt_succ_iff.mp he) hNext
      have hbe : b.holdsRef e = false := by
        by_contra hHolds
        exact hNext (hb e (by simpa using hHolds))
      rw [hInv.refs_set hc he', ha e, hbe]
      simp [Registry.install, Function.update_of_ne hNext]
  reservedOnce n := by
    dsimp only
    by_cases hn : b.reserves n = true
    · obtain rfl := hReserves n hn
      have hNone : s.calls.countP (Call.reserves n) = 0 := by
        refine List.countP_eq_zero.mpr (fun c hMem hRes => ?_)
        exact absurd (Call.pins_of_reserves hRes) (by simp [hInv.unpinned_of_free hFree hMem])
      have hCount := countP_set_add (p := Call.reserves n) (b := b) hc
      rw [hNone, hn] at hCount
      simp at hCount
      omega
    · have hCount := countP_set_add (p := Call.reserves n) (b := b) hc
      have hOnce := hInv.reservedOnce n
      simp only [hn, Bool.toNat_false] at hCount
      omega
  live h hLt hOpen := by
    refine (hInv.live h hLt hOpen).of_frame (install_frame hInv name entry) rfl ?_
      (fun n e hMem => opened_mem_set hc ha' hMem)
    rintro n e db _ ⟨hLookup, _⟩ _ rfl
    rw [hFree] at hLookup
    cases hLookup

/-! ## Opening: the handle, its publication, and the dropped entry -/

theorem openHandle_frame (r : Registry) (name : DbName) :
    Frame (fun _ => True) r (r.openHandle name) where
  nextEntry := le_rfl
  nextHandle := Nat.le_succ _
  mapped _ _ := rfl
  shape _ _ _ _ := .refl _
  closed _ _ hClosed := hClosed
  ready _ _ hReady := hReady
  usable n h _ hUsable := by
    refine ⟨Nat.lt_succ_of_lt hUsable.1, ?_⟩
    simpa [openHandle, Function.update_of_ne hUsable.1.ne] using hUsable.2
  retired h hRetired := by
    refine ⟨Nat.lt_succ_of_lt hRetired.1, ?_⟩
    simpa [openHandle, Function.update_of_ne hRetired.1.ne] using hRetired.2

theorem Inv.openHandle (hInv : Inv s) (hc : s.calls[i]? = some (.opening name e)) :
    Inv ⟨s.reg.openHandle name, s.calls.set i (.opened name e (.ok s.reg.nextHandle))⟩ where
  entryOk := hInv.entryOk_of_frame (openHandle_frame s.reg name)
    (fun _ _ hKeep => absurd trivial hKeep)
  readyOk := hInv.readyOk
  callOk := by
    refine forall_mem_set (fun c hMem => ?_) ⟨hInv.callOk _ (List.mem_of_getElem? hc), ?_⟩
    · exact (openHandle_frame s.reg name).callOk (fun _ _ => trivial) (hInv.callOk c hMem)
    · exact ⟨Nat.lt_succ_self _, by simp [Registry.openHandle]⟩
  refs e' he := by
    rw [hInv.refs_set hc he]
    simp [Registry.openHandle, Call.holdsRef]
  reservedOnce := hInv.reservedOnce_set hc (by simp [Call.reserves])
  live h hLt hOpen := by
    by_cases hNext : h = s.reg.nextHandle
    · subst hNext
      exact .inr ⟨name, e, mem_set_self hc⟩
    · have hLt' : h < s.reg.nextHandle := Nat.lt_of_le_of_ne (Nat.lt_succ_iff.mp hLt) hNext
      have hSame : (s.reg.openHandle name).handles h = s.reg.handles h := by
        simp [Registry.openHandle, Function.update_of_ne hNext]
      refine (hInv.live h hLt' (by rw [← hSame]; exact hOpen)).of_frame
        (openHandle_frame s.reg name) (by rw [hSame]) (fun _ _ _ _ _ _ => trivial) ?_
      intro n e' hMem
      exact opened_mem_set hc (by simp) hMem

theorem setEntry_frame (hInv : Inv s) (hLookup : s.reg.entries.lookup name = some e) (entry : Entry)
    (hClosed : (s.reg.heap e).opening = false → entry.opening = false)
    (hReady : (s.reg.heap e).ready = true → entry.ready = true) :
    Frame (fun n => n ≠ name) s.reg (s.reg.setEntry e entry) where
  nextEntry := le_rfl
  nextHandle := le_rfl
  mapped _ _ := rfl
  shape n e' hn hLookup' := by
    simp only [setEntry, Function.update_of_ne (hInv.entry_ne hn hLookup hLookup')]
    exact .refl _
  closed e' _ hOld := by
    by_cases he : e' = e
    · subst he
      simpa [setEntry] using hClosed hOld
    · simpa [setEntry, Function.update_of_ne he] using hOld
  ready e' _ hOld := by
    by_cases he : e' = e
    · subst he
      simpa [setEntry] using hReady hOld
    · simpa [setEntry, Function.update_of_ne he] using hOld
  usable _ _ _ hUsable := hUsable
  retired _ hRetired := hRetired

theorem Inv.callOk_of_opener (hInv : Inv s) (hc : s.calls[i]? = some a) (hOpens : Opens s.reg name e)
    (ha : a.holdsRef e = true) (hFrame : Frame (fun n => n ≠ name) s.reg r') (hNew : CallOk r' b) :
    ∀ c ∈ s.calls.set i b, CallOk r' c := by
  have hOne : s.calls.countP (Call.holdsRef e) ≤ 1 := by
    have hRefs := hInv.refs e (hInv.entryOk name e hOpens.1).1
    rw [(hInv.opening_shape hOpens).2.2.2] at hRefs
    omega
  refine forall_mem_set_of_unique hc ha hOne (fun c hMem hHolds => ?_) hNew
  refine hFrame.callOk ?_ (hInv.callOk c hMem)
  rintro n hPins rfl
  rw [hInv.unpinned_of_opens hOpens hMem hHolds] at hPins
  cases hPins

theorem Inv.publish {h : HandleId} (hInv : Inv s) (hc : s.calls[i]? = some (.opened name e (.ok h))) :
    Inv ⟨s.reg.publish name e h,
      s.calls.set i (.signal name e (.ok (s.reg.sharedDB name e h)))⟩ := by
  obtain ⟨hOpens, hUsable⟩ := hInv.callOk _ (List.mem_of_getElem? hc)
  have hLt := (hInv.entryOk name e hOpens.1).1
  have hFrame : Frame (fun n => n ≠ name) s.reg (s.reg.publish name e h) :=
    setEntry_frame hInv hOpens.1 _ (fun _ => rfl) id
  have hHeap : (s.reg.publish name e h).heap e = { s.reg.heap e with
      opening := false, db := some (s.reg.sharedDB name e h), last := s.reg.now } := by
    simp [Registry.publish, setEntry]
  have hServes : Serves (s.reg.publish name e h) name e (s.reg.sharedDB name e h) :=
    ⟨hOpens.1, by rw [hHeap]⟩
  refine ⟨?_, ?_, ?_, ?_, ?_, ?_⟩
  · apply hInv.entryOk_of_frame hFrame
    intro n e' hn hLookup
    obtain rfl : n = name := not_not.mp hn
    obtain rfl : e = e' := Option.some.inj (hOpens.1.symm.trans hLookup)
    have hOk := (hInv.entryOk n e hOpens.1).2
    refine ⟨hLt, ?_⟩
    rw [hHeap]
    exact ⟨hOk.name_eq, hOk.err_eq,
      .inr (.inl ⟨rfl, (hInv.opening_shape hOpens).2.2.1, _, rfl, rfl, hUsable⟩)⟩
  · intro e' he' hReady
    by_cases he : e' = e
    · rw [he, hHeap]
    · simp only [Registry.publish, setEntry, Function.update_of_ne he] at hReady ⊢
      exact hInv.readyOk e' he' hReady
  · exact hInv.callOk_of_opener hc hOpens (by simp [Call.holdsRef]) hFrame hServes
  · intro e' he'
    rw [hInv.refs_set hc he']
    by_cases he : e' = e
    · subst he
      simp [hHeap, Call.holdsRef]
    · simp [Registry.publish, setEntry, Call.holdsRef, he]
  · exact hInv.reservedOnce_set hc (by simp [Call.reserves])
  · intro h' hLt' hOpen
    by_cases hh : h' = h
    · subst hh
      exact .inl ⟨name, e, _, by simp [Registry.publish, setEntry, hUsable.2], hServes, rfl⟩
    · refine (hInv.live h' hLt' hOpen).of_frame hFrame rfl ?_ ?_
      · rintro n e' db _ hServes' _ rfl
        exact hInv.not_serves_of_opens hOpens hServes'
      · intro n e' hMem
        exact mem_set_of_mem_ne hc hMem (by simp [hh])

theorem Inv.dropPoisoned {detail : String} (hInv : Inv s)
    (hc : s.calls[i]? = some (.opened name e (.error detail))) (err : Err) :
    Inv ⟨s.reg.dropPoisoned name e err, s.calls.set i (.signal name e (.error err))⟩ := by
  have hOpens : Opens s.reg name e := hInv.callOk _ (List.mem_of_getElem? hc)
  have hLt := (hInv.entryOk name e hOpens.1).1
  have hShape := hInv.opening_shape hOpens
  have hSet := setEntry_frame hInv hOpens.1
    { s.reg.heap e with opening := false, err := some err, refs := 0 } (fun _ => rfl) id
  have hFrame : Frame (fun n => n ≠ name) s.reg (s.reg.dropPoisoned name e err) :=
    { hSet with
      mapped := fun n hn => by simp [Registry.dropPoisoned, Finmap.lookup_erase_ne hn] }
  have hHeap : (s.reg.dropPoisoned name e err).heap e =
      { s.reg.heap e with opening := false, err := some err, refs := 0 } := by
    simp [Registry.dropPoisoned, setEntry]
  refine ⟨?_, ?_, ?_, ?_, ?_, ?_⟩
  · apply hInv.entryOk_of_frame hFrame
    intro n e' hn hLookup
    obtain rfl : n = name := not_not.mp hn
    simp [Registry.dropPoisoned] at hLookup
  · intro e' he' hReady
    by_cases he : e' = e
    · rw [he, hHeap]
    · simp only [Registry.dropPoisoned, setEntry, Function.update_of_ne he] at hReady ⊢
      exact hInv.readyOk e' he' hReady
  · exact hInv.callOk_of_opener hc hOpens (by simp [Call.holdsRef]) hFrame ⟨hLt, by rw [hHeap]⟩
  · intro e' he'
    rw [hInv.refs_set hc he']
    by_cases he : e' = e
    · subst he
      simp [hHeap, Call.holdsRef, hShape.2.2.2]
    · simp [Registry.dropPoisoned, setEntry, Call.holdsRef, he]
  · exact hInv.reservedOnce_set hc (by simp [Call.reserves])
  · intro h hLt' hOpen
    refine (hInv.live h hLt' hOpen).of_frame hFrame rfl ?_
      (fun n e' hMem => opened_mem_set hc (by simp) hMem)
    rintro n e' db _ hServes _ rfl
    exact hInv.not_serves_of_opens hOpens hServes

/-! ## Signals and reference counts -/

/-- A change of the count, the time stamp or the signal of an entry, together with
the call that makes it. -/
theorem Inv.touch (hInv : Inv s) (hc : s.calls[i]? = some a) (he : e < s.reg.nextEntry)
    {entry : Entry} (hShape : SameShape (s.reg.heap e) entry)
    (hReady : (s.reg.heap e).ready = true → entry.ready = true)
    (hReady' : entry.ready = true → entry.opening = false)
    (hRefs : entry.refs = (s.reg.heap e).refs - (a.holdsRef e).toNat + (b.holdsRef e).toNat)
    (hHolds : ∀ e', e' ≠ e → b.holdsRef e' = a.holdsRef e')
    (hReserves : ∀ name, b.reserves name = true → a.reserves name = true)
    (ha : ∀ name e h, a ≠ .opened name e (.ok h)) (hNew : CallOk (s.reg.setEntry e entry) b) :
    Inv ⟨s.reg.setEntry e entry, s.calls.set i b⟩ := by
  have hFrame : Frame (fun _ => True) s.reg (s.reg.setEntry e entry) := by
    refine ⟨le_rfl, le_rfl, fun _ _ => rfl, ?_, ?_, ?_, fun _ _ _ h => h, fun _ h => h⟩
    · intro n e' _ _
      by_cases he' : e' = e
      · subst he'
        simpa [setEntry] using hShape
      · simp only [setEntry, Function.update_of_ne he']
        exact .refl _
    · intro e' _ hClosed
      by_cases he' : e' = e
      · subst he'
        simpa [setEntry, hShape.opening] using hClosed
      · simpa [setEntry, Function.update_of_ne he'] using hClosed
    · intro e' _ hOld
      by_cases he' : e' = e
      · subst he'
        simpa [setEntry] using hReady hOld
      · simpa [setEntry, Function.update_of_ne he'] using hOld
  refine ⟨?_, ?_, ?_, ?_, ?_, ?_⟩
  · exact hInv.entryOk_of_frame hFrame (fun _ _ hKeep => absurd trivial hKeep)
  · intro e' hLt hOld
    by_cases he' : e' = e
    · subst he'
      simpa [setEntry] using hReady' (by simpa [setEntry] using hOld)
    · simp only [setEntry, Function.update_of_ne he'] at hOld ⊢
      exact hInv.readyOk e' hLt hOld
  · exact forall_mem_set
      (fun c hMem => hFrame.callOk (fun _ _ => trivial) (hInv.callOk c hMem)) hNew
  · intro e' hLt
    rw [hInv.refs_set hc hLt]
    by_cases he' : e' = e
    · subst he'
      simpa [setEntry] using hRefs
    · simp [setEntry, Function.update_of_ne he', hHolds e' he']
  · exact hInv.reservedOnce_set hc hReserves
  · intro h hLt hOpen
    exact (hInv.live h hLt hOpen).of_frame hFrame rfl (fun _ _ _ _ _ _ => trivial)
      (fun n e' hMem => opened_mem_set hc ha hMem)

/-! ## Taking entries off the map -/

theorem setStatus_handles (r : Registry) (h h' : HandleId) (status : HandleStatus) :
    ((r.setStatus h status).handles h').name = (r.handles h').name ∧
    ((r.setStatus h status).handles h').status =
      if h' = h ∧ (r.handles h).status ≠ .closed then status else (r.handles h').status := by
  by_cases hh : h' = h
  · subst hh
    by_cases hClosed : (r.handles h').status = .closed <;> simp [setStatus, Handle.advance, hClosed]
  · simp [setStatus, hh]

theorem setStatus_usable {r : Registry} {h h' : HandleId} {status : HandleStatus} (hh : h' ≠ h)
    (hUsable : Usable r name h') : Usable (r.setStatus h status) name h' := by
  refine ⟨hUsable.1, ?_⟩
  simpa [setStatus, Function.update_of_ne hh] using hUsable.2

theorem setStatus_retired {r : Registry} {h h' : HandleId} {status : HandleStatus}
    (hStatus : status ≠ .open) (hRetired : Retired r h') : Retired (r.setStatus h status) h' := by
  refine ⟨hRetired.1, ?_⟩
  rw [(setStatus_handles r h h' status).2]
  split
  · exact hStatus
  · exact hRetired.2

theorem erase_frame (r : Registry) (name : DbName) :
    Frame (fun n => n ≠ name) r { r with entries := r.entries.erase name } where
  nextEntry := le_rfl
  nextHandle := le_rfl
  mapped _ hn := Finmap.lookup_erase_ne hn
  shape _ _ _ _ := .refl _
  closed _ _ hClosed := hClosed
  ready _ _ hReady := hReady
  usable _ _ _ hUsable := hUsable
  retired _ hRetired := hRetired

@[simp] theorem detach_entries (r : Registry) (name : DbName) (e : EntryId) :
    (r.detach name e).entries = r.entries.erase name := by
  cases hDb : (r.heap e).db <;> simp [Registry.detach, hDb, setStatus]

@[simp] theorem detach_heap (r : Registry) (name : DbName) (e : EntryId) :
    (r.detach name e).heap = r.heap := by
  cases hDb : (r.heap e).db <;> simp [Registry.detach, hDb, setStatus]

@[simp] theorem detach_nextEntry (r : Registry) (name : DbName) (e : EntryId) :
    (r.detach name e).nextEntry = r.nextEntry := by
  cases hDb : (r.heap e).db <;> simp [Registry.detach, hDb, setStatus]

@[simp] theorem detach_nextHandle (r : Registry) (name : DbName) (e : EntryId) :
    (r.detach name e).nextHandle = r.nextHandle := by
  cases hDb : (r.heap e).db <;> simp [Registry.detach, hDb, setStatus]

theorem Inv.detach_frame (hInv : Inv s) (hLookup : s.reg.entries.lookup name = some e) :
    Frame (fun n => n ≠ name) s.reg (s.reg.detach name e) := by
  cases hDb : (s.reg.heap e).db with
  | none =>
    rw [show s.reg.detach name e = { s.reg with entries := s.reg.entries.erase name } by
      simp [Registry.detach, hDb]]
    exact erase_frame s.reg name
  | some db =>
    have hErase := erase_frame s.reg name
    obtain ⟨_, _, _, hUsable⟩ := hInv.serving_shape ⟨hLookup, hDb⟩
    rw [show s.reg.detach name e =
      ({ s.reg with entries := s.reg.entries.erase name } : Registry).setStatus db.handle .detached by
        simp [Registry.detach, hDb]]
    refine { hErase with usable := ?_, retired := ?_ }
    · intro n h hn hOld
      refine setStatus_usable ?_ hOld
      rintro rfl
      have hEq := hOld.2.symm.trans hUsable.2
      simp only [Handle.mk.injEq, and_true] at hEq
      exact hn hEq
    · intro h hRetired
      exact setStatus_retired (by simp) hRetired

theorem detach_retired (hInv : Inv s) {db : DB} (h : Serves s.reg name e db) :
    Retired (s.reg.detach name e) db.handle := by
  obtain ⟨_, _, _, hUsable⟩ := hInv.serving_shape h
  refine ⟨by simpa using hUsable.1, ?_⟩
  simp [Registry.detach, h.2, setStatus, Handle.advance, hUsable.2]

theorem detach_handles (r : Registry) (name : DbName) (e : EntryId) (h : HandleId) :
    ((r.detach name e).handles h).name = (r.handles h).name ∧
    (((r.detach name e).handles h).status = .open →
      (r.handles h).status = .open ∧ ∀ db, (r.heap e).db = some db → db.handle ≠ h) := by
  cases hDb : (r.heap e).db with
  | none => simp [Registry.detach, hDb]
  | some db =>
    simp only [Registry.detach, hDb, setStatus_handles, Option.some.injEq, forall_eq', true_and]
    split
    · simp
    · rename_i hh
      refine fun hOpen => ⟨hOpen, ?_⟩
      rintro rfl
      exact hh ⟨rfl, by simp [hOpen]⟩

theorem Inv.detach (hInv : Inv s) (hLookup : s.reg.entries.lookup name = some e)
    (hIdle : inUse (s.reg.heap e) = false) : Inv ⟨s.reg.detach name e, s.calls⟩ := by
  have hFrame := hInv.detach_frame hLookup
  refine ⟨?_, ?_, ?_, ?_, hInv.reservedOnce, ?_⟩
  · apply hInv.entryOk_of_frame hFrame
    intro n e' hn hLookup'
    obtain rfl : n = name := not_not.mp hn
    simp at hLookup'
  · simpa using hInv.readyOk
  · intro c hMem
    refine hFrame.callOk ?_ (hInv.callOk c hMem)
    rintro n hPins rfl
    rw [hInv.unpinned_of_idle hLookup hIdle hMem] at hPins
    cases hPins
  · simpa using hInv.refs
  · intro h hLt hOpen
    obtain ⟨hName, hStatus⟩ := detach_handles s.reg name e h
    obtain ⟨hOld, hOther⟩ := hStatus hOpen
    refine (hInv.live h (by simpa using hLt) hOld).of_frame hFrame hName ?_ (fun _ _ hMem => hMem)
    rintro n e' db _ ⟨hLookup', hDb⟩ hdb rfl
    obtain rfl : e = e' := Option.some.inj (hLookup.symm.trans hLookup')
    exact hOther db hDb hdb

theorem Inv.releaseReservation (hInv : Inv s) (hc : s.calls[i]? = some (.reserved name)) :
    Inv ⟨s.reg.releaseReservation name, s.calls.set i (.done 0)⟩ := by
  obtain ⟨e, hLookup, hReserved⟩ : Reserved s.reg name := hInv.callOk _ (List.mem_of_getElem? hc)
  have hNone : (s.reg.heap e).db = none ∧ (s.reg.heap e).refs = 0 := by
    rcases (hInv.entryOk name e hLookup).2.shape with ⟨_, _, hFree, _⟩ | ⟨_, hFree, _⟩ |
      ⟨_, _, hDb, hRefs⟩
    · rw [hReserved] at hFree
      cases hFree
    · rw [hReserved] at hFree
      cases hFree
    · exact ⟨hDb, hRefs⟩
  have hFrame := erase_frame s.reg name
  refine ⟨?_, hInv.readyOk, ?_, ?_, ?_, ?_⟩
  · apply hInv.entryOk_of_frame hFrame
    intro n e' hn hLookup'
    obtain rfl : n = name := not_not.mp hn
    simp at hLookup'
  · refine forall_mem_set_of_unique (p := Call.reserves name) hc (by simp [Call.reserves])
      (hInv.reservedOnce name) (fun c hMem hOther => ?_) trivial
    refine hFrame.callOk ?_ (hInv.callOk c hMem)
    rintro n hPins rfl
    obtain ⟨e', hLookup', hCase⟩ := (hInv.callOk c hMem).of_pins hPins
    obtain rfl : e = e' := Option.some.inj (hLookup.symm.trans hLookup')
    rcases hCase with hRef | ⟨hRes, _⟩
    · have hPos : 0 < s.calls.countP (Call.holdsRef e) := List.countP_pos_iff.mpr ⟨c, hMem, hRef⟩
      have hRefs := hInv.refs e (hInv.entryOk n e hLookup).1
      omega
    · rw [hOther] at hRes
      cases hRes
  · intro e' he'
    rw [hInv.refs_set hc he']
    simp [Registry.releaseReservation, Call.holdsRef]
  · exact hInv.reservedOnce_set hc (by simp [Call.reserves])
  · intro h hLt hOpen
    refine (hInv.live h hLt hOpen).of_frame hFrame rfl ?_
      (fun n e' hMem => opened_mem_set hc (by simp) hMem)
    rintro n e' db _ ⟨hLookup', hDb⟩ _ rfl
    obtain rfl : e = e' := Option.some.inj (hLookup.symm.trans hLookup')
    rw [hNone.1] at hDb
    cases hDb

/-- `Handle.Close` touches only handles that are out of the map. -/
theorem Inv.setStatus (hInv : Inv s) (hc : s.calls[i]? = some a) {h : HandleId}
    {status : HandleStatus} (hRetired : Retired s.reg h) (hStatus : status ≠ .open)
    (hNew : CallOk s.reg b) (hHolds : ∀ e, b.holdsRef e = a.holdsRef e)
    (hReserves : ∀ name, b.reserves name = true → a.reserves name = true)
    (ha : ∀ name e h, a ≠ .opened name e (.ok h)) :
    Inv ⟨s.reg.setStatus h status, s.calls.set i b⟩ := by
  have hFrame : Frame (fun _ => True) s.reg (s.reg.setStatus h status) := by
    refine ⟨le_rfl, le_rfl, fun _ _ => rfl, fun _ _ _ _ => .refl _, fun _ _ hClosed => hClosed,
      fun _ _ hReady => hReady, ?_, fun _ => setStatus_retired hStatus⟩
    intro n h' _ hUsable
    refine setStatus_usable ?_ hUsable
    rintro rfl
    exact hRetired.2 (by rw [hUsable.2])
  refine ⟨?_, hInv.readyOk, ?_, ?_, ?_, ?_⟩
  · exact hInv.entryOk_of_frame hFrame (fun _ _ hKeep => absurd trivial hKeep)
  · exact forall_mem_set (fun c hMem => hFrame.callOk (fun _ _ => trivial) (hInv.callOk c hMem))
      (hFrame.callOk (fun _ _ => trivial) hNew)
  · intro e he
    rw [hInv.refs_set hc he, hHolds e]
    simp [Registry.setStatus]
  · exact hInv.reservedOnce_set hc hReserves
  · intro h' hLt hOpen
    obtain ⟨hName, hStatus'⟩ := setStatus_handles s.reg h h' status
    have hOld : (s.reg.handles h').status = .open := by
      dsimp only at hOpen
      rw [hStatus'] at hOpen
      split at hOpen
      · exact absurd hOpen hStatus
      · exact hOpen
    exact (hInv.live h' hLt hOld).of_frame hFrame hName (fun _ _ _ _ _ _ => trivial)
      (fun n e hMem => opened_mem_set hc ha hMem)

end QuicSql.Registry
