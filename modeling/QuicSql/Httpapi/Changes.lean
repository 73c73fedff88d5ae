import QuicSql.Authz.Policy
import QuicSql.Backend.Authorizer
import QuicSql.Feed.Stream
import QuicSql.Lib.EventStream
import QuicSql.Limits.Limiter
import QuicSql.Wire.Envelope
import QuicSql.Wire.JsonText

/-!
# The change stream

What the handler of `/<db>/changes` reads from a request, and the blocks it writes for the
head, the events and the keepalive of a stream.
-/

namespace QuicSql.Changes

open Lib Lib.EventStream

open Feed (Event Op)
open Wire (Json DecodeErr textJson)

/-! ## The request -/

/-- `strconv.ParseUint` in base ten, to 64 bits. -/
def parseUint (s : List Char) : Option UInt64 :=
  let (ds, rest) := scanDigits s
  if ds ≠ [] ∧ rest = [] ∧ natOfDigits ds < 2 ^ 64 then some (UInt64.ofNat (natOfDigits ds)) else none

def formatUint (n : Nat) : List Char := (digitsOf n).map Digit.char

theorem parseUint_formatUint {n : Nat} (h : n < 2 ^ 64) : parseUint (formatUint n) = some (UInt64.ofNat n) := by
  have hScan := scanDigits_append (digitsOf n) endsDigits_nil
  rw [List.append_nil] at hScan
  unfold parseUint formatUint
  rw [hScan]
  dsimp only
  rw [natOfDigits_digitsOf, if_pos ⟨digitsOf_ne_nil n, rfl, h⟩]

structure Refusal where
  status : Nat
  message : String
deriving DecidableEq, Repr

/-- The parameters and the header that are read; the empty text is what is missing. -/
structure Request where
  method : String
  since : String
  lastEventId : String
  tables : String
deriving DecidableEq, Repr

structure Gate where
  enabled : Bool
  level : Authz.Level
  limit : Option Limits.Reason
deriving DecidableEq, Repr

/-- A parameter that is no number is refused, a header that is none is ignored. -/
def since (r : Request) : Except Refusal UInt64 :=
  if r.since ≠ "" then
    match parseUint r.since.toList with
    | none => .error ⟨400, "since must be an unsigned integer"⟩
    | some v => .ok v
  else if r.lastEventId ≠ "" then .ok ((parseUint r.lastEventId.toList).getD 0)
  else .ok 0

def tables (t : String) : Option (List String) :=
  if t = "" then none
  else some (((t.toList.splitOn ',').map fun name => Backend.trimSpace (String.ofList name)).filter (· ≠ ""))

/-- The handler up to its `Subscribe`. -/
def handleChanges (gate : Gate) (r : Request) : Except Refusal (UInt64 × Option (List String)) :=
  if r.method ≠ "GET" then .error ⟨405, "use GET"⟩
  else if !gate.enabled then .error ⟨404, "change feed not enabled"⟩
  else if !gate.level.canRead then .error ⟨403, "forbidden: no access to this database"⟩
  else
    match gate.limit with
    | some .rate => .error ⟨429, "rate limit exceeded"⟩
    | some .busy => .error ⟨503, "database busy: too many concurrent requests"⟩
    | none => (since r).map fun v => (v, tables r.tables)

/-! ## The blocks -/

def seqOpen : List Char := "\x7b\"seq\":".toList

/-- The text of `{"seq":%d}`. -/
def seqData (seq : Nat) : List Char := seqOpen ++ formatUint seq ++ ['\x7d']

def head (reset : Bool) (seq : Nat) : Block :=
  .message none (if reset then "reset".toList else "ready".toList) (seqData seq)

def opText : Op → String
  | .unset => ""
  | .insert => "insert"
  | .update => "update"
  | .delete => "delete"

/-- `Event` as `json.Marshal` sees it. -/
def eventJson (e : Event) : Json :=
  .obj ([("seq", .num (formatUint e.seq)), ("table", .str e.table), ("op", .str (opText e.op)),
    ("rowid", .num (Decimal.ofInt e.rowid).text)] ++ if e.reset then [("reset", .bool true)] else [])

/-- Asked for by a stream with this filter. -/
def wanted (names : Option (List String)) (e : Event) : Bool := e.reset || names.all (e.table ∈ ·)

/-- What `change` writes. A reset marker is never filtered. -/
def change (names : Option (List String)) (e : Event) : List Block :=
  if e.reset then [.message (some (formatUint e.seq)) "reset".toList (seqData e.seq)]
  else if names.any (e.table ∉ ·) then []
  else [.message (some (formatUint e.seq)) "change".toList (textJson.marshal (eventJson e))]

def ping : Block := .comment "ping".toList

example : (head false 41).text = "event: ready\ndata: \x7b\"seq\":41\x7d\n\n".toList := by decide +kernel

example : texts (change none ⟨42, "orders", .insert, 7, false⟩ ++ [ping]) =
    ("id: 42\nevent: change\ndata: \x7b\"seq\":42,\"table\":\"orders\",\"op\":\"insert\",\"rowid\":7\x7d\n\n" ++
      ": ping\n\n").toList := by
  decide +kernel

/-! ## Reading them back -/

inductive Shown where
  | ready (seq : Nat)
  | reset (seq : Nat)
  | change (e : Event)
deriving DecidableEq, Repr

def opOf (name : String) : Op :=
  if name = "insert" then .insert else if name = "update" then .update else if name = "delete" then .delete else .unset

def uintMember : Option Json → Except DecodeErr Nat
  | some (.num lit) =>
    match parseUint lit with
    | none => .error .json
    | some v => .ok v.toNat
  | _ => .error .json

def integerMember : Option Json → Except DecodeErr Int
  | some (.num lit) =>
    match scanInt lit with
    | none => .error .json
    | some i => .ok i
  | _ => .error .json

def readSeq (j : Json) : Except DecodeErr Nat := do
  let get ← Wire.fields j
  uintMember (get "seq")

def readEvent (j : Json) : Except DecodeErr Event := do
  let get ← Wire.fields j
  let seq ← uintMember (get "seq")
  let table ← Wire.stringMember (get "table")
  let op ← Wire.stringMember (get "op")
  let rowid ← integerMember (get "rowid")
  let reset ← Wire.boolMember (get "reset")
  .ok ⟨seq, table, opOf op, rowid, reset⟩

def readShown (m : Message) : Except DecodeErr Shown :=
  if m.type = "ready".toList then (textJson.unmarshal readSeq m.data).map .ready
  else if m.type = "reset".toList then (textJson.unmarshal readSeq m.data).map .reset
  else (textJson.unmarshal readEvent m.data).map .change

theorem formatUint_eq (n : Nat) : formatUint n = (Decimal.ofInt n).text := by
  rw [Decimal.text_plain rfl]
  simp [formatUint, Decimal.ofInt]

theorem literal_uint (n : Nat) : (Json.num (formatUint n)).Literal :=
  ⟨Decimal.ofInt n, Decimal.wellFormed_ofInt n, (formatUint_eq n).symm⟩

theorem seqData_eq (seq : Nat) : seqData seq = (Json.obj [("seq", .num (formatUint seq))]).text := by
  have hOpen : seqOpen = '\x7b' :: (Wire.quote "seq".toList ++ [':']) := by decide +kernel
  rw [seqData, hOpen, Json.text, Wire.membersText, Json.text]
  simp only [List.cons_append, List.append_assoc, List.nil_append]

theorem literal_seq (seq : Nat) : (Json.obj [("seq", .num (formatUint seq))]).Literal := by
  simp only [Json.Literal, Wire.LiteralMembers, and_true]
  exact literal_uint seq

theorem literal_event (e : Event) : (eventJson e).Literal := by
  have hRowid : (Json.num (Decimal.ofInt e.rowid).text).Literal := ⟨_, Decimal.wellFormed_ofInt e.rowid, rfl⟩
  have hSeq := literal_uint e.seq
  unfold eventJson
  split
  · simp only [List.cons_append, List.nil_append, Json.Literal, Wire.LiteralMembers, and_true, true_and] at hSeq hRowid ⊢
    exact ⟨hSeq, hRowid⟩
  · simp only [List.cons_append, List.nil_append, Json.Literal, Wire.LiteralMembers, and_true, true_and] at hSeq hRowid ⊢
    exact ⟨hSeq, hRowid⟩

theorem uintMember_formatUint {n : Nat} (h : n < 2 ^ 64) : uintMember (some (.num (formatUint n))) = .ok n := by
  simp only [uintMember, parseUint_formatUint h]
  rw [UInt64.toNat_ofNat', Nat.mod_eq_of_lt h]

theorem unmarshal_seq {seq : Nat} (h : seq < 2 ^ 64) : textJson.unmarshal readSeq (seqData seq) = .ok seq := by
  have hParse : textJson.decode (seqData seq) = some (Json.obj [("seq", .num (formatUint seq))]) := by
    rw [seqData_eq]
    exact Wire.parseText_text (literal_seq seq)
  unfold Wire.JsonCodec.unmarshal
  rw [hParse]
  exact uintMember_formatUint h

theorem opOf_opText (op : Op) : opOf (opText op) = op := by
  cases op <;> decide

theorem readEvent_eventJson {e : Event} (h : e.seq < 2 ^ 64) : readEvent (eventJson e) = .ok e := by
  obtain ⟨seq, table, op, rowid, reset⟩ := e
  have hSeq : uintMember (some (.num (formatUint seq))) = .ok seq := uintMember_formatUint h
  have hRowid : integerMember (some (.num (Decimal.ofInt rowid).text)) = .ok rowid := by
    simp only [integerMember, scanInt_ofInt]
  cases reset
  all_goals
    simp [eventJson, readEvent, Wire.fields, List.lookup_cons, hSeq, hRowid, Wire.stringMember, Wire.boolMember, opOf_opText,
      bind, Except.bind]

/-! ## Blocks on the wire -/

theorem oneLine_fieldLine {name value : List Char} (hName : OneLine name) (hValue : OneLine value) :
    OneLine (fieldLine name value) :=
  oneLine_append hName (oneLine_cons (by decide) (oneLine_cons (by decide) hValue))

theorem oneLine_formatUint (n : Nat) : OneLine (formatUint n) := by
  rw [formatUint_eq]
  exact Wire.oneLine_number _

theorem oneLine_seqData (seq : Nat) : OneLine (seqData seq) := by
  rw [seqData_eq]
  exact Wire.oneLine_text _ (literal_seq seq)

theorem formatUint_no_nul (n : Nat) : '\x00' ∉ formatUint n := by
  rw [formatUint_eq]
  intro h
  exact absurd (Wire.isAtomChar_text _ _ h) (by decide)

theorem plain_message (id : Option Nat) {type data : List Char} (hType : OneLine type) (hData : OneLine data) :
    (Block.message (id.map formatUint) type data).Plain := by
  constructor
  · intro l hl
    simp only [Block.lines, List.mem_append, Option.mem_toList, Option.map_map, Option.map_eq_some_iff, List.mem_cons,
      List.not_mem_nil, or_false, Function.comp_apply] at hl
    rcases hl with ⟨n, -, rfl⟩ | rfl | rfl
    · exact oneLine_fieldLine (by decide) (oneLine_formatUint n)
    · exact oneLine_fieldLine (by decide) hType
    · exact oneLine_fieldLine (by decide) hData
  · intro text type' data' h
    obtain ⟨n, -, rfl⟩ := Option.map_eq_some_iff.mp (Block.message.inj h).1
    exact formatUint_no_nul n

theorem plain_head (reset : Bool) (seq : Nat) : (head reset seq).Plain := by
  refine plain_message none ?_ (oneLine_seqData seq)
  cases reset <;> decide

theorem plain_ping : ping.Plain := by
  constructor
  · decide
  · intro id type data h
    cases h

theorem plain_change {names : Option (List String)} {e : Event} : ∀ b ∈ change names e, b.Plain := by
  intro b hb
  unfold change at hb
  split at hb
  · cases List.mem_singleton.mp hb
    exact plain_message (some e.seq) (by decide) (oneLine_seqData e.seq)
  · split at hb
    · cases hb
    · cases List.mem_singleton.mp hb
      exact plain_message (some e.seq) (by decide) (Wire.oneLine_text _ (literal_event e))

theorem change_of_not_wanted {names : Option (List String)} {e : Event} (h : wanted names e = false) :
    change names e = [] := by
  obtain ⟨hReset, hTable⟩ := Bool.or_eq_false_iff.mp h
  rw [change, if_neg (by rw [hReset]; exact Bool.false_ne_true), if_pos]
  cases names with
  | none => cases hTable
  | some names => simpa using hTable

def changeMessage (e : Event) : Message :=
  if e.reset then ⟨"reset".toList, seqData e.seq, formatUint e.seq⟩
  else ⟨"change".toList, textJson.marshal (eventJson e), formatUint e.seq⟩

theorem change_of_wanted {names : Option (List String)} {e : Event} (h : wanted names e = true) (before : List Char) :
    shown before (change names e) = [changeMessage e] ∧ lastIds before (change names e) = formatUint e.seq := by
  unfold change changeMessage
  split
  · exact ⟨rfl, rfl⟩
  · rename_i hReset
    rw [if_neg]
    · exact ⟨rfl, rfl⟩
    · rw [wanted, Bool.or_eq_true] at h
      have hTable := h.resolve_left hReset
      cases names with
      | none => simp
      | some names => simpa using hTable

theorem readShown_ready (data id : List Char) :
    readShown ⟨"ready".toList, data, id⟩ = (textJson.unmarshal readSeq data).map .ready := if_pos rfl

theorem readShown_reset (data id : List Char) :
    readShown ⟨"reset".toList, data, id⟩ = (textJson.unmarshal readSeq data).map .reset :=
  (if_neg (show ¬ "reset".toList = "ready".toList by decide)).trans (if_pos rfl)

theorem readShown_event (data id : List Char) :
    readShown ⟨"change".toList, data, id⟩ = (textJson.unmarshal readEvent data).map .change :=
  (if_neg (show ¬ "change".toList = "ready".toList by decide)).trans
    (if_neg (show ¬ "change".toList = "reset".toList by decide))

theorem readShown_head (reset : Bool) {seq : Nat} (h : seq < 2 ^ 64) (before : List Char) :
    ∃ m, (head reset seq).messages before = [m] ∧ m.lastId = before ∧
      readShown m = .ok (if reset then .reset seq else .ready seq) := by
  refine ⟨_, rfl, rfl, ?_⟩
  cases reset with
  | false => exact (readShown_ready _ _).trans (by rw [unmarshal_seq h]; rfl)
  | true => exact (readShown_reset _ _).trans (by rw [unmarshal_seq h]; rfl)

theorem readShown_change {e : Event} (h : e.seq < 2 ^ 64) :
    readShown (changeMessage e) = .ok (if e.reset then .reset e.seq else .change e) := by
  unfold changeMessage
  split
  · rw [readShown_reset, unmarshal_seq h]
    rfl
  · have hRead : textJson.unmarshal readEvent (textJson.marshal (eventJson e)) = readEvent (eventJson e) := by
      have hParse : textJson.decode (textJson.marshal (eventJson e)) = some (eventJson e) :=
        Wire.parseText_text (literal_event e)
      rw [Wire.JsonCodec.unmarshal, hParse]
    rw [readShown_event, hRead, readEvent_eventJson h]
    rfl

end QuicSql.Changes
