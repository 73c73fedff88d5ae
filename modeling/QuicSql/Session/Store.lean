import QuicSql.Lib.Tally
import Mathlib.Logic.Function.Basic

/-!
# The session store

A session pins one connection for an interactive stream and is addressed by a
signed baton over its id and generation. Every section under the store mutex is
one function here. Sessions are heap objects: a request keeps its pointer after
the session has left the map. The clock is read once in each section.
-/

namespace QuicSql.Sessions

open Lib

abbrev DbName := String
abbrev Ptr := Nat
abbrev ConnId := Nat

/-- The registry reference a stream obtained from `Registry.Get`. -/
abbrev Ref := Nat

abbrev Time := Int

abbrev Bytes := List UInt8

def idLen : Nat := 16

def macLen : Nat := 32

structure SessionId where
  bytes : Bytes
  len : bytes.length = idLen
deriving DecidableEq, Repr

inductive Err where
  | badBaton
  | tooMany
  | principalMismatch
  | pin (detail : String)
  | mode (detail : String)
  | rand (detail : String)
  | get (detail : String)
deriving DecidableEq, Repr

inductive KillResult where
  | notFound
  | busy
  | killed
deriving DecidableEq, Repr

structure Session where
  id : SessionId
  gen : Nat
  conn : ConnId
  release : Ref
  dbName : DbName
  principal : String
  readOnly : Bool
  attach : Bool
  created : Time
  lastUsed : Time
  busy : Bool
deriving DecidableEq, Repr

structure Teardown where
  conn : ConnId
  release : Ref
  readOnly : Bool
  attach : Bool
deriving DecidableEq, Repr

/-- HMAC-SHA256 under the store's key and unpadded base64url, as far as the store
relies on them. -/
structure Codec where
  mac : Bytes → Bytes
  encode : Bytes → String
  decode : String → Option Bytes
  mac_length : ∀ payload, (mac payload).length = macLen
  decode_encode : ∀ token, decode (encode token) = some token

theorem byteOfChar_charOfByte (b : UInt8) : UInt8.ofNat (Char.ofNat b.toNat).toNat = b := by
  have hLt : b.toNat < 256 := b.toNat_lt
  have hValid : Nat.isValidChar b.toNat := Or.inl (by omega)
  have hChar : (Char.ofNat b.toNat).toNat = b.toNat := by
    rw [Char.ofNat, dif_pos hValid]
    rfl
  rw [hChar, UInt8.ofNat_toNat]

/-- The interface without any cryptography, to run the store on given inputs. -/
def plainCodec : Codec where
  mac _ := List.replicate macLen 0
  encode token := String.ofList (token.map (fun b => Char.ofNat b.toNat))
  decode baton := some (baton.toList.map (fun c => UInt8.ofNat c.toNat))
  mac_length _ := List.length_replicate
  decode_encode token := by
    rw [String.toList_ofList, List.map_map]
    congr 1
    exact List.map_id'' byteOfChar_charOfByte token

def sampleId : SessionId := ⟨List.replicate idLen (UInt8.ofNat 7), List.length_replicate⟩

structure Store where
  sessions : Finmap (fun _ : SessionId => Ptr)
  perDB : DbName → Int
  ttl : Time
  maxLife : Time
  max : Int
  closing : List Teardown
  heap : Ptr → Session
  nextPtr : Ptr
  now : Time

def newStore (ttl maxLife : Time) (max : Int) : Store where
  sessions := ∅
  perDB := fun _ => 0
  ttl := if ttl ≤ 0 then 60 * 10 ^ 9 else ttl
  maxLife := if maxLife ≤ 0 then 5 * 60 * 10 ^ 9 else maxLife
  max := if max ≤ 0 then 64 else max
  closing := []
  heap := fun _ => ⟨⟨List.replicate idLen 0, rfl⟩, 0, 0, 0, "", "", false, false, 0, 0, false⟩
  nextPtr := 0
  now := 0

/-! ## Batons -/

def putUint64 (gen : Nat) : Bytes :=
  [UInt8.ofNat (gen / 2 ^ 56), UInt8.ofNat (gen / 2 ^ 48), UInt8.ofNat (gen / 2 ^ 40),
   UInt8.ofNat (gen / 2 ^ 32), UInt8.ofNat (gen / 2 ^ 24), UInt8.ofNat (gen / 2 ^ 16),
   UInt8.ofNat (gen / 2 ^ 8), UInt8.ofNat gen]

def uint64 (bytes : Bytes) : Nat := bytes.foldl (fun acc b => acc * 256 + b.toNat) 0

def mint (codec : Codec) (id : SessionId) (gen : Nat) : String :=
  let payload := id.bytes ++ putUint64 gen
  codec.encode (payload ++ codec.mac payload)

def verify (codec : Codec) (baton : String) : Except Err (SessionId × Nat) :=
  match codec.decode baton with
  | none => .error .badBaton
  | some tok =>
    if hLen : tok.length = idLen + 8 + macLen then
      let payload := tok.take (idLen + 8)
      if tok.drop (idLen + 8) = codec.mac payload then
        .ok (⟨payload.take idLen, by
          simp only [payload, List.length_take, hLen, idLen, macLen]
          omega⟩, uint64 (payload.drop idLen))
      else .error .badBaton
    else .error .badBaton

theorem putUint64_length (gen : Nat) : (putUint64 gen).length = 8 := rfl

theorem uint64_putUint64 {gen : Nat} (h : gen < 2 ^ 64) : uint64 (putUint64 gen) = gen := by
  simp only [uint64, putUint64, List.foldl_cons, List.foldl_nil, UInt8.toNat_ofNat']
  omega

theorem verify_mint (codec : Codec) (id : SessionId) {gen : Nat} (h : gen < 2 ^ 64) :
    verify codec (mint codec id gen) = .ok (id, gen) := by
  have hPayload : (id.bytes ++ putUint64 gen).length = idLen + 8 := by
    rw [List.length_append, id.len, putUint64_length]
  have hToken : (id.bytes ++ putUint64 gen ++ codec.mac (id.bytes ++ putUint64 gen)).length =
      idLen + 8 + macLen := by
    rw [List.length_append, hPayload, codec.mac_length]
  have hTake : (id.bytes ++ putUint64 gen ++ codec.mac (id.bytes ++ putUint64 gen)).take (idLen + 8) =
      id.bytes ++ putUint64 gen := List.take_left' hPayload
  have hDrop : (id.bytes ++ putUint64 gen ++ codec.mac (id.bytes ++ putUint64 gen)).drop (idLen + 8) =
      codec.mac (id.bytes ++ putUint64 gen) := List.drop_left' hPayload
  simp only [verify, mint, codec.decode_encode, hToken, hTake, hDrop, dif_pos, if_true,
    List.take_left' id.len, List.drop_left' id.len, uint64_putUint64 h]

/-! ## Sections under the mutex -/

namespace Store

def setSession (st : Store) (p : Ptr) (s : Session) : Store :=
  { st with heap := Function.update st.heap p s }

theorem setSession_self (st : Store) (p : Ptr) (s : Session) : (st.setSession p s).heap p = s :=
  Function.update_self _ _ _

theorem setSession_of_ne (st : Store) {p q : Ptr} (s : Session) (h : q ≠ p) : (st.setSession p s).heap q = st.heap q :=
  Function.update_of_ne h _ _

/-- What the new session shares with the old one is the same for every session. -/
theorem setSession_field {β : Type} (f : Session → β) {st : Store} {p : Ptr} {s : Session} (h : f s = f (st.heap p))
    (q : Ptr) : f ((st.setSession p s).heap q) = f (st.heap q) := by
  rcases Decidable.em (q = p) with rfl | hNe
  · rw [setSession_self, h]
  · rw [setSession_of_ne st s hNe]

def addSlot (st : Store) (db : DbName) (n : Int) : Store :=
  { st with perDB := Function.update st.perDB db (st.perDB db + n) }

def reserveSlot (st : Store) (db : DbName) : Except Err Store :=
  if st.max ≤ st.perDB db then .error .tooMany else .ok (st.addSlot db 1)

def releaseSlot (st : Store) (db : DbName) : Store :=
  if 0 < st.perDB db then st.addSlot db (-1) else st

def insertSession (st : Store) (s : Session) : Store :=
  { st with
    sessions := st.sessions.insert s.id st.nextPtr
    heap := Function.update st.heap st.nextPtr s
    nextPtr := st.nextPtr + 1 }

def reapable (st : Store) (s : Session) : Bool :=
  if s.busy then false
  else decide (st.ttl < st.now - s.lastUsed) || decide (st.maxLife < st.now - s.created)

def closeLocked (st : Store) (id : SessionId) : Store :=
  match st.sessions.lookup id with
  | none => st
  | some p =>
    let s := st.heap p
    let st' := ({ st with sessions := st.sessions.erase id } : Store).releaseSlot s.dbName
    { st' with closing := st'.closing ++ [⟨s.conn, s.release, s.readOnly, s.attach⟩] }

def resume (codec : Codec) (st : Store) (baton dbName principal : String) : Store × Except Err Ptr :=
  match verify codec baton with
  | .error err => (st, .error err)
  | .ok (id, gen) =>
    match st.sessions.lookup id with
    | none => (st, .error .badBaton)
    | some p =>
      let s := st.heap p
      if s.gen ≠ gen then (st, .error .badBaton)
      else if s.busy then (st, .error .badBaton)
      else if st.reapable s then (st.closeLocked id, .error .badBaton)
      else if s.dbName ≠ dbName then (st, .error .badBaton)
      else if s.principal ≠ principal then (st, .error .principalMismatch)
      else (st.setSession p { s with gen := (s.gen + 1) % 2 ^ 64, busy := true, lastUsed := st.now },
        .ok p)

def baton (codec : Codec) (st : Store) (p : Ptr) : Store × String :=
  let s := { st.heap p with busy := false, lastUsed := st.now }
  (st.setSession p s, mint codec s.id s.gen)

def peekBaton (codec : Codec) (st : Store) (p : Ptr) : String :=
  mint codec (st.heap p).id (st.heap p).gen

def close (st : Store) (p : Ptr) : Store := st.closeLocked (st.heap p).id

def kill (codec : Codec) (st : Store) (idStr : String) : Store × KillResult :=
  match codec.decode idStr with
  | none => (st, .notFound)
  | some raw =>
    if hLen : raw.length = idLen then
      match st.sessions.lookup ⟨raw, hLen⟩ with
      | none => (st, .notFound)
      | some p => if (st.heap p).busy then (st, .busy) else (st.closeLocked ⟨raw, hLen⟩, .killed)
    else (st, .notFound)

def closeAllOne (st : Store) (id : SessionId) : Store :=
  match st.sessions.lookup id with
  | none => st
  | some p => if (st.heap p).busy then st else st.closeLocked id

def closeAll (st : Store) (order : List SessionId) : Store := order.foldl closeAllOne st

def reapOne (st : Store) (id : SessionId) : Store :=
  match st.sessions.lookup id with
  | none => st
  | some p => if st.reapable (st.heap p) then st.closeLocked id else st

def reap (st : Store) (order : List SessionId) : Store := order.foldl reapOne st

end Store

end QuicSql.Sessions
