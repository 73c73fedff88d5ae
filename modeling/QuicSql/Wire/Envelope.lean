import QuicSql.Wire.Value

/-!
# Documents made of documents

A response is marshalled from a struct whose cells marshal themselves, and unmarshalled into
another struct whose raw members keep their part of the document. Member names are distinct,
so that a lookup finds the only one.
-/

namespace QuicSql.Wire

open Lib

/-- What is handed to `json.Marshal`; `doc` is what the `MarshalJSON` of a cell returned. -/
inductive Node (D : Type) where
  | doc (d : D)
  | null
  | bool (b : Bool)
  | int (i : Int)
  | str (s : String)
  | arr (items : List (Node D))
  | obj (members : List (String × Node D))

section Value

variable {D : Type} (decode : D → Option Json)

mutual

/-- The document that a node stands for, if its cells are documents. -/
def Node.value : Node D → Option Json
  | .doc d => decode d
  | .null => some .null
  | .bool b => some (.bool b)
  | .int i => some (.num (Decimal.ofInt i).text)
  | .str s => some (.str s)
  | .arr items => (values items).map .arr
  | .obj members => if (members.map Prod.fst).Nodup then (memberValues members).map .obj else none

def values : List (Node D) → Option (List Json)
  | [] => some []
  | n :: rest =>
    match n.value, values rest with
    | some j, some js => some (j :: js)
    | _, _ => none

def memberValues : List (String × Node D) → Option (List (String × Json))
  | [] => some []
  | (key, n) :: rest =>
    match n.value, memberValues rest with
    | some j, some js => some ((key, j) :: js)
    | _, _ => none

end

end Value

/-- A marshalled struct parses as the document it stands for. -/
structure EnvelopeCodec extends JsonCodec where
  encode : Node Doc → Doc
  decode_encode : ∀ n j, n.value decode = some j → decode (encode n) = some j

def plainEnvelope : EnvelopeCodec where
  toJsonCodec := plainJson
  encode n := .inr ((n.value plainJson.decode).getD .null)
  decode_encode n j h := by
    rw [h]
    rfl

/-- `json.Unmarshal` into a struct that `read` fills. -/
def JsonCodec.unmarshal {α : Type} (json : JsonCodec) (read : Json → Except DecodeErr α) (doc : json.Doc) :
    Except DecodeErr α :=
  match json.decode doc with
  | none => .error .json
  | some j => read j

def JsonCodec.parsed (json : JsonCodec) (doc : json.Doc) : Json := (json.decode doc).getD .null

theorem JsonCodec.unmarshal_ok {α : Type} {json : JsonCodec} {read : Json → Except DecodeErr α} {doc : json.Doc} {x : α}
    (h : json.unmarshal read doc = .ok x) : json.decode doc = some (json.parsed doc) ∧ read (json.parsed doc) = .ok x := by
  unfold JsonCodec.unmarshal at h
  split at h
  · cases h
  · rename_i j hDecode
    have hParsed : json.parsed doc = j := by rw [JsonCodec.parsed, hDecode, Option.getD_some]
    rw [hParsed]
    exact ⟨hDecode, h⟩

theorem EnvelopeCodec.unmarshal_encode {α : Type} (json : EnvelopeCodec) (read : Json → Except DecodeErr α)
    {n : Node json.Doc} {j : Json} (h : n.value json.decode = some j) :
    json.unmarshal read (json.encode n) = read j := by
  rw [JsonCodec.unmarshal, json.decode_encode n j h]

/-! ## Nodes -/

def Node.stringOrNull {D : Type} : Option String → Node D
  | none => .null
  | some s => .str s

/-- A member with `omitempty`. -/
def omitFalse {D : Type} (key : String) (b : Bool) : List (String × Node D) :=
  if b then [(key, .bool true)] else []

def omitZero {D : Type} (key : String) (i : Int) : List (String × Node D) :=
  if i = 0 then [] else [(key, .int i)]

def Node.rows {D α : Type} (cell : α → D) (rows : List (List α)) : Node D :=
  .arr (rows.map fun row => .arr (row.map fun x => .doc (cell x)))

section Value

variable {D α : Type} {decode : D → Option Json}

theorem values_map {f : α → Node D} {g : α → Json} {xs : List α} (h : ∀ x ∈ xs, (f x).value decode = some (g x)) :
    values decode (xs.map f) = some (xs.map g) := by
  induction xs with
  | nil => rfl
  | cons x xs ih =>
    have hRest := ih fun y hy => h y (List.mem_cons_of_mem _ hy)
    simp only [List.map_cons, values, h x List.mem_cons_self, hRest]

theorem Node.value_arr_map {f : α → Node D} {g : α → Json} {xs : List α}
    (h : ∀ x ∈ xs, (f x).value decode = some (g x)) :
    (Node.arr (xs.map f)).value decode = some (.arr (xs.map g)) := by
  rw [Node.value, values_map h]
  rfl

theorem Node.value_rows {cell : α → D} {parsed : α → Json} (rows : List (List α))
    (h : ∀ x, decode (cell x) = some (parsed x)) :
    (Node.rows cell rows).value decode = some (.arr (rows.map fun row => .arr (row.map parsed))) := by
  refine Node.value_arr_map fun row _ => ?_
  refine Node.value_arr_map fun x _ => ?_
  rw [Node.value, h]

theorem Node.value_obj {members : List (String × Node D)} {js : List (String × Json)}
    (hKeys : (members.map Prod.fst).Nodup) (h : memberValues decode members = some js) :
    (Node.obj members).value decode = some (.obj js) := by
  rw [Node.value, if_pos hKeys, h]
  rfl

theorem memberValues_cons {key : String} {n : Node D} {rest : List (String × Node D)} {j : Json}
    {js : List (String × Json)} (hHead : n.value decode = some j) (hRest : memberValues decode rest = some js) :
    memberValues decode ((key, n) :: rest) = some ((key, j) :: js) := by
  simp only [memberValues, hHead, hRest]

end Value

/-! ## Members -/

/-- The members of a document that is read into a struct. -/
def fields : Json → Except DecodeErr (String → Option Json)
  | .null => .ok fun _ => none
  | .obj members => .ok fun key => members.lookup key
  | _ => .error .json

def intMember : Option Json → Except DecodeErr Int64
  | none | some .null => .ok 0
  | some (.num lit) =>
    match parseInt lit with
    | none => .error .json
    | some i => .ok i
  | some _ => .error .json

def boolMember : Option Json → Except DecodeErr Bool
  | none | some .null => .ok false
  | some (.bool b) => .ok b
  | some _ => .error .json

/-- A member that is read into a pointer. -/
def pointerMember {α : Type} (read : Json → Except DecodeErr α) : Option Json → Except DecodeErr (Option α)
  | none | some .null => .ok none
  | some j => (read j).map some

def listMember {α : Type} (read : Json → Except DecodeErr α) : Option Json → Except DecodeErr (List α)
  | none | some .null => .ok []
  | some (.arr items) => items.mapM read
  | some _ => .error .json

def stringItem (j : Json) : Except DecodeErr String := stringMember (some j)

def rawRows : Option Json → Except DecodeErr (List (List Json)) := listMember fun row => listMember .ok (some row)

theorem mapM_map_ok {α β γ ε : Type} {read : β → Except ε γ} {f : α → β} {g : α → γ} {xs : List α}
    (h : ∀ x ∈ xs, read (f x) = .ok (g x)) : (xs.map f).mapM read = .ok (xs.map g) := by
  induction xs with
  | nil => rfl
  | cons x xs ih =>
    rw [List.map_cons, List.mapM_cons, h x List.mem_cons_self, ih fun y hy => h y (List.mem_cons_of_mem _ hy)]
    rfl

theorem listMember_map {α β : Type} {read : Json → Except DecodeErr β} {f : α → Json} {g : α → β} {xs : List α}
    (h : ∀ x ∈ xs, read (f x) = .ok (g x)) : listMember read (some (.arr (xs.map f))) = .ok (xs.map g) :=
  mapM_map_ok h

theorem rawRows_map {α : Type} (parsed : α → Json) (rows : List (List α)) :
    rawRows (some (.arr (rows.map fun row => .arr (row.map parsed)))) = .ok (rows.map fun row => row.map parsed) :=
  listMember_map fun _ _ => listMember_map fun _ _ => rfl

theorem strings_map (names : List String) : listMember stringItem (some (.arr (names.map .str))) = .ok names := by
  have hRead : listMember stringItem (some (.arr (names.map .str))) = .ok (names.map id) := listMember_map fun _ _ => rfl
  rw [hRead, List.map_id]

theorem intMember_ofInt {i : Int} (hLow : -2 ^ 63 ≤ i) (hHigh : i < 2 ^ 63) :
    intMember (some (.num (Decimal.ofInt i).text)) = .ok (Int64.ofInt i) := by
  have hParse : parseInt (Decimal.ofInt i).text = some (Int64.ofInt i) := by
    rw [parseInt, scanInt_ofInt, Option.bind_some, if_pos ⟨hLow, hHigh⟩]
  simp only [intMember, hParse]

theorem intMember_toInt (i : Int64) : intMember (some (.num (Decimal.ofInt i.toInt).text)) = .ok i := by
  rw [intMember_ofInt i.le_toInt i.toInt_lt, Int64.ofInt_toInt]

end QuicSql.Wire
