import QuicSql.Lib.Base64
import QuicSql.Lib.Decimal

/-!
# The two value codecs

One cell of a result or one argument of a statement, in the bare JSON of the native endpoint
and in the tagged JSON of Hrana. `encoding/json`, base64 and the float formatting enter
through the laws that are assumed of them.
-/

namespace QuicSql.Wire

open Lib

/-- SQLite's storage classes. -/
inductive Value (F : Type) where
  | null
  | int (i : Int64)
  | float (f : F)
  | text (s : String)
  | blob (b : List UInt8)
deriving DecidableEq, Repr

/-- A decoded document; a number keeps its text, as `json.Number` does. -/
inductive Json where
  | null
  | bool (b : Bool)
  | num (lit : List Char)
  | str (s : String)
  | arr (items : List Json)
  | obj (members : List (String × Json))

/-- A string or a number. -/
def Json.Scalar : Json → Prop
  | .str _ => True
  | .num lit => ∃ d : Decimal, d.WellFormed ∧ d.text = lit
  | _ => False

def nullText : List Char := "null".toList

def nullObjectText : List Char := "\x7b\"type\":\"null\"\x7d".toList

/-- `encoding/json`, as far as it is relied on: `raw` are the bytes of a text written by hand. -/
structure JsonCodec where
  Doc : Type
  raw : List Char → Doc
  marshal : Json → Doc
  decode : Doc → Option Json
  decode_null : decode (raw nullText) = some .null
  decode_nullObject : decode (raw nullObjectText) = some (.obj [("type", .str "null")])
  decode_number : ∀ d : Decimal, d.WellFormed → decode (raw d.text) = some (.num d.text)
  decode_string : ∀ s, decode (marshal (.str s)) = some (.str s)
  decode_object : ∀ members : List (String × Json), (members.map Prod.fst).Nodup → (∀ m ∈ members, m.2.Scalar) →
    decode (marshal (.obj members)) = some (.obj members)

structure Base64 where
  encodeToString : List UInt8 → String
  decodeString : String → Option (List UInt8)
  decode_encode : ∀ b, decodeString (encodeToString b) = some b

/-- 64-bit floats with their shortest formatting, the one `encoding/json` uses, and the parser,
which sees the sign and the magnitude of a literal and fails when it is out of range. -/
structure FloatCodec (F : Type) where
  zero : F
  finite : F → Bool
  format : F → Decimal
  jsonFormat : F → Decimal
  nearest : Bool → Rat → Option F
  format_wellFormed : ∀ f, finite f = true → (format f).WellFormed
  nearest_format : ∀ f, finite f = true → nearest (format f).neg (format f).magnitude = some f
  jsonFormat_wellFormed : ∀ f, finite f = true → (jsonFormat f).WellFormed
  nearest_jsonFormat : ∀ f, finite f = true → nearest (jsonFormat f).neg (jsonFormat f).magnitude = some f

inductive DecodeErr where
  | json
  | unsupportedObject
  | base64NotString
  | invalidBase64
  | unsupportedArg
  | badInteger
  | badBlob
  | unknownType (name : String)
deriving DecidableEq, Repr

variable {F : Type} (json : JsonCodec) (b64 : Base64) (fl : FloatCodec F)

/-! ## Numbers -/

def parseFloat (s : List Char) : Option F := (Decimal.scan s).bind fun d => fl.nearest d.neg d.magnitude

def formatInt (i : Int64) : List Char := (Decimal.ofInt i.toInt).text

def parseInt (s : List Char) : Option Int64 :=
  (scanInt s).bind fun i => if -2 ^ 63 ≤ i ∧ i < 2 ^ 63 then some (Int64.ofInt i) else none

def numberValue (s : List Char) : Value F :=
  if Decimal.containsPointOrExponent s then
    match parseFloat fl s with
    | some f => .float f
    | none => .text (String.ofList s)
  else
    match parseInt s with
    | some i => .int i
    | none =>
      match parseFloat fl s with
      | some f => .float f
      | none => .text (String.ofList s)

/-! ## The native form -/

def floatNativeJSON (f : F) : json.Doc :=
  if !fl.finite f then json.raw nullText
  else
    let s := (fl.format f).text
    json.raw (if Decimal.containsPointOrExponent s then s else s ++ ['.', '0'])

def nativeMarshalJSON : Value F → json.Doc
  | .int i => json.raw (formatInt i)
  | .float f => floatNativeJSON json fl f
  | .text s => json.marshal (.str s)
  | .blob b => json.marshal (.obj [("base64", .str (b64.encodeToString b))])
  | .null => json.raw nullText

def fromNativeAny : Json → Except DecodeErr (Value F)
  | .null => .ok .null
  | .bool b => .ok (.int (if b then 1 else 0))
  | .str s => .ok (.text s)
  | .num lit => .ok (numberValue fl lit)
  | .obj members =>
    match members.lookup "base64" with
    | none => .error .unsupportedObject
    | some b =>
      if members.length ≠ 1 then .error .unsupportedObject
      else
        match b with
        | .str s =>
          match b64.decodeString s with
          | none => .error .invalidBase64
          | some data => .ok (.blob data)
        | _ => .error .base64NotString
  | .arr _ => .error .unsupportedArg

def nativeUnmarshalJSON (doc : json.Doc) : Except DecodeErr (Value F) :=
  match json.decode doc with
  | none => .error .json
  | some x => fromNativeAny b64 fl x

/-! ## The Hrana form -/

def hranaMarshalJSON : Value F → json.Doc
  | .int i => json.marshal (.obj [("type", .str "integer"), ("value", .str (String.ofList (formatInt i)))])
  | .float f =>
    if !fl.finite f then json.raw nullObjectText
    else json.marshal (.obj [("type", .str "float"), ("value", .num (fl.jsonFormat f).text)])
  | .text s => json.marshal (.obj [("type", .str "text"), ("value", .str s)])
  | .blob b => json.marshal (.obj [("base64", .str (b64.encodeToString b)), ("type", .str "blob")])
  | .null => json.raw nullObjectText

/-- The struct that a tagged value is decoded into; an absent member leaves its zero value. -/
structure HranaRaw where
  type : String
  value : Option Json
  base64 : String

def stringMember : Option Json → Except DecodeErr String
  | none => .ok ""
  | some .null => .ok ""
  | some (.str s) => .ok s
  | some _ => .error .json

def hranaRaw : Json → Except DecodeErr HranaRaw
  | .null => .ok ⟨"", none, ""⟩
  | .obj members =>
    match stringMember (members.lookup "type"), stringMember (members.lookup "base64") with
    | .ok type, .ok base64 => .ok ⟨type, members.lookup "value", base64⟩
    | _, _ => .error .json
  | _ => .error .json

/-- A raw member decoded into a string; JSON null leaves it empty, no member is an error. -/
def rawString : Option Json → Except DecodeErr String
  | none => .error .json
  | some j => stringMember (some j)

def rawFloat : Option Json → Except DecodeErr F
  | some .null => .ok fl.zero
  | some (.num lit) =>
    match parseFloat fl lit with
    | some f => .ok f
    | none => .error .json
  | _ => .error .json

def fromHranaRaw (r : HranaRaw) : Except DecodeErr (Value F) :=
  if r.type = "null" ∨ r.type = "" then .ok .null
  else if r.type = "integer" then
    match rawString r.value with
    | .error err => .error err
    | .ok s =>
      match parseInt s.toList with
      | none => .error .badInteger
      | some i => .ok (.int i)
  else if r.type = "float" then (rawFloat fl r.value).map .float
  else if r.type = "text" then (rawString r.value).map .text
  else if r.type = "blob" then
    match b64.decodeString r.base64 with
    | none => .error .badBlob
    | some data => .ok (.blob data)
  else .error (.unknownType r.type)

def hranaUnmarshalJSON (doc : json.Doc) : Except DecodeErr (Value F) :=
  match json.decode doc with
  | none => .error .json
  | some x =>
    match hranaRaw x with
    | .error err => .error err
    | .ok r => fromHranaRaw b64 fl r

/-! ## Round trips -/

/-- What arrives: a float that JSON cannot carry becomes null. -/
def delivered : Value F → Value F
  | .float f => if fl.finite f then .float f else .null
  | v => v

variable {fl}

theorem parseFloat_text {d : Decimal} (h : d.WellFormed) : parseFloat fl d.text = fl.nearest d.neg d.magnitude := by
  unfold parseFloat
  rw [Decimal.scan_text h]
  rfl

theorem parseInt_formatInt (i : Int64) : parseInt (formatInt i) = some i := by
  have hLow : -2 ^ 63 ≤ i.toInt := i.le_toInt
  have hHigh : i.toInt < 2 ^ 63 := i.toInt_lt
  unfold parseInt formatInt
  rw [scanInt_ofInt, Option.bind_some, if_pos ⟨hLow, hHigh⟩, Int64.ofInt_toInt]

theorem numberValue_formatInt (i : Int64) : numberValue fl (formatInt i) = .int i := by
  unfold numberValue
  rw [parseInt_formatInt]
  have hPlain : Decimal.containsPointOrExponent (formatInt i) = false := Decimal.containsPointOrExponent_text _
  rw [hPlain]
  rfl

/-- The literal that the native form writes for a finite float. -/
def nativeLiteral (d : Decimal) : Decimal := if d.plain then d.withPointZero else d

theorem nativeLiteral_text (d : Decimal) :
    (nativeLiteral d).text = if Decimal.containsPointOrExponent d.text then d.text else d.text ++ ['.', '0'] := by
  unfold nativeLiteral
  rw [Decimal.containsPointOrExponent_text]
  cases hPlain : d.plain with
  | true => simp [Decimal.text_withPointZero hPlain]
  | false => simp

theorem nativeLiteral_wellFormed {d : Decimal} (h : d.WellFormed) : (nativeLiteral d).WellFormed := by
  unfold nativeLiteral
  split
  · exact h.withPointZero
  · exact h

theorem nativeLiteral_marked (d : Decimal) : Decimal.containsPointOrExponent (nativeLiteral d).text = true := by
  rw [Decimal.containsPointOrExponent_text]
  unfold nativeLiteral
  split
  · rfl
  · simp_all

theorem nativeLiteral_value (d : Decimal) : (nativeLiteral d).neg = d.neg ∧ (nativeLiteral d).magnitude = d.magnitude := by
  unfold nativeLiteral
  split
  · rename_i hPlain
    exact ⟨rfl, Decimal.magnitude_withPointZero hPlain⟩
  · exact ⟨rfl, rfl⟩

/-- An integral float stays a float. -/
theorem numberValue_nativeLiteral {f : F} (hFinite : fl.finite f = true) :
    numberValue fl (nativeLiteral (fl.format f)).text = .float f := by
  obtain ⟨hNeg, hMagnitude⟩ := nativeLiteral_value (fl.format f)
  unfold numberValue
  rw [nativeLiteral_marked, if_pos rfl, parseFloat_text (nativeLiteral_wellFormed (fl.format_wellFormed f hFinite)), hNeg,
    hMagnitude, fl.nearest_format f hFinite]

theorem native_round_trip (v : Value F) :
    nativeUnmarshalJSON json b64 fl (nativeMarshalJSON json b64 fl v) = .ok (delivered fl v) := by
  unfold nativeUnmarshalJSON nativeMarshalJSON
  cases v with
  | null => simp only [json.decode_null, fromNativeAny, delivered]
  | int i =>
    have hDecode := json.decode_number _ (Decimal.wellFormed_ofInt i.toInt)
    rw [← formatInt] at hDecode
    simp only [hDecode, fromNativeAny, numberValue_formatInt, delivered]
  | float f =>
    dsimp only [delivered]
    unfold floatNativeJSON
    cases hFinite : fl.finite f with
    | false => simp only [Bool.not_false, if_true, json.decode_null, fromNativeAny, Bool.false_eq_true, if_false]
    | true =>
      have hDecode := json.decode_number _ (nativeLiteral_wellFormed (fl.format_wellFormed f hFinite))
      simp only [Bool.not_true, Bool.false_eq_true, if_false, ← nativeLiteral_text, hDecode, fromNativeAny,
        numberValue_nativeLiteral hFinite, if_true]
  | text s => simp only [json.decode_string, fromNativeAny, delivered]
  | blob b =>
    have hDecode := json.decode_object [("base64", .str (b64.encodeToString b))] (by simp) (by simp [Json.Scalar])
    simp [hDecode, fromNativeAny, b64.decode_encode, delivered]

theorem hranaRaw_null : hranaRaw (.obj [("type", .str "null")]) = .ok ⟨"null", none, ""⟩ := by
  simp [hranaRaw, List.lookup_cons, List.lookup_nil, stringMember]

theorem hranaRaw_value (type : String) (value : Json) :
    hranaRaw (.obj [("type", .str type), ("value", value)]) = .ok ⟨type, some value, ""⟩ := by
  simp [hranaRaw, List.lookup_cons, List.lookup_nil, stringMember]

theorem hranaRaw_blob (data : String) :
    hranaRaw (.obj [("base64", .str data), ("type", .str "blob")]) = .ok ⟨"blob", none, data⟩ := by
  simp [hranaRaw, List.lookup_cons, List.lookup_nil, stringMember]

theorem hrana_round_trip (v : Value F) :
    hranaUnmarshalJSON json b64 fl (hranaMarshalJSON json b64 fl v) = .ok (delivered fl v) := by
  have hTagged : ∀ (type : String) (value : Json), value.Scalar →
      json.decode (json.marshal (.obj [("type", .str type), ("value", value)])) =
        some (.obj [("type", .str type), ("value", value)]) := by
    intro type value hValue
    exact json.decode_object _ (by simp) (by simpa [Json.Scalar] using hValue)
  unfold hranaUnmarshalJSON hranaMarshalJSON
  cases v with
  | null => simp [json.decode_nullObject, hranaRaw_null, fromHranaRaw, delivered]
  | int i =>
    have hDecode := hTagged "integer" (.str (String.ofList (formatInt i))) trivial
    simp [hDecode, hranaRaw_value, fromHranaRaw, rawString, stringMember, parseInt_formatInt, delivered]
  | float f =>
    dsimp only [delivered]
    cases hFinite : fl.finite f with
    | false => simp [json.decode_nullObject, hranaRaw_null, fromHranaRaw]
    | true =>
      have hWell := fl.jsonFormat_wellFormed f hFinite
      have hDecode := hTagged "float" (.num (fl.jsonFormat f).text) ⟨_, hWell, rfl⟩
      simp [hDecode, hranaRaw_value, fromHranaRaw, rawFloat, parseFloat_text hWell, fl.nearest_jsonFormat f hFinite,
        Except.map]
  | text s =>
    have hDecode := hTagged "text" (.str s) trivial
    simp [hDecode, hranaRaw_value, fromHranaRaw, rawString, stringMember, Except.map, delivered]
  | blob b =>
    have hDecode := json.decode_object [("base64", .str (b64.encodeToString b)), ("type", .str "blob")] (by simp)
      (by simp [Json.Scalar])
    simp [hDecode, hranaRaw_blob, fromHranaRaw, b64.decode_encode, delivered]

theorem value_codecs_round_trip (json : JsonCodec) (b64 : Base64) (fl : FloatCodec F) (v : Value F) :
    nativeUnmarshalJSON json b64 fl (nativeMarshalJSON json b64 fl v) = .ok (delivered fl v) ∧
      hranaUnmarshalJSON json b64 fl (hranaMarshalJSON json b64 fl v) = .ok (delivered fl v) :=
  ⟨native_round_trip json b64 v, hrana_round_trip json b64 v⟩

/-! ## Codecs that keep the laws -/

def stdEncoding : Base64 where
  encodeToString b := String.ofList (Lib.Base64.encode b)
  decodeString s := Lib.Base64.decode s.toList
  decode_encode b := by rw [String.toList_ofList, Lib.Base64.decode_encode]

/-- Documents that are written by hand stay texts, the others are kept as they are. -/
def plainJson : JsonCodec where
  Doc := List Char ⊕ Json
  raw := .inl
  marshal := .inr
  decode
    | .inl text =>
      if text = nullText then some .null
      else if text = nullObjectText then some (.obj [("type", .str "null")])
      else (Decimal.scan text).map fun _ => .num text
    | .inr j => some j
  decode_null := rfl
  decode_nullObject := rfl
  decode_number d h := by
    have hScan := Decimal.scan_text h
    have hNull : d.text ≠ nullText := by
      intro hEq
      rw [hEq] at hScan
      cases hScan
    have hObject : d.text ≠ nullObjectText := by
      intro hEq
      rw [hEq] at hScan
      cases hScan
    simp only [if_neg hNull, if_neg hObject, hScan, Option.map_some]
  decode_string _ := rfl
  decode_object _ _ _ := rfl

/-- Signed integral floats and one value that is no number. -/
def integralFloats : FloatCodec (Option (Bool × Nat)) where
  zero := some (false, 0)
  finite := Option.isSome
  format f := ⟨(f.getD (false, 0)).1, digitsOf (f.getD (false, 0)).2, none, none⟩
  jsonFormat f := ⟨(f.getD (false, 0)).1, digitsOf (f.getD (false, 0)).2, none, none⟩
  nearest neg q := if q.den = 1 then some (some (neg, q.num.toNat)) else none
  format_wellFormed _ _ := ⟨canonical_digitsOf _, by simp, by simp⟩
  jsonFormat_wellFormed _ _ := ⟨canonical_digitsOf _, by simp, by simp⟩
  nearest_format f hFinite := by
    obtain ⟨⟨neg, n⟩, rfl⟩ := Option.isSome_iff_exists.mp hFinite
    simp [Decimal.magnitude, natOfDigits_digitsOf]
  nearest_jsonFormat f hFinite := by
    obtain ⟨⟨neg, n⟩, rfl⟩ := Option.isSome_iff_exists.mp hFinite
    simp [Decimal.magnitude, natOfDigits_digitsOf]

example (b64 : Base64) :
    nativeMarshalJSON plainJson b64 integralFloats (.float (some (true, 0))) = .inl "-0.0".toList := rfl

theorem blob_round_trips :
    hranaMarshalJSON plainJson stdEncoding integralFloats (.blob [81, 0, 255, 7]) =
        .inr (.obj [("base64", .str "UQD/Bw=="), ("type", .str "blob")]) ∧
      nativeUnmarshalJSON plainJson stdEncoding integralFloats (nativeMarshalJSON plainJson stdEncoding integralFloats
        (.blob [81, 0, 255, 7])) = .ok (.blob [81, 0, 255, 7]) ∧
      hranaUnmarshalJSON plainJson stdEncoding integralFloats (hranaMarshalJSON plainJson stdEncoding integralFloats
        (.blob [81, 0, 255, 7])) = .ok (.blob [81, 0, 255, 7]) := by
  have hText : Lib.Base64.encode [81, 0, 255, 7] = "UQD/Bw==".toList := by decide
  refine ⟨?_, value_codecs_round_trip plainJson stdEncoding integralFloats (.blob [81, 0, 255, 7])⟩
  simp [hranaMarshalJSON, stdEncoding, plainJson, hText]

end QuicSql.Wire
