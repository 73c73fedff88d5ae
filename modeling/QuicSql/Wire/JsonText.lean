import QuicSql.Lib.EventStream
import QuicSql.Wire.Value

/-!
# The text of a document

`json.Marshal` writes a document without a blank and escapes what could break a line, so
that its text can stand in a protocol of lines. Numbers keep their own text.
-/

namespace QuicSql.Wire

open Lib

open Lib.EventStream (OneLine oneLine_append oneLine_cons)

/-! ## Strings -/

def hexDigit (n : Nat) : Char := if n < 10 then Char.ofNat (48 + n) else Char.ofNat (87 + n)

def hexValue (c : Char) : Option Nat :=
  if '0' ≤ c ∧ c ≤ '9' then some (c.toNat - 48)
  else if 'a' ≤ c ∧ c ≤ 'f' then some (c.toNat - 87)
  else if 'A' ≤ c ∧ c ≤ 'F' then some (c.toNat - 55)
  else none

def hexEscape (n : Nat) : List Char :=
  ['\\', 'u', hexDigit (n / 4096 % 16), hexDigit (n / 256 % 16), hexDigit (n / 16 % 16), hexDigit (n % 16)]

/-- `appendString` with `escapeHTML`, for one character. -/
def escape (c : Char) : List Char :=
  if c = '"' then ['\\', '"']
  else if c = '\\' then ['\\', '\\']
  else if c = '\x08' then ['\\', 'b']
  else if c = '\x0c' then ['\\', 'f']
  else if c = '\n' then ['\\', 'n']
  else if c = '\r' then ['\\', 'r']
  else if c = '\t' then ['\\', 't']
  else if c < ' ' ∨ c = '<' ∨ c = '>' ∨ c = '&' then hexEscape c.toNat
  else if c = '\u2028' ∨ c = '\u2029' then hexEscape c.toNat
  else [c]

def quote (s : List Char) : List Char := '"' :: (s.flatMap escape ++ ['"'])

def unescape : Char → Option Char
  | '"' => some '"'
  | '\\' => some '\\'
  | '/' => some '/'
  | 'b' => some '\x08'
  | 'f' => some '\x0c'
  | 'n' => some '\n'
  | 'r' => some '\r'
  | 't' => some '\t'
  | _ => none

/-- Inside a string: after a backslash, or with so many digits of a code still to come. -/
inductive Pending where
  | plain
  | slash
  | hex (left value : Nat)
deriving DecidableEq, Repr

/-- The rest of a string, after its opening quote. -/
def readString : Pending → List Char → Option (List Char × List Char)
  | _, [] => none
  | .plain, c :: rest =>
    if c = '"' then some ([], rest)
    else if c = '\\' then readString .slash rest
    else if c < ' ' then none
    else (readString .plain rest).map fun (s, after) => (c :: s, after)
  | .slash, c :: rest =>
    if c = 'u' then readString (.hex 3 0) rest
    else (unescape c).bind fun x => (readString .plain rest).map fun (s, after) => (x :: s, after)
  | .hex left value, c :: rest =>
    (hexValue c).bind fun d =>
      match left with
      | 0 => (readString .plain rest).map fun (s, after) => (Char.ofNat (value * 16 + d) :: s, after)
      | left + 1 => readString (.hex left (value * 16 + d)) rest

theorem hexValue_hexDigit (n : Nat) : hexValue (hexDigit (n % 16)) = some (n % 16) := by
  have hAll : ∀ d < 16, hexValue (hexDigit d) = some d := by decide
  exact hAll _ (Nat.mod_lt n (by decide))

theorem readString_hexEscape {c : Char} (h : c.toNat < 65536) (rest : List Char) :
    readString .plain (hexEscape c.toNat ++ rest) = (readString .plain rest).map fun (s, after) => (c :: s, after) := by
  have hSum : (((c.toNat / 4096 % 16) * 16 + c.toNat / 256 % 16) * 16 + c.toNat / 16 % 16) * 16 + c.toNat % 16 =
      c.toNat := by
    omega
  simp [hexEscape, readString, hexValue_hexDigit, hSum]

theorem readString_escape (c : Char) (rest : List Char) :
    readString .plain (escape c ++ rest) = (readString .plain rest).map fun (s, after) => (c :: s, after) := by
  unfold escape
  split_ifs with hQuote hBack hB hF hN hR hT hHex hLine
  case pos | pos | pos | pos | pos | pos | pos =>
    subst_vars
    simp [readString, unescape]
  · apply readString_hexEscape
    rcases hHex with hLow | rfl | rfl | rfl
    · exact Nat.lt_trans hLow (by decide)
    all_goals decide
  · apply readString_hexEscape
    rcases hLine with rfl | rfl
    all_goals decide
  · have hPrint : ¬ c < ' ' := fun hLow => hHex (.inl hLow)
    rw [List.singleton_append, readString, if_neg hQuote, if_neg hBack, if_neg hPrint]

theorem readString_quote (s rest : List Char) :
    readString .plain (s.flatMap escape ++ '"' :: rest) = some (s, rest) := by
  induction s with
  | nil => rfl
  | cons c s ih => rw [List.flatMap_cons, List.append_assoc, readString_escape, ih, Option.map_some]

/-! ## Documents -/

mutual

def Json.text : Json → List Char
  | .null => nullText
  | .bool true => "true".toList
  | .bool false => "false".toList
  | .num lit => lit
  | .str s => quote s.toList
  | .arr [] => ['[', ']']
  | .arr (j :: rest) => '[' :: (j.text ++ itemsText rest)
  | .obj [] => ['\x7b', '\x7d']
  | .obj ((key, j) :: rest) => '\x7b' :: (quote key.toList ++ ':' :: (j.text ++ membersText rest))

/-- The items after the first, and the closing bracket. -/
def itemsText : List Json → List Char
  | [] => [']']
  | j :: rest => ',' :: (j.text ++ itemsText rest)

def membersText : List (String × Json) → List Char
  | [] => ['\x7d']
  | (key, j) :: rest => ',' :: (quote key.toList ++ ':' :: (j.text ++ membersText rest))

end

def isAtomChar (c : Char) : Bool := c.isAlphanum || c = '-' || c = '+' || c = '.'

def atom (word : List Char) : Option Json :=
  if word = nullText then some .null
  else if word = "true".toList then some (.bool true)
  else if word = "false".toList then some (.bool false)
  else (Decimal.scan word).map fun _ => .num word

def readAtom (text : List Char) : Option (Json × List Char) :=
  (atom (text.takeWhile isAtomChar)).map fun j => (j, text.dropWhile isAtomChar)

mutual

def readValue : Nat → List Char → Option (Json × List Char)
  | 0, _ => none
  | fuel + 1, text =>
    match text with
    | '"' :: rest => (readString .plain rest).map fun (s, after) => (.str (String.ofList s), after)
    | '[' :: ']' :: rest => some (.arr [], rest)
    | '[' :: rest =>
      (readValue fuel rest).bind fun (j, after) =>
        (readItems fuel after).map fun (js, after) => (.arr (j :: js), after)
    | '\x7b' :: '\x7d' :: rest => some (.obj [], rest)
    | '\x7b' :: rest =>
      (readMember fuel rest).bind fun (m, after) =>
        (readMembers fuel after).map fun (ms, after) => (.obj (m :: ms), after)
    | text => readAtom text

def readItems : Nat → List Char → Option (List Json × List Char)
  | 0, _ => none
  | fuel + 1, text =>
    match text with
    | ']' :: rest => some ([], rest)
    | ',' :: rest =>
      (readValue fuel rest).bind fun (j, after) => (readItems fuel after).map fun (js, after) => (j :: js, after)
    | _ => none

def readMember : Nat → List Char → Option ((String × Json) × List Char)
  | 0, _ => none
  | fuel + 1, text =>
    match text with
    | '"' :: rest =>
      (readString .plain rest).bind fun (key, after) =>
        match after with
        | ':' :: after => (readValue fuel after).map fun (j, after) => ((String.ofList key, j), after)
        | _ => none
    | _ => none

def readMembers : Nat → List Char → Option (List (String × Json) × List Char)
  | 0, _ => none
  | fuel + 1, text =>
    match text with
    | '\x7d' :: rest => some ([], rest)
    | ',' :: rest =>
      (readMember fuel rest).bind fun (m, after) => (readMembers fuel after).map fun (ms, after) => (m :: ms, after)
    | _ => none

end

def parseText (text : List Char) : Option Json :=
  match readValue (text.length + 1) text with
  | some (j, []) => some j
  | _ => none

mutual

def Json.Literal : Json → Prop
  | .num lit => ∃ d : Decimal, d.WellFormed ∧ d.text = lit
  | .arr items => LiteralItems items
  | .obj members => LiteralMembers members
  | _ => True

def LiteralItems : List Json → Prop
  | [] => True
  | j :: rest => j.Literal ∧ LiteralItems rest

def LiteralMembers : List (String × Json) → Prop
  | [] => True
  | (_, j) :: rest => j.Literal ∧ LiteralMembers rest

end

/-- The text does not go on with a character of a number or a word. -/
def EndsAtom (rest : List Char) : Prop := ∀ c, rest.head? = some c → isAtomChar c = false

theorem endsAtom_nil : EndsAtom [] := by
  intro c hc
  cases hc

theorem endsAtom_cons {c : Char} (h : isAtomChar c = false) (rest : List Char) : EndsAtom (c :: rest) := by
  intro c' hc
  cases hc
  exact h

theorem endsAtom_itemsText (items : List Json) (rest : List Char) : EndsAtom (itemsText items ++ rest) := by
  cases items with
  | nil => exact endsAtom_cons (by decide) _
  | cons j items => exact endsAtom_cons (by decide) _

theorem endsAtom_membersText (members : List (String × Json)) (rest : List Char) :
    EndsAtom (membersText members ++ rest) := by
  cases members with
  | nil => exact endsAtom_cons (by decide) _
  | cons m members => exact endsAtom_cons (by decide) _

/-! ### Words and numbers -/

theorem isAtomChar_digit (d : Digit) : isAtomChar d.char = true := by
  revert d
  decide

theorem isAtomChar_text (d : Decimal) : ∀ c ∈ d.text, isAtomChar c = true := by
  have hDigits : ∀ ds : List Digit, ∀ c ∈ ds.map Digit.char, isAtomChar c = true := by
    intro ds c hc
    obtain ⟨digit, -, rfl⟩ := List.mem_map.mp hc
    exact isAtomChar_digit digit
  obtain ⟨neg, int, frac, exp⟩ := d
  intro c hc
  simp only [Decimal.text, List.mem_append] at hc
  rcases hc with hSign | hInt | hFrac | hExp
  · split at hSign
    · cases List.mem_singleton.mp hSign
      decide
    · cases hSign
  · exact hDigits int c hInt
  · cases frac with
    | none => cases hFrac
    | some ds =>
      rcases List.mem_cons.mp hFrac with rfl | hMem
      · decide
      · exact hDigits ds c hMem
  · cases exp with
    | none => cases hExp
    | some e =>
      rcases List.mem_cons.mp hExp with rfl | hMem
      · decide
      · rcases List.mem_append.mp hMem with hSign | hMem
        · rcases hSign' : e.sign with _ | _ | _ <;> simp [hSign', Decimal.signText] at hSign <;> subst hSign <;> decide
        · exact hDigits e.digits c hMem

theorem takeWhile_atom {word rest : List Char} (hWord : ∀ c ∈ word, isAtomChar c = true) (hEnds : EndsAtom rest) :
    (word ++ rest).takeWhile isAtomChar = word ∧ (word ++ rest).dropWhile isAtomChar = rest := by
  rw [List.takeWhile_append_of_pos hWord, List.dropWhile_append_of_pos hWord]
  cases rest with
  | nil => simp
  | cons c rest => simp [hEnds c rfl]

theorem atom_text {d : Decimal} (h : d.WellFormed) : atom d.text = some (.num d.text) := by
  have hScan := Decimal.scan_text h
  have hWord : ∀ word, Decimal.scan word = none → d.text ≠ word := by
    rintro word hNone rfl
    cases hScan.symm.trans hNone
  rw [atom, if_neg (hWord _ rfl), if_neg (hWord _ rfl), if_neg (hWord _ rfl), hScan, Option.map_some]

theorem readValue_atom {c : Char} (h : isAtomChar c = true) (fuel : Nat) (tail : List Char) :
    readValue (fuel + 1) (c :: tail) = readAtom (c :: tail) := by
  have hNot : ∀ x, isAtomChar x = false → c ≠ x := by
    rintro x hx rfl
    cases h.symm.trans hx
  have hQuote := hNot '"' (by decide)
  have hArray := hNot '[' (by decide)
  have hObject := hNot '\x7b' (by decide)
  rw [readValue.eq_def]
  dsimp only
  split <;> simp_all

theorem readValue_word {word : List Char} {j : Json} (hWord : word.all isAtomChar = true)
    (hAtom : atom word = some j) (fuel : Nat) {rest : List Char} (hEnds : EndsAtom rest) :
    readValue (fuel + 1) (word ++ rest) = some (j, rest) := by
  obtain ⟨hTake, hDrop⟩ := takeWhile_atom (List.all_eq_true.mp hWord) hEnds
  have hRead : readAtom (word ++ rest) = some (j, rest) := by
    rw [readAtom, hTake, hDrop, hAtom, Option.map_some]
  cases word with
  | nil => cases hAtom
  | cons c tail => rw [List.cons_append, readValue_atom (List.all_eq_true.mp hWord c List.mem_cons_self), ← List.cons_append, hRead]

/-! ### Reading back -/

theorem readValue_string (s : String) (fuel : Nat) (rest : List Char) :
    readValue (fuel + 1) (quote s.toList ++ rest) = some (.str s, rest) := by
  have hRead := readString_quote s.toList rest
  simp only [quote, List.cons_append, List.append_assoc, List.nil_append, readValue, hRead, Option.map_some,
    String.ofList_toList]

/-- The first character of a document closes nothing. -/
theorem text_head {j : Json} (h : j.Literal) : ∃ c tail, j.text = c :: tail ∧ c ≠ ']' := by
  unfold Json.text
  split
  case h_4 lit =>
    obtain ⟨d, hd, rfl⟩ := h
    have hAtom := isAtomChar_text d
    have hWord := atom_text hd
    cases hText : d.text with
    | nil =>
      rw [hText] at hWord
      cases hWord
    | cons c tail =>
      refine ⟨c, tail, rfl, ?_⟩
      rintro rfl
      rw [hText] at hAtom
      exact absurd (hAtom _ List.mem_cons_self) (by decide)
  all_goals exact ⟨_, _, rfl, by decide⟩

theorem readValue_array {c : Char} (hc : c ≠ ']') (fuel : Nat) (tail : List Char) :
    readValue (fuel + 1) ('[' :: c :: tail) =
      (readValue fuel (c :: tail)).bind fun (j, after) =>
        (readItems fuel after).map fun (js, after) => (.arr (j :: js), after) := by
  rw [readValue.eq_def]
  dsimp only
  split <;> simp_all

theorem readValue_object (fuel : Nat) (tail : List Char) :
    readValue (fuel + 1) ('\x7b' :: '"' :: tail) =
      (readMember fuel ('"' :: tail)).bind fun (m, after) =>
        (readMembers fuel after).map fun (ms, after) => (.obj (m :: ms), after) :=
  rfl

theorem readMember_text {fuel : Nat} {j : Json} {rest : List Char} (key : String)
    (hValue : readValue fuel (j.text ++ rest) = some (j, rest)) :
    readMember (fuel + 1) (quote key.toList ++ ':' :: (j.text ++ rest)) = some ((key, j), rest) := by
  have hKey := readString_quote key.toList (':' :: (j.text ++ rest))
  simp only [quote, List.cons_append, List.append_assoc, List.nil_append, readMember, hKey, Option.bind_some, hValue,
    Option.map_some, String.ofList_toList]

mutual

theorem readValue_text (j : Json) (h : j.Literal) (fuel : Nat) {rest : List Char} (hFuel : j.text.length ≤ fuel)
    (hEnds : EndsAtom rest) : readValue fuel (j.text ++ rest) = some (j, rest) := by
  obtain ⟨c, tail, hHead, -⟩ := text_head h
  obtain ⟨fuel, rfl⟩ : ∃ n, fuel = n + 1 := by
    rw [hHead, List.length_cons] at hFuel
    exact ⟨fuel - 1, by omega⟩
  match j with
  | .null => exact readValue_word rfl rfl fuel hEnds
  | .bool true => exact readValue_word rfl rfl fuel hEnds
  | .bool false => exact readValue_word rfl rfl fuel hEnds
  | .num lit =>
    obtain ⟨d, hd, rfl⟩ := h
    exact readValue_word (List.all_eq_true.mpr (isAtomChar_text d)) (atom_text hd) fuel hEnds
  | .str s => exact readValue_string s fuel rest
  | .arr [] => rfl
  | .arr (j :: items) =>
    obtain ⟨hj, hItems⟩ : j.Literal ∧ LiteralItems items := h
    simp only [Json.text, List.length_cons, List.length_append] at hFuel
    have hFirst := readValue_text j hj fuel (by omega) (endsAtom_itemsText items rest)
    have hRest := readItems_text items hItems fuel (by omega) rest
    obtain ⟨c, tail, hText, hc⟩ := text_head hj
    rw [hText, List.cons_append] at hFirst
    rw [Json.text, List.cons_append, List.append_assoc, hText, List.cons_append, readValue_array hc]
    simp only [hFirst, Option.bind_some, hRest, Option.map_some]
  | .obj [] => rfl
  | .obj ((key, j) :: members) =>
    obtain ⟨hj, hMembers⟩ : j.Literal ∧ LiteralMembers members := h
    simp only [Json.text, quote, List.length_cons, List.length_append] at hFuel
    obtain ⟨fuel, rfl⟩ : ∃ n, fuel = n + 1 := ⟨fuel - 1, by omega⟩
    have hFirst := readMember_text key (readValue_text j hj fuel (by omega) (endsAtom_membersText members rest))
    have hRest := readMembers_text members hMembers (fuel + 1) (by omega) rest
    have hText : (Json.obj ((key, j) :: members)).text ++ rest =
        '\x7b' :: (quote key.toList ++ ':' :: (j.text ++ (membersText members ++ rest))) := by
      simp [Json.text]
    rw [hText]
    rw [quote, List.cons_append] at hFirst ⊢
    rw [readValue_object]
    simp only [hFirst, Option.bind_some, hRest, Option.map_some]

theorem readItems_text (items : List Json) (h : LiteralItems items) (fuel : Nat)
    (hFuel : (itemsText items).length ≤ fuel) (rest : List Char) :
    readItems fuel (itemsText items ++ rest) = some (items, rest) := by
  match items, fuel with
  | [], 0 => simp [itemsText] at hFuel
  | [], fuel + 1 => rfl
  | j :: items, 0 => simp [itemsText] at hFuel
  | j :: items, fuel + 1 =>
    obtain ⟨hj, hItems⟩ : j.Literal ∧ LiteralItems items := h
    simp only [itemsText, List.length_cons, List.length_append] at hFuel
    have hFirst := readValue_text j hj fuel (by omega) (endsAtom_itemsText items rest)
    have hRest := readItems_text items hItems fuel (by omega) rest
    rw [itemsText, List.cons_append, List.append_assoc, readItems]
    simp only [hFirst, Option.bind_some, hRest, Option.map_some]

theorem readMembers_text (members : List (String × Json)) (h : LiteralMembers members) (fuel : Nat)
    (hFuel : (membersText members).length ≤ fuel) (rest : List Char) :
    readMembers fuel (membersText members ++ rest) = some (members, rest) := by
  match members, fuel with
  | [], 0 => simp [membersText] at hFuel
  | [], fuel + 1 => rfl
  | (key, j) :: members, 0 => simp [membersText] at hFuel
  | (key, j) :: members, 1 =>
    simp only [membersText, quote, List.length_cons, List.length_append] at hFuel
    omega
  | (key, j) :: members, fuel + 2 =>
    obtain ⟨hj, hMembers⟩ : j.Literal ∧ LiteralMembers members := h
    simp only [membersText, quote, List.length_cons, List.length_append] at hFuel
    have hFirst := readMember_text key (readValue_text j hj fuel (by omega) (endsAtom_membersText members rest))
    have hRest := readMembers_text members hMembers (fuel + 1) (by omega) rest
    have hText : membersText ((key, j) :: members) ++ rest =
        ',' :: (quote key.toList ++ ':' :: (j.text ++ (membersText members ++ rest))) := by
      simp [membersText]
    rw [hText, readMembers]
    simp only [hFirst, Option.bind_some, hRest, Option.map_some]

end

theorem parseText_text {j : Json} (h : j.Literal) : parseText j.text = some j := by
  have hRead := readValue_text j h (j.text.length + 1) (Nat.le_succ _) endsAtom_nil
  rw [List.append_nil] at hRead
  rw [parseText, hRead]

/-! ## One line -/

theorem oneLine_hexEscape (n : Nat) : OneLine (hexEscape n) := by
  have hAll : ∀ d < 16, OneLine [hexDigit d] := by decide
  have hDigit : ∀ k, OneLine [hexDigit (k % 16)] := fun k => hAll _ (Nat.mod_lt k (by decide))
  exact oneLine_cons (by decide) (oneLine_cons (by decide) (oneLine_cons (hDigit _) (oneLine_cons (hDigit _)
    (oneLine_cons (hDigit _) (hDigit _)))))

theorem oneLine_escape (c : Char) : OneLine (escape c) := by
  unfold escape
  split_ifs with hQuote hBack hB hF hN hR
  case neg =>
    constructor
    · rw [List.mem_singleton]
      exact fun h => hN h.symm
    · rw [List.mem_singleton]
      exact fun h => hR h.symm
  all_goals first
    | exact oneLine_hexEscape _
    | decide

theorem oneLine_quote (s : List Char) : OneLine (quote s) := by
  have hBody : OneLine (s.flatMap escape) := by
    induction s with
    | nil => decide
    | cons c s ih => exact oneLine_append (oneLine_escape c) ih
  exact oneLine_cons (by decide) (oneLine_append hBody (by decide))

theorem oneLine_number (d : Decimal) : OneLine d.text := by
  constructor
  · intro h
    exact absurd (isAtomChar_text d _ h) (by decide)
  · intro h
    exact absurd (isAtomChar_text d _ h) (by decide)

mutual

theorem oneLine_text (j : Json) (h : j.Literal) : OneLine j.text := by
  match j with
  | .null => decide
  | .bool true => decide
  | .bool false => decide
  | .num lit =>
    obtain ⟨d, -, rfl⟩ := h
    exact oneLine_number d
  | .str s => exact oneLine_quote _
  | .arr [] => decide
  | .arr (j :: items) =>
    exact oneLine_cons (by decide) (oneLine_append (oneLine_text j h.1) (oneLine_items items h.2))
  | .obj [] => decide
  | .obj ((key, j) :: members) =>
    exact oneLine_cons (by decide) (oneLine_append (oneLine_quote _)
      (oneLine_cons (by decide) (oneLine_append (oneLine_text j h.1) (oneLine_members members h.2))))

theorem oneLine_items (items : List Json) (h : LiteralItems items) : OneLine (itemsText items) := by
  match items with
  | [] => decide
  | j :: items => exact oneLine_cons (by decide) (oneLine_append (oneLine_text j h.1) (oneLine_items items h.2))

theorem oneLine_members (members : List (String × Json)) (h : LiteralMembers members) :
    OneLine (membersText members) := by
  match members with
  | [] => decide
  | (key, j) :: members =>
    exact oneLine_cons (by decide) (oneLine_append (oneLine_quote _)
      (oneLine_cons (by decide) (oneLine_append (oneLine_text j h.1) (oneLine_members members h.2))))

end

theorem literalMembers_of_scalar {members : List (String × Json)} (h : ∀ m ∈ members, m.2.Scalar) :
    LiteralMembers members := by
  induction members with
  | nil => trivial
  | cons m members ih =>
    refine ⟨?_, ih fun m' hm' => h m' (List.mem_cons_of_mem _ hm')⟩
    have hScalar := h m List.mem_cons_self
    cases hj : m.2 with
    | num lit =>
      rw [hj] at hScalar
      exact hScalar
    | str s => trivial
    | null | bool | arr | obj =>
      rw [hj] at hScalar
      exact hScalar.elim

/-- The laws assumed of `encoding/json` hold of the text itself. -/
abbrev textJson : JsonCodec where
  Doc := List Char
  raw text := text
  marshal := Json.text
  decode := parseText
  decode_null := parseText_text (j := .null) trivial
  decode_nullObject := parseText_text (j := .obj [("type", .str "null")]) ⟨trivial, trivial⟩
  decode_number d h := parseText_text (j := .num d.text) ⟨d, h, rfl⟩
  decode_string s := parseText_text (j := .str s) trivial
  decode_object members _ hScalar := parseText_text (j := .obj members) (literalMembers_of_scalar hScalar)

end QuicSql.Wire
