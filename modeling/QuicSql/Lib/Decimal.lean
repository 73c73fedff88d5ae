import Mathlib.Algebra.Order.Field.Rat
import Mathlib.Data.Nat.Digits.Lemmas

/-!
# Decimal literals

An optionally signed decimal with or without a fraction or an exponent: how it is
written, how it is read back, and the number it stands for.
-/

namespace QuicSql.Lib

abbrev Digit := Fin 10

def Digit.char (d : Digit) : Char := Char.ofNat (48 + d.val)

def Digit.ofChar (c : Char) : Option Digit :=
  if h : 48 ≤ c.toNat ∧ c.toNat < 58 then some ⟨c.toNat - 48, by omega⟩ else none

@[simp] theorem Digit.ofChar_char (d : Digit) : Digit.ofChar d.char = some d := by
  revert d
  decide

theorem Digit.char_ne (d : Digit) : d.char ≠ '.' ∧ d.char ≠ 'e' ∧ d.char ≠ 'E' ∧ d.char ≠ '-' ∧ d.char ≠ '+' := by
  revert d
  decide

/-! ## Runs of digits -/

/-- The longest run of digits at the front, and what follows it. -/
def scanDigits : List Char → List Digit × List Char
  | [] => ([], [])
  | c :: rest =>
    match Digit.ofChar c with
    | none => ([], c :: rest)
    | some d => (d :: (scanDigits rest).1, (scanDigits rest).2)

/-- The text does not go on with a digit. -/
def EndsDigits (rest : List Char) : Prop := ∀ c, rest.head? = some c → Digit.ofChar c = none

theorem endsDigits_nil : EndsDigits [] := nofun

theorem endsDigits_cons {c : Char} (h : Digit.ofChar c = none) (rest : List Char) : EndsDigits (c :: rest) := by
  intro c' hc
  cases hc
  exact h

theorem scanDigits_append (ds : List Digit) {rest : List Char} (hEnds : EndsDigits rest) :
    scanDigits (ds.map Digit.char ++ rest) = (ds, rest) := by
  induction ds with
  | nil =>
    cases rest with
    | nil => rfl
    | cons c rest => simp [scanDigits, hEnds c rfl]
  | cons d ds ih => simp [scanDigits, ih]

def natOfDigits (ds : List Digit) : Nat := ds.foldl (fun n d => n * 10 + d.val) 0

theorem natOfDigits_append (ds : List Digit) (d : Digit) : natOfDigits (ds ++ [d]) = natOfDigits ds * 10 + d.val := by
  simp [natOfDigits]

/-- The digits of a number, the most significant first; zero has one. -/
def digitsOf (n : Nat) : List Digit :=
  if n = 0 then [0] else (Nat.digits 10 n).reverse.map (Fin.ofNat 10)

theorem natOfDigits_digitsOf (n : Nat) : natOfDigits (digitsOf n) = n := by
  unfold digitsOf natOfDigits
  split
  · rename_i hZero
    subst hZero
    rfl
  · have hSmall : ∀ d ∈ (Nat.digits 10 n).reverse, (Fin.ofNat 10 d).val = d := fun d hd =>
      Nat.mod_eq_of_lt (Nat.digits_lt_base (by decide) (List.mem_reverse.mp hd))
    have hFold : ∀ (l : List Nat) (acc : Nat), (∀ d ∈ l, (Fin.ofNat 10 d).val = d) →
        (l.map (Fin.ofNat 10)).foldl (fun n d => n * 10 + d.val) acc = l.foldl (fun n d => n * 10 + d) acc := by
      intro l
      induction l with
      | nil => exact fun _ _ => rfl
      | cons d l ih =>
        intro acc h
        rw [List.map_cons, List.foldl_cons, List.foldl_cons, h d List.mem_cons_self]
        exact ih _ fun e he => h e (List.mem_cons_of_mem _ he)
    rw [hFold _ _ hSmall, List.foldl_reverse]
    calc (Nat.digits 10 n).foldr (fun d n => n * 10 + d) 0
        = Nat.ofDigits 10 (Nat.digits 10 n) := by
          induction Nat.digits 10 n with
          | nil => rfl
          | cons d l ih => rw [List.foldr_cons, Nat.ofDigits_cons, ih]; ring
      _ = n := Nat.ofDigits_digits 10 n

theorem digitsOf_ne_nil (n : Nat) : digitsOf n ≠ [] := by
  unfold digitsOf
  split
  · simp
  · rename_i hPos
    simpa using Nat.digits_ne_nil_iff_ne_zero.mpr hPos

/-- No digits in front that could be left out. -/
def Canonical (ds : List Digit) : Prop := ds ≠ [] ∧ (ds.head? = some 0 → ds = [0])

theorem canonical_digitsOf (n : Nat) : Canonical (digitsOf n) := by
  refine ⟨digitsOf_ne_nil n, fun hHead => ?_⟩
  unfold digitsOf at hHead ⊢
  split at hHead
  · rename_i hZero
    rw [if_pos hZero]
  · rename_i hPos
    -- The last entry of `Nat.digits` is the leading digit.
    have hNil : Nat.digits 10 n ≠ [] := Nat.digits_ne_nil_iff_ne_zero.mpr hPos
    have hLead := Nat.getLast_digit_ne_zero 10 hPos
    rw [List.head?_map, List.head?_reverse, List.getLast?_eq_getLast_of_ne_nil hNil, Option.map_some] at hHead
    have hZero : (Nat.digits 10 n).getLast hNil % 10 = 0 := congrArg Fin.val (Option.some.inj hHead)
    rw [Nat.mod_eq_of_lt (Nat.digits_lt_base (by decide) (List.getLast_mem hNil))] at hZero
    exact absurd hZero hLead

/-! ## Literals -/

/-- The sign of an exponent may be left out. -/
structure Exponent where
  sign : Option Bool
  digits : List Digit
deriving DecidableEq, Repr

structure Decimal where
  neg : Bool
  int : List Digit
  frac : Option (List Digit)
  exp : Option Exponent
deriving DecidableEq, Repr

namespace Decimal

/-- A literal as JSON has it: no part is empty and no digits are superfluous in front. -/
structure WellFormed (d : Decimal) : Prop where
  int : Canonical d.int
  frac : d.frac ≠ some []
  exp : d.exp.map Exponent.digits ≠ some []

def fracText : Option (List Digit) → List Char
  | none => []
  | some ds => '.' :: ds.map Digit.char

def signText : Option Bool → List Char
  | none => []
  | some true => ['-']
  | some false => ['+']

def expText : Option Exponent → List Char
  | none => []
  | some e => 'e' :: (signText e.sign ++ e.digits.map Digit.char)

def text (d : Decimal) : List Char :=
  (if d.neg then ['-'] else []) ++ (d.int.map Digit.char ++ (fracText d.frac ++ expText d.exp))

def scanSign : List Char → Bool × List Char
  | '-' :: rest => (true, rest)
  | text => (false, text)

def scanFrac : List Char → Option (List Digit) × List Char
  | '.' :: rest => (some (scanDigits rest).1, (scanDigits rest).2)
  | text => (none, text)

def scanExpSign : List Char → Option Bool × List Char
  | '-' :: rest => (some true, rest)
  | '+' :: rest => (some false, rest)
  | text => (none, text)

def scanExp : List Char → Option Exponent × List Char
  | c :: rest =>
    if c = 'e' ∨ c = 'E' then
      (some ⟨(scanExpSign rest).1, (scanDigits (scanExpSign rest).2).1⟩, (scanDigits (scanExpSign rest).2).2)
    else (none, c :: rest)
  | [] => (none, [])

def scan (text : List Char) : Option Decimal :=
  let (neg, afterSign) := scanSign text
  let (int, afterInt) := scanDigits afterSign
  let (frac, afterFrac) := scanFrac afterInt
  let (exp, rest) := scanExp afterFrac
  if int ≠ [] ∧ frac ≠ some [] ∧ exp.map Exponent.digits ≠ some [] ∧ rest = [] then some ⟨neg, int, frac, exp⟩ else none

/-! ### Reading back -/

theorem scanSign_text (d : Decimal) (hInt : d.int ≠ []) :
    scanSign d.text = (d.neg, d.int.map Digit.char ++ (fracText d.frac ++ expText d.exp)) := by
  unfold text
  cases d.neg with
  | true => rfl
  | false =>
    obtain ⟨first, rest, hEq⟩ := List.exists_cons_of_ne_nil hInt
    rw [hEq]
    unfold scanSign
    split
    · rename_i heq
      simp only [Bool.false_eq_true, if_false, List.nil_append, List.map_cons, List.cons_append, List.cons.injEq] at heq
      exact absurd heq.1 first.char_ne.2.2.2.1
    · rfl

theorem endsDigits_expText (e : Option Exponent) : EndsDigits (expText e) := by
  cases e with
  | none => exact endsDigits_nil
  | some e => exact endsDigits_cons (by decide) _

theorem endsDigits_fracText (frac : Option (List Digit)) (e : Option Exponent) :
    EndsDigits (fracText frac ++ expText e) := by
  cases frac with
  | none => exact endsDigits_expText e
  | some ds => exact endsDigits_cons (by decide) _

theorem scanFrac_text (frac : Option (List Digit)) (e : Option Exponent) :
    scanFrac (fracText frac ++ expText e) = (frac, expText e) := by
  cases frac with
  | some ds =>
    change (some (scanDigits (ds.map Digit.char ++ expText e)).1, (scanDigits (ds.map Digit.char ++ expText e)).2) = _
    rw [scanDigits_append ds (endsDigits_expText e)]
  | none =>
    cases e with
    | none => rfl
    | some e => rfl

theorem scanExpSign_text (sign : Option Bool) (ds : List Digit) :
    scanExpSign (signText sign ++ ds.map Digit.char) = (sign, ds.map Digit.char) := by
  cases sign with
  | some neg => cases neg <;> rfl
  | none =>
    cases ds with
    | nil => rfl
    | cons d ds =>
      unfold scanExpSign
      split
      · rename_i heq
        exact absurd (List.cons.inj heq).1 d.char_ne.2.2.2.1
      · rename_i heq
        exact absurd (List.cons.inj heq).1 d.char_ne.2.2.2.2
      · rfl

theorem scanExp_text (e : Option Exponent) : scanExp (expText e) = (e, []) := by
  cases e with
  | none => rfl
  | some e =>
    have hDigits := scanDigits_append e.digits endsDigits_nil
    rw [List.append_nil] at hDigits
    simp [expText, scanExp, scanExpSign_text, hDigits]

theorem scan_text {d : Decimal} (h : d.WellFormed) : scan d.text = some d := by
  have hInt := scanDigits_append d.int (endsDigits_fracText d.frac d.exp)
  simp [scan, scanSign_text d h.int.1, hInt, scanFrac_text, scanExp_text, h.int.1, h.frac, h.exp]

/-! ### The number it stands for -/

def Exponent.value (e : Exponent) : Int := if e.sign = some true then -natOfDigits e.digits else natOfDigits e.digits

/-- The value without its sign, which a negative zero keeps apart. -/
def magnitude (d : Decimal) : Rat :=
  let frac := d.frac.getD []
  (natOfDigits (d.int ++ frac) : Rat) * (10 : Rat) ^ ((d.exp.map Exponent.value).getD 0 - (frac.length : Int))

def plain (d : Decimal) : Bool := d.frac.isNone && d.exp.isNone

theorem text_plain {d : Decimal} (h : d.plain = true) :
    d.text = (if d.neg then ['-'] else []) ++ d.int.map Digit.char := by
  obtain ⟨hFrac, hExp⟩ := Bool.and_eq_true_iff.mp h
  rw [Option.isNone_iff_eq_none] at hFrac hExp
  simp [text, hFrac, hExp, fracText, expText]

def containsPointOrExponent (text : List Char) : Bool := text.any fun c => c = '.' ∨ c = 'e' ∨ c = 'E'

theorem digits_no_mark (ds : List Digit) : containsPointOrExponent (ds.map Digit.char) = false := by
  rw [containsPointOrExponent, List.any_eq_false]
  intro c hc
  obtain ⟨d, -, rfl⟩ := List.mem_map.mp hc
  have hNe := d.char_ne
  simp [hNe.1, hNe.2.1, hNe.2.2.1]

/-- The marks in the text are those of a fraction or an exponent. -/
theorem containsPointOrExponent_text (d : Decimal) : containsPointOrExponent d.text = !d.plain := by
  have hDigits := digits_no_mark d.int
  unfold containsPointOrExponent at hDigits ⊢
  unfold text plain
  rw [List.any_append, List.any_append, List.any_append, hDigits]
  cases d.neg <;> cases d.frac <;> cases d.exp <;> simp [fracText, expText]

def withPointZero (d : Decimal) : Decimal := { d with frac := some [0] }

theorem text_withPointZero {d : Decimal} (h : d.plain = true) : d.withPointZero.text = d.text ++ ['.', '0'] := by
  obtain ⟨hFrac, hExp⟩ := Bool.and_eq_true_iff.mp h
  rw [Option.isNone_iff_eq_none] at hFrac hExp
  simp [text, withPointZero, hFrac, hExp, fracText, expText]
  rfl

/-- A zero after the point does not change the value. -/
theorem magnitude_withPointZero {d : Decimal} (h : d.plain = true) : d.withPointZero.magnitude = d.magnitude := by
  obtain ⟨hFrac, hExp⟩ := Bool.and_eq_true_iff.mp h
  rw [Option.isNone_iff_eq_none] at hFrac hExp
  unfold magnitude withPointZero
  simp only [hFrac, hExp, Option.getD_some, Option.getD_none, Option.map_none, List.append_nil, List.length_nil,
    List.length_singleton, natOfDigits_append]
  norm_num
  ring

theorem WellFormed.withPointZero {d : Decimal} (h : d.WellFormed) : d.withPointZero.WellFormed :=
  ⟨h.int, by simp [Decimal.withPointZero], h.exp⟩

/-! ### Integers -/

def ofInt (i : Int) : Decimal := ⟨decide (i < 0), digitsOf i.natAbs, none, none⟩

theorem wellFormed_ofInt (i : Int) : (ofInt i).WellFormed :=
  ⟨canonical_digitsOf _, by simp [ofInt], by simp [ofInt]⟩

end Decimal

/-- Read a text as an integer: a sign may stand in front of the digits. -/
def scanInt (text : List Char) : Option Int :=
  let (sign, rest) := Decimal.scanExpSign text
  let (ds, after) := scanDigits rest
  if ds ≠ [] ∧ after = [] then some (if sign = some true then -natOfDigits ds else natOfDigits ds) else none

theorem scanInt_ofInt (i : Int) : scanInt (Decimal.ofInt i).text = some i := by
  have hDigits := scanDigits_append (digitsOf i.natAbs) endsDigits_nil
  rw [List.append_nil] at hDigits
  rw [Decimal.text_plain rfl]
  unfold scanInt Decimal.ofInt
  by_cases hNeg : i < 0
  · have hSign := Decimal.scanExpSign_text (some true) (digitsOf i.natAbs)
    simp only [Decimal.signText] at hSign
    simp only [hNeg, decide_true, if_true, hSign, hDigits, natOfDigits_digitsOf, ne_eq, digitsOf_ne_nil,
      not_false_eq_true, and_self, Option.some.injEq]
    omega
  · have hSign := Decimal.scanExpSign_text none (digitsOf i.natAbs)
    simp only [Decimal.signText] at hSign
    simp only [hNeg, decide_false, Bool.false_eq_true, if_false, hSign, hDigits, natOfDigits_digitsOf, ne_eq,
      digitsOf_ne_nil, not_false_eq_true, and_self, if_true, reduceCtorEq, Option.some.injEq]
    omega

end QuicSql.Lib
