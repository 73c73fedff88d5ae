import Mathlib.Data.List.Basic

/-!
# Base64

Three bytes are four characters of six bits; what is left at the end is padded. Line breaks are
not read.
-/

namespace QuicSql.Lib.Base64

abbrev Sextet := Fin 64

def Sextet.char (d : Sextet) : Char :=
  if d.val < 26 then Char.ofNat (65 + d.val)
  else if d.val < 52 then Char.ofNat (71 + d.val)
  else if d.val < 62 then Char.ofNat (d.val - 4)
  else if d.val = 62 then '+'
  else '/'

def Sextet.ofChar (c : Char) : Option Sextet := (List.finRange 64).find? fun d => d.char = c

theorem Sextet.ofChar_char (d : Sextet) : Sextet.ofChar d.char = some d := by
  revert d
  decide +kernel

theorem Sextet.ofChar_pad : Sextet.ofChar '=' = none := by decide +kernel

def sextets (a b c : UInt8) : Sextet × Sextet × Sextet × Sextet :=
  (Fin.ofNat 64 (a.toNat / 4), Fin.ofNat 64 (a.toNat % 4 * 16 + b.toNat / 16),
    Fin.ofNat 64 (b.toNat % 16 * 4 + c.toNat / 64), Fin.ofNat 64 c.toNat)

def bytes (i j k l : Sextet) : UInt8 × UInt8 × UInt8 :=
  (UInt8.ofNat (i.val * 4 + j.val / 16), UInt8.ofNat (j.val * 16 + k.val / 4), UInt8.ofNat (k.val * 64 + l.val))

def encode : List UInt8 → List Char
  | a :: b :: c :: rest =>
    match sextets a b c with
    | (i, j, k, l) => i.char :: j.char :: k.char :: l.char :: encode rest
  | [a, b] =>
    match sextets a b 0 with
    | (i, j, k, _) => [i.char, j.char, k.char, '=']
  | [a] =>
    match sextets a 0 0 with
    | (i, j, _, _) => [i.char, j.char, '=', '=']
  | [] => []

def decode : List Char → Option (List UInt8)
  | w :: x :: y :: z :: rest =>
    match Sextet.ofChar w, Sextet.ofChar x, Sextet.ofChar y, Sextet.ofChar z with
    | some i, some j, some k, some l =>
      (decode rest).map fun tail => (bytes i j k l).1 :: (bytes i j k l).2.1 :: (bytes i j k l).2.2 :: tail
    | some i, some j, some k, none =>
      if z = '=' ∧ rest = [] then some [(bytes i j k 0).1, (bytes i j k 0).2.1] else none
    | some i, some j, none, none => if y = '=' ∧ z = '=' ∧ rest = [] then some [(bytes i j 0 0).1] else none
    | _, _, _, _ => none
  | [] => some []
  | _ => none

theorem bytes_sextets (a b c : UInt8) :
    bytes (sextets a b c).1 (sextets a b c).2.1 (sextets a b c).2.2.1 (sextets a b c).2.2.2 = (a, b, c) := by
  have ha := a.toNat_lt
  have hb := b.toNat_lt
  have hc := c.toNat_lt
  simp only [bytes, sextets, Fin.ofNat, Prod.mk.injEq, ← UInt8.toNat_inj, UInt8.toNat_ofNat']
  omega

theorem decode_encode (b : List UInt8) : decode (encode b) = some b := by
  induction b using encode.induct with
  | case1 a b c rest i j k l hSextets ih =>
    have hBytes := bytes_sextets a b c
    rw [hSextets] at hBytes
    simp [encode, decode, hSextets, Sextet.ofChar_char, ih, hBytes]
  | case2 a b i j k l hSextets =>
    have hBytes := bytes_sextets a b 0
    have hLast : l = 0 := (congrArg (·.2.2.2) hSextets).symm
    rw [hSextets, hLast] at hBytes
    simp [encode, decode, hSextets, Sextet.ofChar_char, Sextet.ofChar_pad, hBytes]
  | case3 a i j k l hSextets =>
    have hBytes := bytes_sextets a 0 0
    have hThird : k = 0 := (congrArg (·.2.2.1) hSextets).symm
    have hLast : l = 0 := (congrArg (·.2.2.2) hSextets).symm
    rw [hSextets, hThird, hLast] at hBytes
    simp [encode, decode, hSextets, Sextet.ofChar_char, Sextet.ofChar_pad, hBytes]
  | case4 => rfl

end QuicSql.Lib.Base64
