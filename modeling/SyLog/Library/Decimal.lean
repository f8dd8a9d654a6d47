import Mathlib.Data.Nat.Digits.Lemmas

set_option autoImplicit false

/-! # Decimal numerals in bytes

`decode` reads a numeral; on digits written most significant first it inverts `Nat.digits`. -/

namespace Decimal

/-- A byte between `'0'` and `'9'`. -/
def isDigit (b : UInt8) : Bool := 48 ≤ b && b ≤ 57

/-- The number that a sequence of digits denotes. -/
def decode (text : List UInt8) : Nat := text.foldl (fun n b => b.toNat - 48 + 10 * n) 0

/-- The integer that a numeral denotes, with its sign. -/
def decodeInt : List UInt8 → Int
  | [] => 0
  | b :: bs => if b = 45 then -decode bs else decode (b :: bs)

/-- `'0' + d` -/
def digitByte (d : Nat) : UInt8 := 48 + d.toUInt8

theorem digitByte_toNat (d : Nat) (hd : d < 10) : (digitByte d).toNat = 48 + d := by
  have hd' : d.toUInt8.toNat = d := UInt8.toNat_ofNat_of_lt' (hd.trans (by decide))
  simp only [digitByte, UInt8.toNat_add, hd', UInt8.reduceToNat]
  omega

theorem isDigit_digitByte (d : Nat) (hd : d < 10) : isDigit (digitByte d) = true := by
  have h := digitByte_toNat d hd
  simp only [isDigit, Bool.and_eq_true, decide_eq_true_eq, UInt8.le_iff_toNat_le, h,
    UInt8.reduceToNat]
  omega

theorem decode_digits (ds : List Nat) (hds : ∀ d ∈ ds, d < 10) :
    decode (ds.reverse.map digitByte) = Nat.ofDigits 10 ds := by
  rw [decode, List.foldl_map, List.foldl_reverse]
  induction ds with
  | nil => rfl
  | cons d ds ih =>
      have hd := digitByte_toNat d (hds d List.mem_cons_self)
      rw [List.foldr_cons, ih (fun d' hd' => hds d' (List.mem_cons_of_mem _ hd')), hd,
        Nat.ofDigits_cons]
      simp

/-- Zeros in front do not count. -/
theorem decode_zeros (k : Nat) (text : List UInt8) :
    decode (List.replicate k 48 ++ text) = decode text := by
  rw [decode, List.foldl_append]
  have hzeros : (List.replicate k 48).foldl (fun n (b : UInt8) => b.toNat - 48 + 10 * n) 0 = 0 := by
    induction k with
    | zero => rfl
    | succ k ih =>
        rw [List.replicate_succ, List.foldl_cons]
        exact ih
  rw [hzeros, decode]

end Decimal
