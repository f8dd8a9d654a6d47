import SyLog.Event
import SyLog.Library.Decimal

set_option autoImplicit false

/-! # What `std::format` writes for integers

`formatNat` writes digits only, the first of them not a zero unless it is the only one, and a reader
gets the number back. -/

namespace SyLog

open Decimal

theorem formatNat_of_ne_zero {n : Nat} (hn : n ≠ 0) :
    formatNat n = (Nat.digits 10 n).reverse.map digitByte := by
  rw [formatNat, if_neg hn]
  rfl

/-- **Numerals are read back.** -/
theorem decode_formatNat (n : Nat) : decode (formatNat n) = n := by
  by_cases hn : n = 0
  · subst hn
    decide
  · rw [formatNat_of_ne_zero hn, decode_digits _ (fun d hd => Nat.digits_lt_base (by omega) hd),
      Nat.ofDigits_digits]

theorem formatNat_injective : Function.Injective formatNat := by
  intro m n h
  rw [← decode_formatNat m, h, decode_formatNat n]

theorem isDigit_of_mem_formatNat {n : Nat} {b : UInt8} (hb : b ∈ formatNat n) :
    isDigit b = true := by
  by_cases hn : n = 0
  · subst hn
    rw [show formatNat 0 = [48] from rfl, List.mem_singleton] at hb
    subst hb
    decide
  · rw [formatNat_of_ne_zero hn] at hb
    obtain ⟨d, hd, rfl⟩ := List.mem_map.1 hb
    exact isDigit_digitByte d (Nat.digits_lt_base (by omega) (List.mem_reverse.1 hd))

/-- A numeral is `0`, or its first digit is not a zero. -/
theorem formatNat_leading (n : Nat) :
    formatNat n = [48] ∨ ∃ d ds, formatNat n = digitByte d :: ds ∧ 0 < d ∧ d < 10 := by
  by_cases hn : n = 0
  · exact Or.inl (by rw [hn]; rfl)
  · have hne : Nat.digits 10 n ≠ [] := Nat.digits_ne_nil_iff_ne_zero.2 hn
    have hlast := Nat.getLast_digit_ne_zero 10 hn
    have hlt : (Nat.digits 10 n).getLast hne < 10 :=
      Nat.digits_lt_base (by omega) (List.getLast_mem hne)
    refine Or.inr ⟨(Nat.digits 10 n).getLast hne,
      ((Nat.digits 10 n).dropLast).reverse.map digitByte, ?_, Nat.pos_of_ne_zero hlast, hlt⟩
    rw [formatNat_of_ne_zero hn]
    conv_lhs => rw [← List.dropLast_append_getLast hne]
    simp

/-- `std::format("\x7b\x7d", n)` for a signed integer. -/
def formatInt (n : Int) : Bytes :=
  if n < 0 then 45 :: formatNat n.natAbs else formatNat n.natAbs

theorem decodeInt_formatNat (n : Nat) : decodeInt (formatNat n) = n := by
  have hdecode := decode_formatNat n
  cases h : formatNat n with
  | nil =>
      rcases formatNat_leading n with hz | ⟨d, ds, hds, -⟩
      · exact absurd (h.symm.trans hz) (by simp)
      · exact absurd (h.symm.trans hds) (by simp)
  | cons b bs =>
      have hb : isDigit b = true := isDigit_of_mem_formatNat (n := n) (by simp [h])
      have hne : b ≠ 45 := by
        rintro rfl
        exact absurd hb (by decide)
      rw [decodeInt, if_neg hne, ← h, hdecode]

/-- Signed numerals are read back. -/
theorem decodeInt_formatInt (n : Int) : decodeInt (formatInt n) = n := by
  rw [formatInt]
  split
  · rw [decodeInt, if_pos rfl, decode_formatNat]
    omega
  · rw [decodeInt_formatNat]
    omega

/-! ## Padded numerals -/

theorem decodeInt_formatPadded (w : Nat) (n : Int) : decodeInt (formatPadded w n) = n := by
  have hdigits : ∀ k, decode (List.replicate k 48 ++ formatNat n.natAbs) = n.natAbs := by
    intro k
    rw [decode_zeros, decode_formatNat]
  rw [formatPadded]
  by_cases hn : n < 0
  · rw [if_pos hn, List.append_assoc, List.singleton_append, decodeInt, if_pos rfl, hdigits]
    omega
  · simp only [if_neg hn, List.nil_append]
    have hnonneg := hdigits (w - List.length ([] : Bytes) - (formatNat n.natAbs).length)
    -- no minus sign stands in front of a number that is not negative
    have hhead : ∀ b ∈ List.replicate (w - List.length ([] : Bytes) - (formatNat n.natAbs).length)
        48 ++ formatNat n.natAbs, b ≠ 45 := by
      intro b hb
      rcases List.mem_append.1 hb with hzero | hdigit
      · rw [List.eq_of_mem_replicate hzero]
        decide
      · intro heq
        subst heq
        exact absurd (isDigit_of_mem_formatNat hdigit) (by decide)
    generalize hl :
      List.replicate (w - List.length ([] : Bytes) - (formatNat n.natAbs).length) 48 ++
        formatNat n.natAbs = text at hnonneg hhead ⊢
    cases text with
    | nil =>
        have : n.natAbs = 0 := hnonneg.symm
        show (0 : Int) = n
        omega
    | cons b bs =>
        rw [decodeInt, if_neg (hhead b List.mem_cons_self), hnonneg]
        omega

theorem formatPadded_injective (w : Nat) : Function.Injective (formatPadded w) := by
  intro m n h
  rw [← decodeInt_formatPadded w m, h, decodeInt_formatPadded]

/-- A number of at most two digits fills two places. -/
theorem length_formatPadded_two {n : Nat} (hn : n < 100) : (formatPadded 2 n).length = 2 := by
  have hlen : (formatNat n).length ≤ 2 := by
    by_cases h0 : n = 0
    · subst h0
      decide
    · rw [formatNat_of_ne_zero h0, List.length_map, List.length_reverse,
        Nat.digits_length_le_iff (by decide)]
      exact hn
  have hneg : ¬ (n : Int) < 0 := by omega
  simp only [formatPadded, if_neg hneg, List.nil_append, List.length_append,
    List.length_replicate, List.length_nil, Int.natAbs_natCast]
  omega

end SyLog
