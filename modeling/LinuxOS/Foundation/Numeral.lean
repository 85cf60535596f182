import Mathlib.Data.Nat.Digits.Lemmas

/-!
# Numerals

Digits in a base, the most significant one first.  Every number has exactly one
numeral without leading zeros, and repeated division finds it backwards.
-/

namespace LinuxOS.Foundation

def valueOf (base : Nat) (digits : List Nat) : Nat :=
  digits.foldl (fun value digit => value * base + digit) 0

theorem valueOf_eq_ofDigits (base : Nat) (digits : List Nat) :
    valueOf base digits = Nat.ofDigits base digits.reverse := by
  induction digits using List.reverseRecOn with
  | nil => rfl
  | append_singleton digits digit ih =>
      have hlast : valueOf base (digits ++ [digit]) = valueOf base digits * base + digit := by
        rw [valueOf, List.foldl_append]
        rfl
      rw [hlast, ih, List.reverse_append, List.reverse_singleton, List.singleton_append,
        Nat.ofDigits_cons, Nat.mul_comm, Nat.add_comm]

theorem valueOf_zero (base : Nat) : valueOf base [0] = 0 := by
  rw [valueOf_eq_ofDigits, List.reverse_singleton, Nat.ofDigits_singleton]

theorem valueOf_zeros (base count : Nat) (digits : List Nat) :
    valueOf base (List.replicate count 0 ++ digits) = valueOf base digits := by
  rw [valueOf_eq_ofDigits, valueOf_eq_ofDigits, List.reverse_append, List.reverse_replicate,
    Nat.ofDigits_append_replicate_zero]

structure Canonical (base : Nat) (digits : List Nat) : Prop where
  lt : ∀ digit ∈ digits, digit < base
  nonempty : digits ≠ []
  leading : digits.head? = some 0 → digits = [0]

def numeral (base n : Nat) : List Nat :=
  if n = 0 then [0] else (Nat.digits base n).reverse

theorem numeral_zero (base : Nat) : numeral base 0 = [0] := rfl

theorem numeral_of_ne_zero (base : Nat) {n : Nat} (h : n ≠ 0) :
    numeral base n = (Nat.digits base n).reverse := if_neg h

theorem valueOf_numeral (base n : Nat) : valueOf base (numeral base n) = n := by
  by_cases hzero : n = 0
  · rw [hzero, numeral_zero, valueOf_zero]
  · rw [numeral_of_ne_zero base hzero, valueOf_eq_ofDigits, List.reverse_reverse,
      Nat.ofDigits_digits]

section Base

variable {base : Nat} (hbase : 1 < base)

include hbase

theorem canonical_numeral (n : Nat) : Canonical base (numeral base n) := by
  by_cases hzero : n = 0
  · rw [hzero]
    refine ⟨fun digit hdigit => ?_, List.cons_ne_nil _ _, fun _ => rfl⟩
    rw [List.mem_singleton.mp hdigit]
    exact Nat.lt_of_succ_lt hbase
  · have hdigits : Nat.digits base n ≠ [] := Nat.digits_ne_nil_iff_ne_zero.mpr hzero
    rw [numeral_of_ne_zero base hzero]
    refine ⟨fun digit hdigit => Nat.digits_lt_base hbase (List.mem_reverse.mp hdigit),
      List.reverse_ne_nil_iff.mpr hdigits, fun hhead => ?_⟩
    rw [List.head?_reverse, List.getLast?_eq_some_getLast hdigits, Option.some.injEq] at hhead
    exact absurd hhead (Nat.getLast_digit_ne_zero base hzero)

theorem Canonical.eq_numeral {digits : List Nat} (h : Canonical base digits) :
    digits = numeral base (valueOf base digits) := by
  by_cases hzero : digits.head? = some 0
  · rw [h.leading hzero, valueOf_zero, numeral_zero]
  · have hreversed : digits.reverse ≠ [] := List.reverse_ne_nil_iff.mpr h.nonempty
    have hlast : digits.reverse.getLast hreversed ≠ 0 := by
      intro hlast
      refine hzero ?_
      rw [← List.getLast?_reverse, List.getLast?_eq_some_getLast hreversed, hlast]
    have hdigits : Nat.digits base (Nat.ofDigits base digits.reverse) = digits.reverse :=
      Nat.digits_ofDigits base hbase digits.reverse
        (fun digit hdigit => h.lt digit (List.mem_reverse.mp hdigit)) fun _ => hlast
    have hvalue : valueOf base digits ≠ 0 := by
      rw [valueOf_eq_ofDigits]
      intro hnone
      rw [hnone, Nat.digits_zero] at hdigits
      exact hreversed hdigits.symm
    rw [numeral_of_ne_zero base hvalue, valueOf_eq_ofDigits, hdigits, List.reverse_reverse]

theorem length_numeral_le {n count : Nat} (hcount : 0 < count) (h : n < base ^ count) :
    (numeral base n).length ≤ count := by
  by_cases hzero : n = 0
  · rw [hzero]
    exact hcount
  · rw [numeral_of_ne_zero base hzero, List.length_reverse]
    exact (Nat.digits_length_le_iff hbase n).mpr h

end Base

end LinuxOS.Foundation
