import Mathlib.Data.UInt
import Mathlib.Tactic.Ring

/-!
# Unsigned LEB128

A number as groups of seven bits, the least significant first; every byte but the last has its high
bit set. An encoding need not be the shortest one.
-/

namespace ProvenGraphcal.Leb128

/-- The number that the groups of `bytes` stand for. -/
def value : List UInt8 → ℕ
  | [] => 0
  | byte :: rest => byte.toNat % 128 + 128 * value rest

/-- The last byte, and no other, ends the number. -/
inductive Terminated : List UInt8 → Prop
  | last {byte : UInt8} (h : byte.toNat < 128) : Terminated [byte]
  | continued {byte : UInt8} {rest : List UInt8} (h : 128 ≤ byte.toNat)
      (hrest : Terminated rest) : Terminated (byte :: rest)

theorem Terminated.length_pos {bytes : List UInt8} (h : Terminated bytes) : 0 < bytes.length := by
  cases h with
  | last h => exact Nat.one_pos
  | continued h hrest => exact Nat.succ_pos _

/-- A number ends in one place. -/
theorem Terminated.eq_of_append {a b x y : List UInt8} (ha : Terminated a) (hb : Terminated b)
    (h : a ++ x = b ++ y) : a = b := by
  induction ha generalizing b with
  | last hlast =>
    cases hb with
    | last h' =>
      rw [List.singleton_append, List.singleton_append, List.cons.injEq] at h
      rw [h.1]
    | continued h' hrest =>
      rw [List.singleton_append, List.cons_append, List.cons.injEq] at h
      rw [h.1] at hlast
      omega
  | continued hbyte hrest ih =>
    cases hb with
    | last h' =>
      rw [List.singleton_append, List.cons_append, List.cons.injEq] at h
      rw [h.1] at hbyte
      omega
    | continued h' hrest' =>
      rw [List.cons_append, List.cons_append, List.cons.injEq] at h
      rw [h.1, ih hrest' h.2]

/-- `bytes` encode the number `n` of `width` bits, in no more groups than these bits need. -/
structure Encodes (width : ℕ) (bytes : List UInt8) (n : ℕ) : Prop where
  terminated : Terminated bytes
  length_le : bytes.length ≤ (width + 6) / 7
  value_eq : value bytes = n
  lt : n < 2 ^ width

end ProvenGraphcal.Leb128
