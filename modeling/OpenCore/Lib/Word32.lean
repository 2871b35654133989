/-
  File:      OpenCore/Lib/Word32.lean
  Subject:   32-bit unsigned arithmetic on natural numbers.

  A `uint32` is a natural number below `2^32`; the operations reduce their result. `omega` decides
  goals about them once they are unfolded (`add32`, `sub32`, `mul32`); they are irreducible, so that
  no unifier counts to `2^32`.
-/
import Mathlib

namespace OpenCore

/-- `a + b` in 32 bits. -/
@[irreducible] def add32 (a b : Nat) : Nat := (a + b) % 4294967296

/-- `a - b` in 32 bits. -/
@[irreducible] def sub32 (a b : Nat) : Nat := (((a : Int) - b) % 4294967296).toNat

/-- `a * b` in 32 bits. -/
@[irreducible] def mul32 (a b : Nat) : Nat := (a * b) % 4294967296

theorem add32_lt (a b : Nat) : add32 a b < 4294967296 := by unfold add32; omega

theorem sub32_lt (a b : Nat) : sub32 a b < 4294967296 := by unfold sub32; omega

theorem mul32_lt (a b : Nat) : mul32 a b < 4294967296 := by
  unfold mul32
  exact Nat.mod_lt _ (by decide)

theorem add32_eq {a b : Nat} (h : a + b < 4294967296) : add32 a b = a + b := by
  unfold add32
  exact Nat.mod_eq_of_lt h

/-- A reduced summand gives the same sum. -/
theorem add32_mod (a b : Nat) : add32 (a % 4294967296) b = (a + b) % 4294967296 := by
  unfold add32
  exact Nat.mod_add_mod a 4294967296 b

/-- No borrow: the difference is the difference. -/
theorem sub32_eq {a b : Nat} (hb : b ≤ a) (ha : a < 4294967296) : sub32 a b = a - b := by
  unfold sub32; omega

theorem mul32_eq {a b : Nat} (h : a * b < 4294967296) : mul32 a b = a * b := by
  unfold mul32
  exact Nat.mod_eq_of_lt h

/-! ## Signed words -/

/-- The bits of a natural number read as an `int32`. -/
@[irreducible] def toInt32 (n : Nat) : Int :=
  if n % 4294967296 < 2147483648 then (n % 4294967296 : Nat)
  else (n % 4294967296 : Nat) - 4294967296

/-- The bits of an integer read as a `uint32`. -/
@[irreducible] def toUInt32 (x : Int) : Nat := (x % 4294967296).toNat

/-- `a + b` in `int32`s, as the machine wraps it. -/
@[irreducible] def addInt32 (a b : Int) : Int :=
  (a + b + 2147483648) % 4294967296 - 2147483648

theorem addInt32_eq {a b : Int} (h0 : -2147483648 ≤ a + b) (h : a + b < 2147483648) :
    addInt32 a b = a + b := by
  unfold addInt32
  omega

/-- A sum past the largest `int32` comes out negative. -/
theorem addInt32_overflow {a b : Int} (h : 2147483648 ≤ a + b) (h' : a + b < 4294967296) :
    addInt32 a b = a + b - 4294967296 := by
  unfold addInt32
  omega

theorem toInt32_eq {n : Nat} (h : n < 2147483648) : toInt32 n = n := by
  unfold toInt32
  rw [Nat.mod_eq_of_lt (by omega), if_pos h]

theorem toUInt32_toInt32 (n : Nat) : toUInt32 (toInt32 n) = n % 4294967296 := by
  unfold toUInt32 toInt32
  split <;> omega

theorem toUInt32_eq {x : Int} (h0 : 0 ≤ x) (h : x < 4294967296) : toUInt32 x = x.toNat := by
  unfold toUInt32
  omega

end OpenCore
