/-
  File:      OpenCore/Lib/Bits.lean
  Subject:   Bit lists, lowest bit first, in registers and in octets.

  A register with `n` valid bits is a number below `2^n`; appending, shifting out and masking bits
  are the list operations on its bits (`or_shiftLeft`, `val_shiftRight`, `val_and`). A stream of
  bits is packed into octets, the bits of an unfinished octet staying behind (`packed_append`).
-/
import OpenCore.Lib.MsbBits

namespace OpenCore.Bits

open List

/-! ## 1. Registers -/

/-- The number with the given bits, lowest first. -/
def val : List Bool → Nat
  | [] => 0
  | b :: l => b.toNat + 2 * val l

@[simp] theorem val_nil : val [] = 0 := rfl

@[simp] theorem val_cons (b : Bool) (l : List Bool) : val (b :: l) = b.toNat + 2 * val l := rfl

theorem val_eq (l : List Bool) : val l = MsbBits.num l.reverse := by
  induction l with
  | nil => rfl
  | cons b l ih => rw [val_cons, ih, reverse_cons, MsbBits.num_concat, Nat.add_comm]

theorem val_lt (l : List Bool) : val l < 2 ^ l.length := by
  rw [val_eq, ← length_reverse]
  exact MsbBits.num_lt _

theorem val_append (l m : List Bool) : val (l ++ m) = val l + 2 ^ l.length * val m := by
  rw [val_eq, reverse_append, MsbBits.num_append, ← val_eq, ← val_eq, length_reverse]
  ring

theorem or_shiftLeft (l m : List Bool) : val l ||| (val m <<< l.length) = val (l ++ m) := by
  have h := Nat.shiftLeft_add_eq_or_of_lt (val_lt l) (val m)
  rw [Nat.or_comm, ← h, val_append, Nat.shiftLeft_eq]
  ring

theorem val_shiftRight (n : Nat) (l : List Bool) : val l >>> n = val (l.drop n) := by
  induction n generalizing l with
  | zero => simp
  | succ n ih =>
    rw [Nat.add_comm, Nat.shiftRight_add]
    rcases l with _ | ⟨b, l⟩
    · simp
    · have hb := b.toNat_lt
      have hhalf : val (b :: l) >>> 1 = val l := by
        rw [val_cons, Nat.shiftRight_one]
        omega
      rw [hhalf, ih, Nat.add_comm 1 n, drop_succ_cons]

theorem val_mod (n : Nat) (l : List Bool) : val l % 2 ^ n = val (l.take n) := by
  have h := val_append (l.take n) (l.drop n)
  rw [take_append_drop] at h
  rcases Nat.le_total n l.length with hn | hn
  · have hlen : (l.take n).length = n := by simp [hn]
    have hlt := val_lt (l.take n)
    rw [hlen] at hlt
    rw [h, hlen, Nat.add_mul_mod_self_left]
    exact Nat.mod_eq_of_lt hlt
  · rw [take_of_length_le hn]
    exact Nat.mod_eq_of_lt (lt_of_lt_of_le (val_lt l) (Nat.pow_le_pow_right (by decide) hn))

theorem val_and (n : Nat) (l : List Bool) : val l &&& (2 ^ n - 1) = val (l.take n) := by
  rw [Nat.and_two_pow_sub_one_eq_mod, val_mod]

variable {l : List Bool}

/-- The bits of a register of known length. -/
theorem val_inj {m : List Bool} (hlen : l.length = m.length) (h : val l = val m) : l = m := by
  rw [val_eq, val_eq] at h
  exact reverse_injective (MsbBits.num_inj (by simpa using hlen) h)

/-- The lowest `n` bits of a number. -/
def ofNat : Nat → Nat → List Bool
  | 0, _ => []
  | n + 1, v => decide (v % 2 = 1) :: ofNat n (v / 2)

@[simp] theorem ofNat_length (n v : Nat) : (ofNat n v).length = n := by
  induction n generalizing v with
  | zero => rfl
  | succ n ih => simp [ofNat, ih]

theorem val_ofNat (n v : Nat) : val (ofNat n v) = v % 2 ^ n := by
  induction n generalizing v with
  | zero => simp [ofNat, Nat.mod_one]
  | succ n ih =>
    rw [ofNat, val_cons, ih, pow_succ, Nat.mul_comm (2 ^ n) 2, Nat.mod_mul]
    by_cases h : v % 2 = 1
    · simp [h]
    · have h0 : v % 2 = 0 := by omega
      simp [h0]

/-! ## 2. Octets -/

/-- The bits of an octet. -/
def octetBits (b : UInt8) : List Bool := ofNat 8 b.toNat

/-- The octet of the first eight bits. -/
def octet (l : List Bool) : UInt8 := UInt8.ofNat (val (l.take 8))

@[simp] theorem octetBits_length (b : UInt8) : (octetBits b).length = 8 := ofNat_length _ _

theorem val_octetBits (b : UInt8) : val (octetBits b) = b.toNat := by
  rw [octetBits, val_ofNat]
  exact Nat.mod_eq_of_lt b.toNat_lt

theorem octet_octetBits (b : UInt8) (l : List Bool) : octet (octetBits b ++ l) = b := by
  have htake : (octetBits b ++ l).take 8 = octetBits b := take_left' (octetBits_length b)
  rw [octet, htake, val_octetBits]
  exact UInt8.ofNat_toNat

theorem octetBits_octet (h : l.length = 8) : octetBits (octet l) = l := by
  have htake : l.take 8 = l := take_of_length_le (by omega)
  have hlt : val l < 256 := by
    have := val_lt l
    rw [h] at this
    exact this
  refine val_inj (by rw [octetBits_length, h]) ?_
  rw [val_octetBits, octet, htake, UInt8.toNat_ofNat_of_lt' hlt]

/-- The bits of octets, one after another. -/
def bits (octets : List UInt8) : List Bool := octets.flatMap octetBits

@[simp] theorem bits_nil : bits [] = [] := rfl

@[simp] theorem bits_cons (b : UInt8) (octets : List UInt8) :
    bits (b :: octets) = octetBits b ++ bits octets := rfl

@[simp] theorem bits_append (octets more : List UInt8) :
    bits (octets ++ more) = bits octets ++ bits more := by
  simp [bits]

@[simp] theorem bits_length (octets : List UInt8) : (bits octets).length = 8 * octets.length := by
  induction octets with
  | nil => rfl
  | cons b octets ih => simp [ih]; omega

/-- The full octets of a bit list: `n` of them. -/
def packN : Nat → List Bool → List UInt8
  | 0, _ => []
  | n + 1, l => octet l :: packN n (l.drop 8)

/-- The octets that a bit list fills. -/
def packed (l : List Bool) : List UInt8 := packN (l.length / 8) l

/-- The bits of the octet that is not filled. -/
def rest (l : List Bool) : List Bool := l.drop (8 * (l.length / 8))

theorem bits_packN {n : Nat} (h : 8 * n ≤ l.length) :
    bits (packN n l) = l.take (8 * n) := by
  induction n generalizing l with
  | zero => simp [packN]
  | succ n ih =>
    have hoct : octetBits (octet l) = l.take 8 := by
      have := octetBits_octet (l := l.take 8) (by simp; omega)
      rwa [octet, take_take, Nat.min_self] at this
    rw [packN, bits_cons, ih (by simp; omega), hoct, ← take_add]
    congr 1
    omega

/-- The octets and the bits left over are the bits. -/
theorem bits_packed (l : List Bool) : bits (packed l) ++ rest l = l := by
  rw [packed, bits_packN (by omega), rest, take_append_drop]

theorem rest_length (l : List Bool) : (rest l).length = l.length % 8 := by
  rw [rest, length_drop]
  omega

theorem rest_length_lt (l : List Bool) : (rest l).length < 8 := by
  rw [rest_length]
  omega

theorem packed_length (l : List Bool) : (packed l).length = l.length / 8 := by
  have := congrArg length (bits_packed l)
  rw [length_append, bits_length, rest_length] at this
  omega

theorem packed_cons (h : 8 ≤ l.length) :
    packed l = octet l :: packed (l.drop 8) := by
  have hn : l.length / 8 = (l.drop 8).length / 8 + 1 := by simp; omega
  rw [packed, hn, packN, packed]

theorem packed_of_lt (h : l.length < 8) : packed l = [] := by
  rw [packed, Nat.div_eq_of_lt h, packN]

theorem rest_of_lt (h : l.length < 8) : rest l = l := by
  rw [rest, Nat.div_eq_of_lt h, Nat.mul_zero, drop_zero]

theorem rest_drop (h : 8 ≤ l.length) : rest (l.drop 8) = rest l := by
  rw [rest, rest, drop_drop, length_drop]
  congr 1
  omega

section

variable (octets : List UInt8)
include octets

theorem packed_bits_append (l : List Bool) :
    packed (bits octets ++ l) = octets ++ packed l := by
  induction octets with
  | nil => rfl
  | cons b octets ih =>
    rw [bits_cons, append_assoc, packed_cons (by simp), octet_octetBits,
      drop_left' (octetBits_length b), ih, cons_append]

theorem rest_bits_append (l : List Bool) :
    rest (bits octets ++ l) = rest l := by
  induction octets with
  | nil => rfl
  | cons b octets ih =>
    have hlen : 8 ≤ (octetBits b ++ (bits octets ++ l)).length := by simp
    rw [bits_cons, append_assoc, ← rest_drop hlen, drop_left' (octetBits_length b), ih]

theorem packed_bits : packed (bits octets) = octets := by
  have h := packed_bits_append octets []
  have hnil : packed [] = [] := rfl
  rwa [hnil, append_nil, append_nil] at h

theorem rest_bits : rest (bits octets) = [] := by
  have h := rest_bits_append octets []
  rwa [append_nil] at h

end

/-- A stream packed in two steps: the bits left over go in front of the next ones. -/
theorem packed_append (l m : List Bool) : packed (l ++ m) = packed l ++ packed (rest l ++ m) := by
  conv_lhs => rw [← bits_packed l, append_assoc]
  exact packed_bits_append (packed l) (rest l ++ m)

theorem rest_append (l m : List Bool) : rest (l ++ m) = rest (rest l ++ m) := by
  conv_lhs => rw [← bits_packed l, append_assoc]
  exact rest_bits_append (packed l) (rest l ++ m)

end OpenCore.Bits
