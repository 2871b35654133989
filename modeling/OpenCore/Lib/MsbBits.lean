/-
  File:      OpenCore/Lib/MsbBits.lean
  Subject:   Bit lists, highest bit first, as numbers, in left-aligned words and in octets.

  `num` reads a list as a number. A word of `w` bits that is filled from the left holds a list that
  is cut or padded to `w` bits (`fit`); shifting the word drops bits of the list
  (`word_shiftLeft`), shifting it right takes them (`word_shiftRight`), and an or behind the valid
  bits appends (`word_or`). Octets are eight bits each (`bits`).
-/
import Mathlib

namespace OpenCore.MsbBits

open List

/-! ## 1. Numbers -/

/-- The number with the given bits, highest first. -/
def num : List Bool → Nat
  | [] => 0
  | b :: l => b.toNat * 2 ^ l.length + num l

@[simp] theorem num_nil : num [] = 0 := rfl

@[simp] theorem num_cons (b : Bool) (l : List Bool) :
    num (b :: l) = b.toNat * 2 ^ l.length + num l := rfl

theorem num_append (l m : List Bool) : num (l ++ m) = num l * 2 ^ m.length + num m := by
  induction l with
  | nil => simp
  | cons b l ih =>
    rw [cons_append, num_cons, ih, num_cons, length_append, pow_add]
    ring

theorem num_lt (l : List Bool) : num l < 2 ^ l.length := by
  induction l with
  | nil => simp
  | cons b l ih =>
    have hb := b.toNat_lt
    rw [num_cons, length_cons, pow_succ]
    have : b.toNat * 2 ^ l.length ≤ 1 * 2 ^ l.length := Nat.mul_le_mul_right _ (by omega)
    omega

@[simp] theorem num_replicate_false (n : Nat) : num (replicate n false) = 0 := by
  induction n with
  | zero => rfl
  | succ n ih =>
    rw [replicate_succ, num_cons, ih]
    simp

theorem num_concat (l : List Bool) (b : Bool) : num (l ++ [b]) = 2 * num l + b.toNat := by
  rw [num_append, num_cons, num_nil, length_singleton]
  simp
  ring

/-- The first bits of a number of known length. -/
theorem num_div (l m : List Bool) : num (l ++ m) / 2 ^ m.length = num l := by
  rw [num_append, Nat.add_comm, Nat.add_mul_div_right _ _ (by positivity),
    Nat.div_eq_of_lt (num_lt m), Nat.zero_add]

theorem num_mod (l m : List Bool) : num (l ++ m) % 2 ^ m.length = num m := by
  rw [num_append, Nat.add_comm, Nat.add_mul_mod_self_right, Nat.mod_eq_of_lt (num_lt m)]

variable {l : List Bool}

theorem num_inj {m : List Bool} (hlen : l.length = m.length) (h : num l = num m) : l = m := by
  induction l generalizing m with
  | nil =>
    rcases m with _ | ⟨c, m⟩
    · rfl
    · simp at hlen
  | cons b l ih =>
    rcases m with _ | ⟨c, m⟩
    · simp at hlen
    · have hlen' : l.length = m.length := by simpa using hlen
      have hl := num_lt l
      have hm := num_lt m
      rw [num_cons, num_cons, hlen'] at h
      rw [hlen'] at hl
      have hbc : b = c := by
        cases b <;> cases c <;> simp at h ⊢ <;> omega
      rw [hbc, ih hlen' (by rw [hbc] at h; omega)]

/-- The lowest `n` bits of a number. -/
def ofNum : Nat → Nat → List Bool
  | 0, _ => []
  | n + 1, v => decide (v / 2 ^ n % 2 = 1) :: ofNum n v

@[simp] theorem ofNum_length (n v : Nat) : (ofNum n v).length = n := by
  induction n with
  | zero => rfl
  | succ n ih => simp [ofNum, ih]

theorem num_ofNum (n v : Nat) : num (ofNum n v) = v % 2 ^ n := by
  induction n with
  | zero => simp [ofNum, Nat.mod_one]
  | succ n ih =>
    have hbit : (decide (v / 2 ^ n % 2 = 1)).toNat = v / 2 ^ n % 2 := by
      rcases Nat.mod_two_eq_zero_or_one (v / 2 ^ n) with h | h <;> simp [h]
    rw [ofNum, num_cons, ofNum_length, ih, hbit, pow_succ, Nat.mod_mul]
    ring

theorem ofNum_num (l : List Bool) : ofNum l.length (num l) = l := by
  refine num_inj (ofNum_length _ _) ?_
  rw [num_ofNum]
  exact Nat.mod_eq_of_lt (num_lt l)

theorem num_ofNum_of_lt {n v : Nat} (h : v < 2 ^ n) : num (ofNum n v) = v := by
  rw [num_ofNum, Nat.mod_eq_of_lt h]

/-- The bits of a number in two parts. -/
theorem ofNum_add (n m a b : Nat) (hb : b < 2 ^ m) :
    ofNum (n + m) (a * 2 ^ m + b) = ofNum n a ++ ofNum m b := by
  refine num_inj (by simp) ?_
  rw [num_append, num_ofNum, num_ofNum, num_ofNum, ofNum_length, Nat.mod_eq_of_lt hb, pow_add,
    Nat.mul_comm (2 ^ n) (2 ^ m), Nat.mod_mul, Nat.add_comm (a * 2 ^ m) b,
    Nat.add_mul_mod_self_right, Nat.mod_eq_of_lt hb, Nat.add_mul_div_right _ _ (by positivity),
    Nat.div_eq_of_lt hb]
  rw [Nat.mul_comm (2 ^ m), Nat.add_comm, Nat.zero_add]

theorem ofNum_mod (n v : Nat) : ofNum n (v % 2 ^ n) = ofNum n v := by
  refine num_inj (by simp) ?_
  rw [num_ofNum, num_ofNum, Nat.mod_mod]

theorem ofNum_mod_of_le {k n : Nat} (h : k ≤ n) (w : Nat) : ofNum k (w % 2 ^ n) = ofNum k w := by
  rw [← ofNum_mod k (w % 2 ^ n), Nat.mod_mod_of_dvd _ (pow_dvd_pow 2 h), ofNum_mod]

theorem ofNum_split (n m v : Nat) : ofNum (n + m) v = ofNum n (v / 2 ^ m) ++ ofNum m v := by
  conv_lhs => rw [← Nat.div_add_mod' v (2 ^ m)]
  rw [ofNum_add n m _ _ (Nat.mod_lt _ (by positivity)), ofNum_mod]

theorem shiftRight_lt {n m v : Nat} (h : v < 2 ^ (n + m)) : v >>> m < 2 ^ n := by
  rw [Nat.shiftRight_eq_div_pow]
  exact Nat.div_lt_of_lt_mul (by rwa [← pow_add, Nat.add_comm])

/-- Bits put at the low end of a number. -/
theorem ofNum_or (k w : Nat) {n v : Nat} (hv : v < 2 ^ n) :
    ofNum (k + n) (w <<< n ||| v) = ofNum k w ++ ofNum n v := by
  rw [← Nat.shiftLeft_add_eq_or_of_lt hv, Nat.shiftLeft_eq, ofNum_add k n w v hv]

/-! ## 2. Words filled from the left -/

/-- A list cut or padded with zeros to `w` bits. -/
def fit (w : Nat) (l : List Bool) : List Bool := (l ++ List.replicate w false).take w

@[simp] theorem fit_length (w : Nat) (l : List Bool) : (fit w l).length = w := by
  simp [fit]

variable {w : Nat}

theorem fit_eq_take (h : w ≤ l.length) : fit w l = l.take w := by
  rw [fit, take_append_of_le_length h]

theorem fit_eq_append (h : l.length ≤ w) :
    fit w l = l ++ replicate (w - l.length) false := by
  rw [fit, take_append, take_of_length_le h, take_replicate]
  congr 2
  omega

/-- Fitting twice is fitting to the shorter length. -/
theorem take_fit {n : Nat} (h : n ≤ w) (l : List Bool) : (fit w l).take n = fit n l := by
  rw [fit, fit, take_take, Nat.min_eq_left h]
  rcases Nat.le_total n l.length with hn | hn
  · rw [take_append_of_le_length hn, take_append_of_le_length hn]
  · rw [take_append, take_append, take_replicate, take_replicate]
    congr 2
    omega

/-- The word of `w` bits that is filled with a list from the left. -/
def word (w : Nat) (l : List Bool) : Nat := num (fit w l)

theorem word_lt (w : Nat) (l : List Bool) : word w l < 2 ^ w := by
  have h := num_lt (fit w l)
  rw [fit_length] at h
  exact h

@[simp] theorem word_nil (w : Nat) : word w [] = 0 := by
  rw [word, fit_eq_append (Nat.zero_le w), nil_append, num_replicate_false]

theorem word_shiftRight {n : Nat} (h : n ≤ w) (l : List Bool) :
    word w l >>> (w - n) = num (fit n l) := by
  have hlen : ((fit w l).drop n).length = w - n := by rw [length_drop, fit_length]
  have hs : fit w l = (fit w l).take n ++ (fit w l).drop n := (take_append_drop n _).symm
  rw [word, Nat.shiftRight_eq_div_pow, hs, ← hlen, num_div, take_fit h]

/-- Bits shifted out of a word on the left. -/
theorem word_shiftLeft {n : Nat} (hl : l.length ≤ w) :
    (word w l <<< n) % 2 ^ w = word w (l.drop n) := by
  have hz : word w l <<< n = num (fit w l ++ replicate n false) := by
    rw [num_append, num_replicate_false, length_replicate, Nat.shiftLeft_eq]
    rfl
  have hs : fit w l ++ replicate n false =
      (fit w l).take n ++ ((fit w l).drop n ++ replicate n false) := by
    rw [← append_assoc, take_append_drop]
  rcases Nat.le_total n w with hn | hn
  · have hlen : ((fit w l).drop n ++ replicate n false).length = w := by
      rw [length_append, length_drop, fit_length, length_replicate]
      omega
    have hmod : num (fit w l ++ replicate n false) % 2 ^ w =
        num ((fit w l).drop n ++ replicate n false) := by
      rw [hs]
      have := num_mod ((fit w l).take n) ((fit w l).drop n ++ replicate n false)
      rw [hlen] at this
      exact this
    rw [hz, hmod, word]
    congr 1
    rw [fit_eq_append hl, fit_eq_append (by rw [length_drop]; omega), drop_append,
      append_assoc, drop_replicate, replicate_append_replicate, length_drop]
    congr 2
    omega
  · have hdrop : l.drop n = [] := drop_of_length_le (by omega)
    have hlen : (fit w l ++ replicate (n - w) false ++ replicate w false) =
        fit w l ++ replicate n false := by
      rw [append_assoc, replicate_append_replicate]
      congr 2
      omega
    have hmod := num_mod (fit w l ++ replicate (n - w) false) (replicate w false)
    rw [length_replicate, hlen, num_replicate_false] at hmod
    rw [hz, hmod, hdrop, word_nil]

theorem word_or (hl : l.length ≤ w) (m : List Bool) :
    word w l ||| (word w m >>> l.length) = word w (l ++ m) := by
  have hl' : word w l = num l <<< (w - l.length) := by
    rw [word, fit_eq_append hl, num_append, num_replicate_false, length_replicate,
      Nat.shiftLeft_eq, Nat.add_zero]
  have hm : word w m >>> l.length = num (fit (w - l.length) m) := by
    have := word_shiftRight (Nat.sub_le w l.length) m
    rw [Nat.sub_sub_self hl] at this
    exact this
  have hlt : num (fit (w - l.length) m) < 2 ^ (w - l.length) := by
    have := num_lt (fit (w - l.length) m)
    rw [fit_length] at this
    exact this
  have hfit : fit w (l ++ m) = l ++ fit (w - l.length) m := by
    rw [fit, append_assoc, take_append, take_of_length_le hl, fit,
      take_append, take_append, take_replicate, take_replicate]
    congr 3
    omega
  rw [hl', hm, ← Nat.shiftLeft_add_eq_or_of_lt hlt, word, hfit, num_append, fit_length,
    Nat.shiftLeft_eq]

/-! ## 3. Octets -/

/-- The bits of an octet. -/
def octetBits (b : UInt8) : List Bool := ofNum 8 b.toNat

@[simp] theorem octetBits_length (b : UInt8) : (octetBits b).length = 8 := ofNum_length _ _

theorem num_octetBits (b : UInt8) : num (octetBits b) = b.toNat := by
  rw [octetBits, num_ofNum]
  exact Nat.mod_eq_of_lt b.toNat_lt

/-- The octet of eight bits. -/
def octet (l : List Bool) : UInt8 := UInt8.ofNat (num (l.take 8))

theorem octetBits_octet (h : l.length = 8) : octetBits (octet l) = l := by
  have htake : l.take 8 = l := take_of_length_le (by omega)
  have hlt : num l < 256 := by
    have := num_lt l
    rw [h] at this
    exact this
  refine num_inj (by rw [octetBits_length, h]) ?_
  rw [num_octetBits, octet, htake, UInt8.toNat_ofNat_of_lt' hlt]

theorem octet_octetBits (b : UInt8) : octet (octetBits b) = b := by
  rw [octet, take_of_length_le (by simp), num_octetBits]
  exact UInt8.ofNat_toNat

/-- The bits of octets, one after another. -/
def bits (octets : List UInt8) : List Bool := octets.flatMap octetBits

@[simp] theorem bits_nil : bits [] = [] := rfl

@[simp] theorem bits_cons (b : UInt8) (l : List UInt8) : bits (b :: l) = octetBits b ++ bits l :=
  rfl

@[simp] theorem bits_append (l m : List UInt8) : bits (l ++ m) = bits l ++ bits m :=
  flatMap_append

@[simp] theorem bits_length (l : List UInt8) : (bits l).length = 8 * l.length := by
  induction l with
  | nil => rfl
  | cons b l ih =>
    rw [bits_cons, length_append, octetBits_length, ih, length_cons]
    ring

theorem bits_drop (l : List UInt8) (n : Nat) : bits (l.drop n) = (bits l).drop (8 * n) := by
  induction n generalizing l with
  | zero => simp
  | succ n ih =>
    rcases l with _ | ⟨b, l⟩
    · simp
    · have h8 : 8 * (n + 1) = (octetBits b).length + 8 * n := by simp; ring
      rw [drop_succ_cons, ih, bits_cons, h8, drop_append]
      simp

theorem bits_take (l : List UInt8) (n : Nat) : bits (l.take n) = (bits l).take (8 * n) := by
  have h1 : bits (l.take n) ++ bits (l.drop n) = bits l := by
    rw [← bits_append, take_append_drop]
  rcases Nat.le_total n l.length with hn | hn
  · have hlen : (bits (l.take n)).length = 8 * n := by
      rw [bits_length, length_take, Nat.min_eq_left hn]
    rw [← h1, take_left' hlen]
  · rw [take_of_length_le hn, take_of_length_le (by rw [bits_length]; omega)]

/-- Whole octets of bits come from octets. -/
theorem exists_bits {n : Nat} (h : l.length = 8 * n) : ∃ r, bits r = l := by
  induction n generalizing l with
  | zero => exact ⟨[], (length_eq_zero_iff.mp h).symm⟩
  | succ n ih =>
    obtain ⟨r, hr⟩ := ih (l := l.drop 8) (by rw [length_drop]; omega)
    have h8 : (l.take 8).length = 8 := by
      rw [length_take]
      omega
    refine ⟨octet (l.take 8) :: r, ?_⟩
    show octetBits (octet (l.take 8)) ++ bits r = l
    rw [octetBits_octet h8, hr, take_append_drop]

/-- The first octet's bits, as a number. -/
theorem num_bits_cons (b : UInt8) (l : List UInt8) :
    num (bits (b :: l)) = b.toNat * 2 ^ (8 * l.length) + num (bits l) := by
  rw [bits_cons, num_append, bits_length, num_octetBits]

theorem bits_inj {l m : List UInt8} (h : bits l = bits m) : l = m := by
  induction l generalizing m with
  | nil =>
    cases m with
    | nil => rfl
    | cons c m => exact absurd (congrArg length h) (by simp; omega)
  | cons b l ih =>
    cases m with
    | nil => exact absurd (congrArg length h) (by simp)
    | cons c m =>
      obtain ⟨hfirst, hrest⟩ := append_inj h (by rw [octetBits_length, octetBits_length])
      rw [← octet_octetBits b, ← octet_octetBits c, hfirst, ih hrest]

end OpenCore.MsbBits
