/-
  File:      OpenCore/OsclBase/StringUtils.lean
  Subject:   `PV_atoi` (oscl_string_utils.cpp): which digit strings it accepts, and with which
             number.

  The number is kept in 32 or 64 bits, and the code takes an overflow to be a digit that makes it
  smaller. A digit may wrap the number around and make it greater all the same; the string is then
  accepted with the number it denotes less a multiple of `2 ^ w`.

  **Main result**: `atoi_right_iff`.
-/
import Mathlib

namespace OpenCore.OsclBase

open List

/-! ## 1. The code -/

/-- The chain of comparisons for format `x`. -/
def hexDigit (c : UInt8) : Option Nat :=
  if c = 97 ∨ c = 65 then some 10
  else if c = 98 ∨ c = 66 then some 11
  else if c = 99 ∨ c = 67 then some 12
  else if c = 100 ∨ c = 68 then some 13
  else if c = 101 ∨ c = 69 then some 14
  else if c = 102 ∨ c = 70 then some 15
  else if 48 ≤ c ∧ c ≤ 57 then some (c.toNat - 48)
  else none

/-- The comparison for the other formats. -/
def decDigit (c : UInt8) : Option Nat :=
  if 48 ≤ c ∧ c ≤ 57 then some (c.toNat - 48) else none

/-- `'x'`. -/
def formatHex : UInt8 := 120

/-- `'d'`. -/
def formatDec : UInt8 := 100

/-- The loop of `PV_atoi` over the characters left, with the result in `w` bits. -/
def atoiLoop (w base : Nat) (digit : UInt8 → Option Nat) : List UInt8 → Nat → Bool × Nat
  | [], value => (true, value)
  | c :: chars, value =>
    match digit c with
    | none => (false, value)
    | some temp =>
      let old := value
      let value := (value * base + temp) % 2 ^ w
      -- overflow
      if value < old then (false, value) else atoiLoop w base digit chars value

/-- The characters the loop reads, the terminator among them where the length is beyond it. -/
def charsRead (buf : List UInt8) (length : Int) : List UInt8 := (buf ++ [0]).take length.toNat

/-- `PV_atoi` of a string behind which there is a terminator, and no string where the pointer is
    `NULL`: what it returns, and `value`. -/
def PV_atoi (w : Nat) (buf : Option (List UInt8)) (new_format : UInt8) (length : Int) :
    Bool × Nat :=
  match buf with
  | none => (false, 0)
  | some buf =>
    if new_format = formatHex then atoiLoop w 16 hexDigit (charsRead buf length) 0
    else if new_format = formatDec then atoiLoop w 10 decDigit (charsRead buf length) 0
    else atoiLoop w 10 decDigit (charsRead buf length) 0

/-- The overload with a `uint32`. -/
def PV_atoi32 : Option (List UInt8) → UInt8 → Int → Bool × Nat := PV_atoi 32

/-- The overload with a `uint64`. -/
def PV_atoi64 : Option (List UInt8) → UInt8 → Int → Bool × Nat := PV_atoi 64

/-! ## 2. What it is for -/

/-- The base a format stands for. -/
def baseOf (new_format : UInt8) : Nat := if new_format = formatHex then 16 else 10

/-- The digit a character is in the base of a format. -/
def digitOf (new_format : UInt8) : UInt8 → Option Nat :=
  if new_format = formatHex then hexDigit else decDigit

/-- The number digits denote. -/
def number (base : Nat) (digits : List Nat) : Nat := digits.foldl (fun n d => n * base + d) 0

/-- **The answer is right**: the string is accepted where its characters are digits of a number
    that fits `w` bits, and then with this number. -/
def AtoiRight (w base : Nat) (digit : UInt8 → Option Nat) (chars : List UInt8) (r : Bool × Nat) :
    Prop :=
  (r.1 = true ↔ ∃ digits, chars.mapM digit = some digits ∧ number base digits < 2 ^ w) ∧
    (r.1 = true → ∀ digits, chars.mapM digit = some digits → r.2 = number base digits)

/-- Some digit makes the number smaller, in `w` bits. -/
def Drops (w base : Nat) (digits : List Nat) : Prop :=
  ∃ k < digits.length,
    number base (digits.take (k + 1)) % 2 ^ w < number base (digits.take k) % 2 ^ w

/-! ## 3. When it is right -/

section Right

variable {w base : Nat} {digit : UInt8 → Option Nat}

theorem number_append_singleton (digits : List Nat) (d : Nat) :
    number base (digits ++ [d]) = number base digits * base + d := by
  unfold number
  rw [foldl_append]
  rfl

theorem number_step_mod (digits : List Nat) (d : Nat) :
    (number base digits % 2 ^ w * base + d) % 2 ^ w = number base (digits ++ [d]) % 2 ^ w := by
  rw [number_append_singleton, Nat.add_mod, Nat.mul_mod, Nat.mod_mod, ← Nat.mul_mod,
    ← Nat.add_mod]

theorem number_take_le (hbase : 0 < base) (digits : List Nat) (k : Nat) :
    number base (digits.take k) ≤ number base (digits.take (k + 1)) := by
  by_cases hk : k < digits.length
  · rw [take_succ_eq_append_getElem hk, number_append_singleton]
    have hmul := Nat.le_mul_of_pos_right (number base (digits.take k)) hbase
    omega
  · rw [take_of_length_le (Nat.le_of_not_lt hk), take_of_length_le (by omega)]

theorem number_take_le_number (hbase : 0 < base) (digits : List Nat) (k : Nat) :
    number base (digits.take k) ≤ number base digits := by
  have hmono : Monotone fun k => number base (digits.take k) :=
    monotone_nat_of_le_succ (number_take_le hbase digits)
  have hle := hmono (Nat.le_max_left k digits.length)
  dsimp only at hle
  rwa [take_of_length_le (Nat.le_max_right k digits.length)] at hle

theorem not_drops_of_fits (hbase : 0 < base) {digits : List Nat}
    (h : number base digits < 2 ^ w) : ¬ Drops w base digits := by
  rintro ⟨k, -, hlt⟩
  rw [Nat.mod_eq_of_lt ((number_take_le_number hbase digits (k + 1)).trans_lt h),
    Nat.mod_eq_of_lt ((number_take_le_number hbase digits k).trans_lt h)] at hlt
  exact absurd (number_take_le hbase digits k) (Nat.not_le.mpr hlt)

/-- **The loop**, behind digits already read: it goes through to the end where all characters are
    digits and none of them makes the number smaller. -/
theorem atoiLoop_spec (front : List Nat) (chars : List UInt8) :
    ((atoiLoop w base digit chars (number base front % 2 ^ w)).1 = true ↔
      ∃ digits, chars.mapM digit = some digits ∧ ∀ k < digits.length,
        number base (front ++ digits.take k) % 2 ^ w ≤
          number base (front ++ digits.take (k + 1)) % 2 ^ w) ∧
    ((atoiLoop w base digit chars (number base front % 2 ^ w)).1 = true →
      ∀ digits, chars.mapM digit = some digits →
        (atoiLoop w base digit chars (number base front % 2 ^ w)).2 =
          number base (front ++ digits) % 2 ^ w) := by
  induction chars generalizing front with
  | nil =>
    refine ⟨⟨fun _ => ⟨[], rfl, fun k hk => absurd hk (Nat.not_lt_zero k)⟩, fun _ => rfl⟩, ?_⟩
    rintro - digits hdigits
    obtain rfl : [] = digits := Option.some.inj hdigits
    rw [append_nil]
    rfl
  | cons c chars ih =>
    cases hc : digit c with
    | none =>
      have hloop : atoiLoop w base digit (c :: chars) (number base front % 2 ^ w) =
          (false, number base front % 2 ^ w) := by
        rw [atoiLoop, hc]
      have hmap : (c :: chars).mapM digit = none := by
        rw [mapM_cons, hc]
        rfl
      rw [hloop, hmap]
      refine ⟨⟨fun h => absurd h Bool.false_ne_true, ?_⟩,
        fun h => absurd h Bool.false_ne_true⟩
      rintro ⟨digits, hdigits, -⟩
      cases hdigits
    | some d =>
      obtain ⟨hiff, hvalue⟩ := ih (front ++ [d])
      have hmap : ∀ digits, (c :: chars).mapM digit = some digits ↔
          ∃ rest, chars.mapM digit = some rest ∧ digits = d :: rest := by
        intro digits
        rw [mapM_cons, hc]
        cases chars.mapM digit with
        | none => simp
        | some rest => simp [eq_comm]
      by_cases hdrop : number base (front ++ [d]) % 2 ^ w < number base front % 2 ^ w
      · have hloop : (atoiLoop w base digit (c :: chars) (number base front % 2 ^ w)).1 =
            false := by
          rw [atoiLoop, hc]
          dsimp only
          rw [number_step_mod, if_pos hdrop]
        rw [hloop]
        refine ⟨⟨fun h => absurd h Bool.false_ne_true, ?_⟩,
          fun h => absurd h Bool.false_ne_true⟩
        rintro ⟨digits, hdigits, hle⟩
        obtain ⟨rest, -, rfl⟩ := (hmap digits).mp hdigits
        have hfirst := hle 0 (Nat.succ_pos rest.length)
        rw [take_zero, append_nil] at hfirst
        exact absurd hdrop (Nat.not_lt.mpr hfirst)
      · have hloop : atoiLoop w base digit (c :: chars) (number base front % 2 ^ w) =
            atoiLoop w base digit chars (number base (front ++ [d]) % 2 ^ w) := by
          rw [atoiLoop, hc]
          dsimp only
          rw [number_step_mod, if_neg hdrop]
        rw [hloop]
        refine ⟨hiff.trans ⟨?_, ?_⟩, fun h digits hdigits => ?_⟩
        · rintro ⟨rest, hrest, hle⟩
          refine ⟨d :: rest, (hmap _).mpr ⟨rest, hrest, rfl⟩, fun k hk => ?_⟩
          cases k with
          | zero =>
            rw [take_zero, append_nil]
            exact Nat.le_of_not_lt hdrop
          | succ k =>
            have hk' := hle k (Nat.lt_of_succ_lt_succ hk)
            rwa [append_assoc, append_assoc] at hk'
        · rintro ⟨digits, hdigits, hle⟩
          obtain ⟨rest, hrest, rfl⟩ := (hmap digits).mp hdigits
          refine ⟨rest, hrest, fun k hk => ?_⟩
          rw [append_assoc, append_assoc]
          exact hle (k + 1) (Nat.succ_lt_succ hk)
        · obtain ⟨rest, hrest, rfl⟩ := (hmap digits).mp hdigits
          rw [hvalue h rest hrest, append_assoc]
          rfl

theorem atoiLoop_right_iff (hbase : 0 < base) (chars : List UInt8) :
    AtoiRight w base digit chars (atoiLoop w base digit chars 0) ↔
      ∀ digits, chars.mapM digit = some digits →
        number base digits < 2 ^ w ∨ Drops w base digits := by
  obtain ⟨hiff, hvalue⟩ : ((atoiLoop w base digit chars 0).1 = true ↔
      ∃ digits, chars.mapM digit = some digits ∧ ∀ k < digits.length,
        number base (digits.take k) % 2 ^ w ≤ number base (digits.take (k + 1)) % 2 ^ w) ∧
    ((atoiLoop w base digit chars 0).1 = true → ∀ digits, chars.mapM digit = some digits →
      (atoiLoop w base digit chars 0).2 = number base digits % 2 ^ w) := by
    have h := @atoiLoop_spec w base digit [] chars
    rwa [show number base [] = 0 from rfl, Nat.zero_mod] at h
  have hnot : ∀ digits, (∀ k < digits.length,
      number base (digits.take k) % 2 ^ w ≤ number base (digits.take (k + 1)) % 2 ^ w) ↔
        ¬ Drops w base digits := by
    intro digits
    constructor
    · rintro hle ⟨k, hk, hlt⟩
      exact absurd hlt (Nat.not_lt.mpr (hle k hk))
    · intro hdrops k hk
      exact Nat.le_of_not_lt fun hlt => hdrops ⟨k, hk, hlt⟩
  simp only [hnot] at hiff
  constructor
  · rintro ⟨hright, -⟩ digits hdigits
    by_contra hcontra
    obtain ⟨hbig, hdrops⟩ := not_or.mp hcontra
    obtain ⟨digits', hdigits', hfits⟩ := hright.mp (hiff.mpr ⟨digits, hdigits, hdrops⟩)
    obtain rfl : digits = digits' := Option.some.inj (hdigits.symm.trans hdigits')
    exact hbig hfits
  · intro hcond
    have hfits : ∀ digits, chars.mapM digit = some digits →
        (number base digits < 2 ^ w ↔ ¬ Drops w base digits) := fun digits hdigits =>
      ⟨not_drops_of_fits hbase, fun h => (hcond digits hdigits).resolve_right h⟩
    refine ⟨hiff.trans ⟨?_, ?_⟩, fun h digits hdigits => ?_⟩
    · rintro ⟨digits, hdigits, h⟩
      exact ⟨digits, hdigits, (hfits digits hdigits).mpr h⟩
    · rintro ⟨digits, hdigits, h⟩
      exact ⟨digits, hdigits, (hfits digits hdigits).mp h⟩
    · obtain ⟨digits', hdigits', h'⟩ := hiff.mp h
      obtain rfl : digits = digits' := Option.some.inj (hdigits.symm.trans hdigits')
      rw [hvalue h digits hdigits, Nat.mod_eq_of_lt ((hfits digits hdigits).mpr h')]

/-- **Every string, base and length**, in 32 bits, in 64 or any other width: the answer is right
    as long as a number that does not fit has a digit that makes it smaller. -/
theorem atoi_right_iff (w : Nat) (buf : List UInt8) (new_format : UInt8) (length : Int) :
    AtoiRight w (baseOf new_format) (digitOf new_format) (charsRead buf length)
        (PV_atoi w (some buf) new_format length) ↔
      ∀ digits, (charsRead buf length).mapM (digitOf new_format) = some digits →
        number (baseOf new_format) digits < 2 ^ w ∨ Drops w (baseOf new_format) digits := by
  have hatoi : PV_atoi w (some buf) new_format length =
      atoiLoop w (baseOf new_format) (digitOf new_format) (charsRead buf length) 0 := by
    unfold PV_atoi baseOf digitOf
    dsimp only
    split
    · rfl
    · exact ite_self _
  have hbase : 0 < baseOf new_format := by
    unfold baseOf
    split <;> decide
  rw [hatoi]
  exact atoiLoop_right_iff hbase _

/-- Ten nines: 32 bits do not hold the number, and `1410065407` is accepted in its place. -/
theorem ten_nines : PV_atoi32 (some (List.replicate 10 57)) formatDec 10 = (true, 1410065407) ∧
    ¬ AtoiRight 32 (baseOf formatDec) (digitOf formatDec) (charsRead (List.replicate 10 57) 10)
      (PV_atoi32 (some (List.replicate 10 57)) formatDec 10) := by
  have hrun : PV_atoi32 (some (List.replicate 10 57)) formatDec 10 = (true, 1410065407) := by
    decide
  refine ⟨hrun, fun h => ?_⟩
  rw [hrun] at h
  have hdigits : (charsRead (List.replicate 10 57) 10).mapM (digitOf formatDec) =
      some (List.replicate 10 9) := by decide
  have hvalue : (1410065407 : Nat) = number (baseOf formatDec) (List.replicate 10 9) :=
    h.2 rfl _ hdigits
  exact absurd hvalue (by decide)

end Right

end OpenCore.OsclBase
