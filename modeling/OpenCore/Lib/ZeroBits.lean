/-
  File:      OpenCore/Lib/ZeroBits.lean
  Subject:   ZERO BIT INSERTION: a 0 after five 1s, and flags that cannot occur in between.

  `insert0` is what a sender does to the bits between two flags, `remove0` what a receiver does to
  undo it. The receiver looks for a flag in a window of eight bits; in stuffed bits in front of a
  flag it finds that flag only.

  **Main results** `remove0_insert0`: removing undoes inserting; `noFlag_insert0`: no flag before
  the flag.
-/
import Mathlib

namespace OpenCore.ZeroBits

open List

/-! ## 1. Inserting and removing -/

/-- Five 1s. -/
def ones : List Bool := List.replicate 5 true

/-- A 0 after every five 1s. -/
def insert0 : List Bool → List Bool
  | true :: true :: true :: true :: true :: l =>
    true :: true :: true :: true :: true :: false :: insert0 l
  | b :: l => b :: insert0 l
  | [] => []

/-- The bit after every five 1s left out. -/
def remove0 : List Bool → List Bool
  | true :: true :: true :: true :: true :: _ :: l =>
    true :: true :: true :: true :: true :: remove0 l
  | b :: l => b :: remove0 l
  | [] => []

theorem ones_prefix_iff (l : List Bool) :
    ones <+: l ↔ ∃ m, l = true :: true :: true :: true :: true :: m :=
  ⟨fun ⟨m, h⟩ => ⟨m, h.symm⟩, fun ⟨m, h⟩ => ⟨m, h.symm⟩⟩

theorem insert0_ones (l : List Bool) : insert0 (ones ++ l) = ones ++ false :: insert0 l := rfl

variable {b : Bool} {l : List Bool}

theorem insert0_cons (h : ¬ ones <+: b :: l) :
    insert0 (b :: l) = b :: insert0 l := by
  rw [ones_prefix_iff] at h
  conv_lhs => unfold insert0
  split
  · next l' heq => exact absurd ⟨l', heq⟩ h
  · next heq =>
    cases heq
    rfl
  · next heq => cases heq

theorem remove0_ones (b : Bool) (l : List Bool) : remove0 (ones ++ b :: l) = ones ++ remove0 l :=
  rfl

theorem remove0_cons (h : ¬ (ones <+: b :: l ∧ 5 ≤ l.length)) :
    remove0 (b :: l) = b :: remove0 l := by
  rw [ones_prefix_iff] at h
  conv_lhs => unfold remove0
  split
  · next c l' heq =>
    refine absurd ⟨⟨c :: l', heq⟩, ?_⟩ h
    have := congrArg length heq
    simp at this
    omega
  · next heq =>
    cases heq
    rfl
  · next heq => cases heq

/-- Induction over the places where a 0 is inserted. -/
theorem insert0_induction {P : List Bool → Prop} (nil : P []) (run : ∀ l, P l → P (ones ++ l))
    (cons : ∀ b l, ¬ ones <+: b :: l → P l → P (b :: l)) (l : List Bool) : P l := by
  induction hn : l.length using Nat.strong_induction_on generalizing l with
  | _ n ih =>
    rcases l with _ | ⟨b, l⟩
    · exact nil
    · by_cases h : ones <+: b :: l
      · obtain ⟨m, hm⟩ := h
        have hlen := congrArg length hm
        simp [ones] at hlen hn
        rw [← hm]
        exact run m (ih m.length (by omega) m rfl)
      · simp at hn
        exact cons b l h (ih l.length (by omega) l rfl)

/-- A run of at most five 1s in front stays in front, and none comes up. -/
theorem replicate_prefix_insert0 (l : List Bool) {k : Nat} (hk : k ≤ 5) :
    replicate k true <+: insert0 l ↔ replicate k true <+: l := by
  induction l using insert0_induction generalizing k with
  | nil => rfl
  | run l _ =>
    rw [insert0_ones]
    have hshort : replicate k true <+: ones := by
      refine ⟨replicate (5 - k) true, ?_⟩
      rw [ones, replicate_append_replicate]
      congr 1
      omega
    exact iff_of_true (hshort.trans (prefix_append _ _)) (hshort.trans (prefix_append _ _))
  | cons b l h ih =>
    rw [insert0_cons h]
    rcases k with _ | k
    · simp
    · rw [replicate_succ, cons_prefix_cons, cons_prefix_cons, ih (by omega)]

/-- A bit that starts no run of five 1s starts none after insertion. -/
theorem not_ones_prefix_insert0 (h : ¬ ones <+: b :: l) :
    ¬ ones <+: b :: insert0 l := by
  rw [← insert0_cons h]
  exact fun hp => h ((replicate_prefix_insert0 (b :: l) (Nat.le_refl 5)).mp hp)

/-- **Removing undoes inserting.** -/
theorem remove0_insert0 (l : List Bool) : remove0 (insert0 l) = l := by
  induction l using insert0_induction with
  | nil => rfl
  | run l ih => rw [insert0_ones, remove0_ones, ih]
  | cons b l h ih =>
    rw [insert0_cons h, remove0_cons fun hp => not_ones_prefix_insert0 h hp.1, ih]

/-- Fewer than five bits are sent as they are. -/
theorem insert0_of_lt (h : l.length < 5) : insert0 l = l := by
  induction l with
  | nil => rfl
  | cons b l ih =>
    have hp : ¬ ones <+: b :: l := fun hp => by
      have := hp.length_le
      simp [ones] at this h
      omega
    rw [insert0_cons hp, ih (by simp at h; omega)]

/-- Fewer than six bits are taken as they are. -/
theorem remove0_of_lt (h : l.length < 6) : remove0 l = l := by
  induction l with
  | nil => rfl
  | cons b l ih =>
    rw [remove0_cons fun hp => ?_, ih (by simp at h; omega)]
    simp at h
    omega

/-- At most one bit in six is left out. -/
theorem length_remove0 (l : List Bool) : (remove0 l).length ≤ l.length := by
  induction hn : l.length using Nat.strong_induction_on generalizing l with
  | _ n ih =>
    rcases l with _ | ⟨b, l⟩
    · simp [remove0]
    · by_cases h : ones <+: b :: l ∧ 5 ≤ l.length
      · obtain ⟨⟨m, hm⟩, hlen⟩ := h
        rcases m with _ | ⟨c, m⟩
        · have := congrArg length hm
          simp [ones] at this
          omega
        · rw [← hm] at hn ⊢
          rw [remove0_ones]
          simp [ones] at hn ⊢
          have := ih m.length (by omega) m rfl
          omega
      · rw [remove0_cons h]
        simp at hn ⊢
        have := ih l.length (by omega) l rfl
        omega

/-! ## 2. Flags -/

/-- The flag, lowest bit first. -/
def flag : List Bool := [false, true, true, true, true, true, true, false]

/-- The eight bits in front hold six 1s between their first and last bit. -/
def FlagAt (l : List Bool) : Prop := (l.drop 1).take 6 = List.replicate 6 true

instance (l : List Bool) : Decidable (FlagAt l) := by
  unfold FlagAt
  infer_instance

/-- The bits in front of a flag in which no flag begins before that one. -/
def NoFlag (l : List Bool) : Prop := ∀ i < l.length, ¬ FlagAt ((l ++ flag).drop i)

instance (l : List Bool) : Decidable (NoFlag l) := by
  unfold NoFlag
  infer_instance

/-- A 0 within the six bits is no flag. -/
theorem not_flagAt_of_false {i : Nat} (hi : 1 ≤ i) (hi6 : i ≤ 6)
    (h : l[i]? = some false) : ¬ FlagAt l := by
  intro hf
  have hat := congrArg (fun m : List Bool => m[i - 1]?) hf
  simp only [getElem?_take, getElem?_drop, getElem?_replicate] at hat
  rw [if_pos (by omega), if_pos (by omega), show 1 + (i - 1) = i by omega, h] at hat
  cases hat

/-- Bits without six 1s in a row hold no flag. -/
theorem noFlag_of_noSix (h : ¬ replicate 6 true <:+: l) : NoFlag l := by
  intro i hi hf
  by_cases hin : i + 7 ≤ l.length
  · -- the six 1s lie before the flag
    refine h ⟨l.take (i + 1), l.drop (i + 7), ?_⟩
    have hsix : (l.drop (i + 1)).take 6 = replicate 6 true := by
      rw [← hf, drop_drop, drop_append_of_le_length (by omega),
        take_append_of_le_length (by simp; omega)]
    rw [← hsix, append_assoc]
    have hrest : l.drop (i + 7) = (l.drop (i + 1)).drop 6 := by rw [drop_drop]
    rw [hrest, take_append_drop, take_append_drop]
  · -- the first bit of the flag is among the six
    refine not_flagAt_of_false (i := l.length - i) (by omega) (by omega) ?_ hf
    rw [getElem?_drop, show i + (l.length - i) = l.length by omega]
    simp [flag]

/-- No six 1s in a row after insertion. -/
theorem noSix_insert0 (l : List Bool) : ¬ replicate 6 true <:+: insert0 l := by
  induction l using insert0_induction with
  | nil => simp [insert0]
  | run l ih =>
    rw [insert0_ones]
    simp only [ones, replicate, cons_append, nil_append]
    intro hin
    iterate 6
      rcases infix_cons_iff.mp hin with hp | hin
      · simp [cons_prefix_cons] at hp
    exact ih hin
  | cons b l h ih =>
    rw [insert0_cons h]
    intro hin
    rcases infix_cons_iff.mp hin with hp | hin
    · refine not_ones_prefix_insert0 h (IsPrefix.trans ?_ hp)
      exact ⟨[true], rfl⟩
    · exact ih hin

/-- **In front of a flag, stuffed bits hold no flag.** -/
theorem noFlag_insert0 (l : List Bool) : NoFlag (insert0 l) := noFlag_of_noSix (noSix_insert0 l)

end OpenCore.ZeroBits
