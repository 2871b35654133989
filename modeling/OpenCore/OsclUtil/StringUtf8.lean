/-
  File:      OpenCore/OsclUtil/StringUtf8.lean
  Subject:   `oscl_str_is_valid_utf8` and `oscl_str_truncate_utf8` (oscl_string_utf8.cpp) against
             the syntax of RFC 3629: what they accept, count and cut.

  Both walk over the text one character after the other. The walk takes every character of the
  RFC, and two kinds of sequence that are none: the surrogates (`ED A0` on) and the overlong forms
  that start with `F0`. Each is a word of a prefix code, so that the two can be compared with
  `PrefixCode`.

  **Main result**: `utf8_right_iff`.
-/
import OpenCore.Lib.PrefixCode
import OpenCore.Lib.Word32

namespace OpenCore.OsclUtil

open OpenCore.Lib List
open UInt8 (le_iff_toNat_le reduceToNat toNat_inj)
open Or (inl inr)

/-! ## 1. The text -/

/-- A text as the functions receive it: with `max_bytes = 0` it ends before the first NUL, else it
    is the first `max_bytes` bytes. Memory is addressed with 32 bits. -/
structure Utf8Text where
  str_buf : List UInt8
  max_bytes : Nat
  readable : if max_bytes = 0 then 0 ∈ str_buf else max_bytes ≤ str_buf.length
  size : str_buf.length < 4294967296

/-- The bytes of the text. -/
def Utf8Text.bytes (t : Utf8Text) : List UInt8 :=
  if t.max_bytes = 0 then t.str_buf.takeWhile (· ≠ 0) else t.str_buf.take t.max_bytes

/-! ## 2. The code -/

/-- How many bytes the character takes whose first byte is `b`. -/
def width (b : UInt8) : Option Nat :=
  if b &&& 0x80 = 0x00 then some 1
  else if b &&& 0xE0 = 0xC0 then some 2
  else if b &&& 0xF0 = 0xE0 then some 3
  else if b &&& 0xF8 = 0xF0 then some 4
  else none

/-- Whether one of the next `n` bytes is not of the form `10xx xxxx`. No byte behind the first such
    one is read; `none` stands for a read past the end of the buffer. -/
def badTail : Nat → List UInt8 → Option Bool
  | 0, _ => some false
  | _ + 1, [] => none
  | n + 1, b :: rest => if b &&& 0xC0 ≠ 0x80 then some true else badTail n rest

/-- The tests on the first two bytes of a character of `n` bytes. -/
def badLead : Nat → UInt8 → UInt8 → Bool
  | 2, a, _ => a < 0xC2
  | 3, a, b => a = 0xE0 && b < 0xA0
  | 4, a, b => a > 0xF4 || (a = 0xF4 && b > 0x8F)
  | _, _, _ => false

/-- The test a character of `n` bytes has to pass. -/
def badChar (n : Nat) (a : UInt8) (rest : List UInt8) : Option Bool :=
  (badTail (n - 1) rest).map fun bad => bad || badLead n a (rest.headD 0)

/-- What `oscl_str_is_valid_and_truncate_utf8` leaves behind. -/
structure Utf8Scan where
  result : Bool
  num_valid_characters : Nat
  truncate_pos_index : Nat
  deriving DecidableEq

/-- The loop of `oscl_str_is_valid_and_truncate_utf8` from `ptr` on. `limit` is the number of
    characters it stops at, 0 for no limit; `none` stands for a read past the end of the buffer. -/
def utf8Loop (max_bytes limit : Nat) (ptr : List UInt8)
    (bytes_left total_num_valid_characters truncate_pos_index : Nat) : Option Utf8Scan :=
  match ptr with
  | [] => none
  | a :: rest =>
    match width a with
    | none => some ⟨false, total_num_valid_characters, truncate_pos_index⟩
    | some n =>
      if n = 1 ∧ a = 0 ∧ max_bytes = 0 then
        some ⟨true, total_num_valid_characters, truncate_pos_index⟩
      else if n = 1 ∨ max_bytes = 0 ∨ n ≤ bytes_left then
        match badChar n a rest with
        | none => none
        | some true => some ⟨false, total_num_valid_characters, truncate_pos_index⟩
        | some false =>
          let bytes_left := if 0 < bytes_left then bytes_left - n else bytes_left
          let total_num_valid_characters := add32 total_num_valid_characters 1
          let truncate_pos_index := add32 truncate_pos_index n
          if (max_bytes ≠ 0 ∧ bytes_left = 0) ∨
              (limit ≠ 0 ∧ total_num_valid_characters = limit) then
            some ⟨true, total_num_valid_characters, truncate_pos_index⟩
          else
            utf8Loop max_bytes limit (rest.drop (n - 1)) bytes_left
              total_num_valid_characters truncate_pos_index
      else some ⟨false, total_num_valid_characters, truncate_pos_index⟩
termination_by ptr.length
decreasing_by
  rw [length_drop, length_cons]
  exact Nat.lt_succ_of_le (Nat.sub_le _ _)

def oscl_str_is_valid_and_truncate_utf8 (str_buf : List UInt8)
    (num_valid_characters max_bytes max_char_2_valid : Nat) : Option Utf8Scan :=
  utf8Loop max_bytes
    (if num_valid_characters ≠ 0 then num_valid_characters else max_char_2_valid)
    str_buf max_bytes 0 0

/-- What `oscl_str_is_valid_utf8` returns: the verdict, the characters and their bytes. -/
def oscl_str_is_valid_utf8 (str_buf : List UInt8) (max_bytes max_char_2_valid : Nat) :
    Option Utf8Scan :=
  oscl_str_is_valid_and_truncate_utf8 str_buf 0 max_bytes max_char_2_valid

/-- `oscl_str_truncate_utf8`: the number it returns, and the buffer behind the call. -/
def oscl_str_truncate_utf8 (str_buf : List UInt8) (max_chars max_bytes : Nat) :
    Option (Int × List UInt8) :=
  (oscl_str_is_valid_and_truncate_utf8 str_buf max_chars max_bytes 0).map fun scan =>
    (toInt32 scan.num_valid_characters,
      if max_bytes ≠ 0 ∧ ¬ scan.truncate_pos_index ≤ max_bytes - 1 then str_buf
      else str_buf.set scan.truncate_pos_index 0)

/-! ## 3. RFC 3629 -/

/-- `UTF8-tail`. -/
def Utf8Tail (b : UInt8) : Prop := 0x80 ≤ b ∧ b ≤ 0xBF

instance (b : UInt8) : Decidable (Utf8Tail b) := inferInstanceAs (Decidable (_ ∧ _))

/-- `UTF8-char`. -/
def Utf8Char : List UInt8 → Prop
  | [a] => a ≤ 0x7F
  | [a, b] => (0xC2 ≤ a ∧ a ≤ 0xDF) ∧ Utf8Tail b
  | [a, b, c] =>
    ((a = 0xE0 ∧ 0xA0 ≤ b ∧ b ≤ 0xBF) ∨ (0xE1 ≤ a ∧ a ≤ 0xEC ∧ Utf8Tail b) ∨
      (a = 0xED ∧ 0x80 ≤ b ∧ b ≤ 0x9F) ∨ (0xEE ≤ a ∧ a ≤ 0xEF ∧ Utf8Tail b)) ∧ Utf8Tail c
  | [a, b, c, d] =>
    ((a = 0xF0 ∧ 0x90 ≤ b ∧ b ≤ 0xBF) ∨ (0xF1 ≤ a ∧ a ≤ 0xF3 ∧ Utf8Tail b) ∨
      (a = 0xF4 ∧ 0x80 ≤ b ∧ b ≤ 0x8F)) ∧ Utf8Tail c ∧ Utf8Tail d
  | _ => False

/-- The sequences that the code takes for characters: surrogates, and `F0` with an overlong form. -/
def Missed : List UInt8 → Prop
  | [a, b, c] => a = 0xED ∧ 0xA0 ≤ b ∧ b ≤ 0xBF ∧ Utf8Tail c
  | [a, b, c, d] => a = 0xF0 ∧ 0x80 ≤ b ∧ b ≤ 0x8F ∧ Utf8Tail c ∧ Utf8Tail d
  | _ => False

instance : DecidablePred Utf8Char
  | [] => isFalse id
  | [_] => inferInstanceAs (Decidable (_ ≤ _))
  | [_, _] => inferInstanceAs (Decidable (_ ∧ _))
  | [_, _, _] => inferInstanceAs (Decidable (_ ∧ _))
  | [_, _, _, _] => inferInstanceAs (Decidable (_ ∧ _))
  | _ :: _ :: _ :: _ :: _ :: _ => isFalse id

/-- The sequences the code takes for one character. -/
def Accepted : List UInt8 → Prop
  | [] => False
  | a :: rest =>
    width a = some (rest.length + 1) ∧ (∀ b ∈ rest, b &&& 0xC0 = 0x80) ∧
      badLead (rest.length + 1) a (rest.headD 0) = false

/-- A limit of 0 is none. -/
def limitOf (limit : Nat) : Option Nat := if limit = 0 then none else some limit

/-- What the claim asks of the verdict and of the number of characters. -/
structure ValidRight (limit : Option Nat) (bytes : List UInt8) (scan : Utf8Scan) : Prop where
  /-- The text is accepted where it is well formed, up to its end or to the limit. -/
  accepts : scan.result = true ↔
    ∃ cs, Begins Utf8Char limit bytes cs ∧ (cs.flatten = bytes ∨ limit = some cs.length)
  counts : ∃ cs, Longest Utf8Char limit bytes cs ∧ scan.num_valid_characters = cs.length ∧
    scan.truncate_pos_index = cs.flatten.length

/-- What the claim asks of the buffer: the longest well-formed text of at most `max_char`
    characters stands in it, and a NUL behind it, unless nothing was to be cut. -/
def TruncatedRight (max_char : Nat) (bytes str_buf : List UInt8) : Prop :=
  ∃ cs, Longest Utf8Char (some max_char) bytes cs ∧ cs.flatten <+: str_buf ∧
    (cs.flatten = bytes ∨ str_buf[cs.flatten.length]? = some 0)

/-- No sequence that the code mistakes for a character directly follows the well-formed text,
    where the limit leaves room for another one. -/
def NoneMissed (limit : Option Nat) (bytes : List UInt8) : Prop :=
  ∀ cs, Longest Utf8Char limit bytes cs →
    limit = some cs.length ∨ ∀ c, Missed c → ¬ cs.flatten ++ c <+: bytes

/-- The same for the text that is cut; with `max_char = 0`, where the code sees no limit, what is to
    be cut starts with a NUL or with no character. -/
def CutRight (max_char : Nat) (bytes : List UInt8) : Prop :=
  if max_char = 0 then
    bytes.head? = some 0 ∨ ∀ c, Utf8Char c ∨ Missed c → ¬ c <+: bytes
  else NoneMissed (some max_char) bytes

/-! ## 4. Bytes and characters -/

theorem forall_byte {p : UInt8 → Prop} (h : ∀ n : Fin 256, p (UInt8.ofFin n)) : ∀ b, p b :=
  fun b => h b.toFin

/-- The first bytes of the characters of each width. -/
theorem width_iff : ∀ a : UInt8,
    (width a = some 1 ↔ a.toNat < 0x80) ∧
    (width a = some 2 ↔ 0xC0 ≤ a.toNat ∧ a.toNat < 0xE0) ∧
    (width a = some 3 ↔ 0xE0 ≤ a.toNat ∧ a.toNat < 0xF0) ∧
    (width a = some 4 ↔ 0xF0 ≤ a.toNat ∧ a.toNat < 0xF8) := by
  refine forall_byte ?_
  decide +kernel

variable {a : UInt8}

theorem width_cases {n : Nat} (h : width a = some n) :
    n = 1 ∨ n = 2 ∨ n = 3 ∨ n = 4 := by
  unfold width at h
  split_ifs at h <;> cases h <;> decide

theorem isTail_iff : ∀ b : UInt8, b &&& 0xC0 = 0x80 ↔ Utf8Tail b := by
  refine forall_byte ?_
  decide +kernel

theorem utf8Tail_iff (b : UInt8) : Utf8Tail b ↔ 0x80 ≤ b.toNat ∧ b.toNat ≤ 0xBF := by
  rw [Utf8Tail, le_iff_toNat_le, le_iff_toNat_le]
  rfl

/-- What `badLead` lets pass, with numbers. -/
theorem badLead_iff (a b : UInt8) :
    (badLead 2 a b = false ↔ 0xC2 ≤ a.toNat) ∧
    (badLead 3 a b = false ↔ (a.toNat = 0xE0 → 0xA0 ≤ b.toNat)) ∧
    (badLead 4 a b = false ↔ a.toNat ≤ 0xF4 ∧ (a.toNat = 0xF4 → b.toNat ≤ 0x8F)) := by
  simp [badLead, UInt8.lt_iff_toNat_lt, ← toNat_inj]

theorem accepted_cons (a : UInt8) (rest : List UInt8) :
    Accepted (a :: rest) ↔ width a = some (rest.length + 1) ∧ (∀ b ∈ rest, Utf8Tail b) ∧
      badLead (rest.length + 1) a (rest.headD 0) = false := by
  simp only [Accepted, isTail_iff]

theorem accepted_one (a : UInt8) : Accepted [a] ↔ Utf8Char [a] := by
  have hwidth := (width_iff a).1
  have hle : a ≤ 0x7F ↔ a.toNat < 0x80 := by
    rw [le_iff_toNat_le]
    exact Nat.lt_succ_iff.symm
  simp only [accepted_cons, Utf8Char, length_nil, Nat.zero_add, hwidth, hle]
  simp [badLead]

theorem accepted_two (a b : UInt8) : Accepted [a, b] ↔ Utf8Char [a, b] := by
  have hwidth := (width_iff a).2.1
  have hlead := (badLead_iff a b).1
  simp only [accepted_cons, Utf8Char, length_cons, length_nil, Nat.zero_add,
    Nat.reduceAdd, forall_mem_singleton, headD_cons, hwidth, hlead, utf8Tail_iff,
    le_iff_toNat_le, reduceToNat]
  omega

theorem accepted_three (a b c : UInt8) :
    Accepted [a, b, c] ↔ Utf8Char [a, b, c] ∨ Missed [a, b, c] := by
  have hwidth := (width_iff a).2.2.1
  have hlead := (badLead_iff a b).2.1
  simp only [accepted_cons, Utf8Char, Missed, length_cons, length_nil, Nat.zero_add,
    Nat.reduceAdd, forall_mem_cons, not_mem_nil, false_implies, implies_true, and_true,
    headD_cons, hwidth, hlead, utf8Tail_iff, le_iff_toNat_le, ← toNat_inj,
    reduceToNat]
  omega

theorem accepted_four (a b c d : UInt8) :
    Accepted [a, b, c, d] ↔ Utf8Char [a, b, c, d] ∨ Missed [a, b, c, d] := by
  have hwidth := (width_iff a).2.2.2
  have hlead := (badLead_iff a b).2.2
  simp only [accepted_cons, Utf8Char, Missed, length_cons, length_nil, Nat.zero_add,
    Nat.reduceAdd, forall_mem_cons, not_mem_nil, false_implies, implies_true, and_true,
    headD_cons, hwidth, hlead, utf8Tail_iff, le_iff_toNat_le, ← toNat_inj,
    reduceToNat]
  omega

/-- **The characters of the code** are those of the RFC and the missed ones. -/
theorem accepted_iff (c : List UInt8) : Accepted c ↔ Utf8Char c ∨ Missed c := by
  match c with
  | [] => exact ⟨False.elim, fun h => h.elim id id⟩
  | [a] => rw [accepted_one]; exact (or_iff_left id).symm
  | [a, b] => rw [accepted_two]; exact (or_iff_left id).symm
  | [a, b, c] => exact accepted_three a b c
  | [a, b, c, d] => exact accepted_four a b c d
  | a :: b :: c :: d :: e :: rest =>
    refine ⟨fun h => ?_, fun h => h.elim False.elim False.elim⟩
    have hcases := width_cases h.1
    simp only [length_cons] at hcases
    omega

theorem Missed.not_char : ∀ {c : List UInt8}, Missed c → ¬ Utf8Char c
  | [a, b, c], hm, hc => by
      simp only [Missed, Utf8Char, utf8Tail_iff, le_iff_toNat_le, ← toNat_inj,
        reduceToNat] at hm hc
      omega
  | [a, b, c, d], hm, hc => by
      simp only [Missed, Utf8Char, utf8Tail_iff, le_iff_toNat_le, ← toNat_inj,
        reduceToNat] at hm hc
      omega

variable {c : List UInt8}

theorem Utf8Char.accepted (h : Utf8Char c) : Accepted c :=
  (accepted_iff c).mpr (inl h)

/-- A character is as long as its first byte says. -/
theorem Accepted.length_eq {rest : List UInt8} {n : Nat} (hc : Accepted c)
    (hpre : c <+: a :: rest) (ha : width a = some n) : c.length = n := by
  cases c with
  | nil => exact hc.elim
  | cons b tail =>
    obtain ⟨rfl, -⟩ := cons_prefix_cons.mp hpre
    exact Option.some.inj (hc.1.symm.trans ha)

theorem accepted_prefixCode : PrefixCode Accepted := by
  refine ⟨fun {c} hc hnil => ?_, fun {c d} hc hd hpre => ?_⟩
  · subst hnil
    exact hc
  · cases d with
    | nil => exact hd.elim
    | cons a rest => exact hpre.eq_of_length (hc.length_eq hpre hd.1)

/-! ## 5. One turn of the loop -/

theorem badTail_of_tails {tail : List UInt8} (h : ∀ b ∈ tail, Utf8Tail b) (rest : List UInt8) :
    badTail tail.length (tail ++ rest) = some false := by
  induction tail with
  | nil => rfl
  | cons b tail ih =>
    have hb : ¬ b &&& 0xC0 ≠ 0x80 := not_not.mpr ((isTail_iff b).mpr (h b mem_cons_self))
    rw [cons_append, length_cons, badTail, if_neg hb]
    exact ih fun x hx => h x (mem_cons_of_mem b hx)

theorem badTail_of_not_tail {b : UInt8} (hb : ¬ Utf8Tail b) (rest : List UInt8) :
    ∀ {front : List UInt8} {n : Nat}, front.length < n →
      badTail n (front ++ b :: rest) = some true
  | _, 0, h => absurd h (Nat.not_lt_zero _)
  | [], n + 1, _ => by
      rw [nil_append, badTail, if_pos fun h => hb ((isTail_iff b).mp h)]
  | c :: front, n + 1, h => by
      rw [cons_append, badTail]
      split_ifs
      · rfl
      · exact badTail_of_not_tail hb rest (Nat.lt_of_succ_lt_succ h)

/-- The bytes left of the text, and what the loop knows of their number. -/
structure Utf8At (max_bytes bytes_left : Nat) (left behind : List UInt8) : Prop where
  nul : max_bytes = 0 → 0 ∉ left ∧ behind.head? = some 0 ∧ bytes_left = 0
  counted : max_bytes ≠ 0 → bytes_left = left.length

theorem Utf8At.next {max_bytes bytes_left : Nat} {left behind : List UInt8}
    (h : Utf8At max_bytes bytes_left (c ++ left) behind) :
    Utf8At max_bytes (if 0 < bytes_left then bytes_left - c.length else bytes_left) left behind := by
  refine ⟨fun h0 => ?_, fun h0 => ?_⟩
  · obtain ⟨hnul, hbehind, hleft⟩ := h.nul h0
    rw [hleft, if_neg (Nat.lt_irrefl 0)]
    exact ⟨fun hmem => hnul (mem_append_right c hmem), hbehind, rfl⟩
  · rw [h.counted h0, length_append]
    split_ifs <;> omega

/-- The test on a character: passed by what is one, and by nothing else. -/
theorem badChar_spec {rest behind : List UInt8} {n : Nat} (ha : width a = some n)
    (hend : n ≤ rest.length + 1 ∨ behind.head? = some 0) :
    (badChar n a (rest ++ behind) = some false ∧ n ≤ rest.length + 1 ∧
      Accepted (a :: rest.take (n - 1))) ∨
    (badChar n a (rest ++ behind) = some true ∧ ∀ c, Accepted c → ¬ c <+: a :: rest) := by
  have hn : n ≠ 0 := by rcases width_cases ha with rfl | rfl | rfl | rfl <;> decide
  rcases Nat.lt_or_ge (rest.length + 1) n with hshort | hlong
  · -- the text ends within the character, with the NUL behind it
    have hnul : behind.head? = some 0 := hend.resolve_left (Nat.not_le.mpr hshort)
    obtain ⟨_, rfl⟩ := head?_eq_some_iff.mp hnul
    right
    refine ⟨?_, fun c hc hpre => ?_⟩
    · rw [badChar, badTail_of_not_tail (by decide) _ (by omega)]
      rfl
    · have hle := hpre.length_le
      rw [hc.length_eq hpre ha, length_cons] at hle
      omega
  · have hlen : (rest.take (n - 1)).length = n - 1 := by rw [length_take]; omega
    have hword : ∀ c, Accepted c → c <+: a :: rest → c = a :: rest.take (n - 1) := by
      intro c hc hpre
      have htake := prefix_iff_eq_take.mp hpre
      rw [hc.length_eq hpre ha] at htake
      obtain ⟨k, rfl⟩ := Nat.exists_eq_succ_of_ne_zero hn
      exact htake
    have hsplit : rest ++ behind = rest.take (n - 1) ++ (rest.drop (n - 1) ++ behind) := by
      rw [← append_assoc, take_append_drop]
    by_cases htails : ∀ b ∈ rest.take (n - 1), Utf8Tail b
    · have htail : badTail (n - 1) (rest ++ behind) = some false := by
        have := badTail_of_tails htails (rest.drop (n - 1) ++ behind)
        rwa [hlen, ← hsplit] at this
      have hhead : badLead n a ((rest ++ behind).headD 0) =
          badLead n a ((rest.take (n - 1)).headD 0) := by
        rcases Nat.lt_or_ge 1 n with h1 | h1
        · cases rest with
          | nil => exact absurd hlong (Nat.not_le.mpr h1)
          | cons b rest =>
            obtain ⟨k, rfl⟩ : ∃ k, n = k + 2 := ⟨n - 2, (Nat.sub_add_cancel h1).symm⟩
            rfl
        · obtain rfl : n = 1 := by omega
          rfl
      have hchar : Accepted (a :: rest.take (n - 1)) ↔
          badLead n a ((rest.take (n - 1)).headD 0) = false := by
        have hwidth : n = n - 1 + 1 := (Nat.succ_pred hn).symm
        rw [accepted_cons, hlen, ← hwidth]
        exact ⟨fun h => h.2.2, fun h => ⟨ha, htails, h⟩⟩
      rw [badChar, htail, Option.map_some, Bool.false_or, hhead]
      by_cases hlead : badLead n a ((rest.take (n - 1)).headD 0) = false
      · exact inl ⟨by rw [hlead], hlong, hchar.mpr hlead⟩
      · refine inr ⟨by rw [Bool.eq_true_of_not_eq_false hlead], fun c hc hpre => hlead ?_⟩
        exact hchar.mp (hword c hc hpre ▸ hc)
    · right
      obtain ⟨b, hb, hbad⟩ : ∃ b ∈ rest.take (n - 1), ¬ Utf8Tail b := by
        simpa only [not_forall, exists_prop] using htails
      refine ⟨?_, fun c hc hpre => ?_⟩
      · obtain ⟨front, back, hmem⟩ := mem_iff_append.mp hb
        have hfront : front.length < n - 1 := by
          rw [hmem, length_append, length_cons] at hlen
          omega
        rw [badChar, hsplit, hmem, append_assoc, cons_append,
          badTail_of_not_tail hbad _ hfront]
        rfl
      · rw [hword c hc hpre, accepted_cons] at hc
        exact hbad (hc.2.1 b hb)

/-! ## 6. The loop -/

section Loop

variable {max_bytes limit bytes_left total pos : Nat} {left behind : List UInt8}

/-- The characters that may still come. -/
def limitLeft (limit total : Nat) : Option Nat := if limit = 0 then none else some (limit - total)

/-- The loop at the NUL behind the text. -/
theorem utf8Loop_nul (hbehind : behind.head? = some 0) :
    utf8Loop 0 limit behind bytes_left total pos = some ⟨true, total, pos⟩ := by
  obtain ⟨rest, rfl⟩ := head?_eq_some_iff.mp hbehind
  have hwidth : width 0 = some 1 := by decide
  unfold utf8Loop
  rw [hwidth]
  exact if_pos ⟨rfl, rfl, rfl⟩

/-- The loop where no character comes next. -/
theorem utf8Loop_stop {rest : List UInt8}
    (hat : Utf8At max_bytes bytes_left (a :: rest) behind)
    (hnone : ∀ c, Accepted c → ¬ c <+: a :: rest) :
    utf8Loop max_bytes limit (a :: (rest ++ behind)) bytes_left total pos =
      some ⟨false, total, pos⟩ := by
  have hnul : ∀ n, ¬ (n = 1 ∧ a = 0 ∧ max_bytes = 0) := by
    rintro n ⟨-, rfl, h0⟩
    exact (hat.nul h0).1 mem_cons_self
  unfold utf8Loop
  rcases hwidth : width a with _ | n
  · rfl
  · dsimp only
    rw [if_neg (hnul n)]
    by_cases hroom : n = 1 ∨ max_bytes = 0 ∨ n ≤ bytes_left
    · rw [if_pos hroom]
      have hend : n ≤ rest.length + 1 ∨ behind.head? = some 0 := by
        by_cases h0 : max_bytes = 0
        · exact inr (hat.nul h0).2.1
        · have hcount := hat.counted h0
          rw [length_cons] at hcount
          left
          omega
      rcases badChar_spec hwidth hend with ⟨-, -, hchar⟩ | ⟨hbad, -⟩
      · refine absurd ?_ (hnone _ hchar)
        exact cons_prefix_cons.mpr ⟨rfl, take_prefix _ _⟩
      · rw [hbad]
    · rw [if_neg hroom]

theorem utf8Loop_char {c : List UInt8} (hc : Accepted c)
    (hat : Utf8At max_bytes bytes_left (c ++ left) behind) :
    utf8Loop max_bytes limit (c ++ (left ++ behind)) bytes_left total pos =
      let bytes_left := if 0 < bytes_left then bytes_left - c.length else bytes_left
      if (max_bytes ≠ 0 ∧ bytes_left = 0) ∨ (limit ≠ 0 ∧ add32 total 1 = limit) then
        some ⟨true, add32 total 1, add32 pos c.length⟩
      else utf8Loop max_bytes limit (left ++ behind) bytes_left (add32 total 1)
        (add32 pos c.length) := by
  cases c with
  | nil => exact hc.elim
  | cons a tail =>
    have hwidth : width a = some (tail.length + 1) := hc.1
    have hnul : ¬ (tail.length + 1 = 1 ∧ a = 0 ∧ max_bytes = 0) := by
      rintro ⟨-, rfl, h0⟩
      exact (hat.nul h0).1 mem_cons_self
    have hroom : tail.length + 1 = 1 ∨ max_bytes = 0 ∨ tail.length + 1 ≤ bytes_left := by
      by_cases h0 : max_bytes = 0
      · exact inr (inl h0)
      · have hcount := hat.counted h0
        rw [length_append, length_cons] at hcount
        omega
    have hgood : badChar (tail.length + 1) a (tail ++ left ++ behind) = some false := by
      have hend : tail.length + 1 ≤ (tail ++ left).length + 1 ∨ behind.head? = some 0 := by
        rw [length_append]
        exact inl (Nat.succ_le_succ (Nat.le_add_right _ _))
      rcases badChar_spec hwidth hend with ⟨hgood, -, -⟩ | ⟨-, hnone⟩
      · exact hgood
      · exact absurd (prefix_append (a :: tail) left) (hnone _ hc)
    rw [append_assoc] at hgood
    have hdrop : (tail ++ (left ++ behind)).drop (tail.length + 1 - 1) = left ++ behind :=
      drop_left
    conv_lhs => unfold utf8Loop
    dsimp only [cons_append]
    rw [hwidth]
    dsimp only
    rw [if_neg hnul, if_pos hroom, hgood, hdrop]
    rfl

theorem limitLeft_succ (limit total : Nat) :
    limitLeft limit (total + 1) = (limitLeft limit total).map Nat.pred := by
  unfold limitLeft
  split_ifs
  · rfl
  · exact congrArg some (Nat.sub_succ limit total)

theorem limitLeft_ne_zero (hlimit : limit ≠ 0 → total < limit) :
    limitLeft limit total ≠ some 0 := by
  unfold limitLeft
  split_ifs with h0
  · exact nofun
  · intro h
    have hlt := hlimit h0
    have := Option.some.inj h
    omega

theorem limitLeft_eq_succ (hlimit : limit ≠ 0 → total < limit) (n : Nat) :
    limitLeft limit total = some (n + 1) ↔ limitLeft limit (total + 1) = some n := by
  unfold limitLeft
  split_ifs with h0
  · exact ⟨nofun, nofun⟩
  · have hlt := hlimit h0
    rw [Option.some_inj, Option.some_inj]
    omega

/-- **The loop** finds the longest text of its characters, counts them and their bytes, and accepts
    where it reaches the end of the text or the limit. -/
theorem utf8Loop_spec (hat : Utf8At max_bytes bytes_left left behind)
    (hsome : max_bytes ≠ 0 → left ≠ []) (hlimit : limit ≠ 0 → total < limit)
    (htotal : total + left.length < 4294967296) (hpos : pos + left.length < 4294967296) :
    ∃ result cs, Longest Accepted (limitLeft limit total) left cs ∧
      (result = true ↔ cs.flatten = left ∨ limitLeft limit total = some cs.length) ∧
      utf8Loop max_bytes limit (left ++ behind) bytes_left total pos =
        some ⟨result, total + cs.length, pos + cs.flatten.length⟩ := by
  induction hn : left.length using Nat.strong_induction_on
    generalizing left bytes_left total pos with
  | _ n ih =>
  have hzero := limitLeft_ne_zero hlimit
  by_cases hnone : ∀ c, Accepted c → ¬ c <+: left
  · have hlongest : Longest Accepted (limitLeft limit total) left [] :=
      longest_of_stops accepted_prefixCode (Begins.nil _ _ _) (inr hnone)
    cases left with
    | nil =>
      have h0 : max_bytes = 0 := by
        by_contra h0
        exact hsome h0 rfl
      subst h0
      exact ⟨true, [], hlongest, iff_of_true rfl (inl rfl), utf8Loop_nul (hat.nul rfl).2.1⟩
    | cons a rest =>
      refine ⟨false, [], hlongest, iff_of_false Bool.false_ne_true ?_, utf8Loop_stop hat hnone⟩
      exact not_or.mpr ⟨nofun, hzero⟩
  · obtain ⟨c, hc, left', rfl⟩ : ∃ c, Accepted c ∧ c <+: left := by
      simpa only [not_forall, not_not, exists_prop] using hnone
    have hcpos : 0 < c.length := length_pos_of_ne_nil (accepted_prefixCode.ne_nil hc)
    rw [length_append] at hn htotal hpos
    have hloop := @utf8Loop_char max_bytes limit bytes_left total pos left' behind c hc hat
    have hnext := hat.next
    rw [← append_assoc, add32_eq (by omega), add32_eq (by omega)] at hloop
    generalize (if 0 < bytes_left then bytes_left - c.length else bytes_left) = m at hloop hnext
    rw [hloop]
    dsimp only
    by_cases hdone : max_bytes ≠ 0 ∧ m = 0 ∨ limit ≠ 0 ∧ total + 1 = limit
    · -- the text or the limit ends behind this character
      have hstop : left' = [] ∨ limitLeft limit total = some [c].length := by
        rcases hdone with ⟨h0, hm⟩ | ⟨h0, hreached⟩
        · exact inl (eq_nil_of_length_eq_zero ((hnext.counted h0).symm.trans hm))
        · right
          rw [limitLeft, if_neg h0, ← hreached, Nat.add_sub_cancel_left]
          rfl
      have hone : Longest Accepted (limitLeft limit total) (c ++ left') [c] := by
        refine longest_of_stops accepted_prefixCode
          (Begins.cons hc (Begins.nil _ _ _) hzero) (hstop.symm.imp_right ?_)
        rintro rfl d hd hfollows
        have hle := hfollows.length_le
        have hdpos : 0 < d.length := length_pos_of_ne_nil (accepted_prefixCode.ne_nil hd)
        rw [flatten_singleton, append_nil, length_append] at hle
        omega
      refine ⟨true, [c], hone, iff_of_true rfl (hstop.imp_left ?_), ?_⟩
      · rintro rfl
        rw [flatten_singleton, append_nil]
      · rw [if_pos hdone, flatten_singleton]
        rfl
    · rw [if_neg hdone]
      obtain ⟨hbytes, hlim⟩ := not_or.mp hdone
      have hsome' : max_bytes ≠ 0 → left' ≠ [] := by
        rintro h0 rfl
        exact hbytes ⟨h0, hnext.counted h0⟩
      have hlimit' : limit ≠ 0 → total + 1 < limit := fun h0 =>
        Nat.lt_of_le_of_ne (hlimit h0) fun heq => hlim ⟨h0, heq⟩
      obtain ⟨result, cs, hlongest, hresult, hrest⟩ :=
        @ih left'.length (by omega) m (total + 1) (pos + c.length) left' hnext hsome' hlimit'
          (by omega) (by omega) rfl
      refine ⟨result, c :: cs, ?_, ?_, ?_⟩
      · exact Longest.cons accepted_prefixCode hc (limitLeft_succ limit total ▸ hlongest) hzero
      · rw [hresult, flatten_cons, append_cancel_left_eq, length_cons,
          limitLeft_eq_succ hlimit]
      · rw [hrest, flatten_cons, length_cons, length_append, Nat.add_assoc,
          Nat.add_comm 1, Nat.add_assoc]

end Loop

/-! ## 7. The two functions -/

theorem Utf8Text.at_start (t : Utf8Text) :
    ∃ behind, t.str_buf = t.bytes ++ behind ∧ Utf8At t.max_bytes t.max_bytes t.bytes behind ∧
      (t.max_bytes ≠ 0 → t.bytes.length = t.max_bytes) := by
  have hreadable := t.readable
  by_cases h0 : t.max_bytes = 0
  · rw [if_pos h0] at hreadable
    have hbytes : t.bytes = t.str_buf.takeWhile (· ≠ 0) := if_pos h0
    refine ⟨t.str_buf.dropWhile (· ≠ 0), ?_, ⟨fun _ => ⟨?_, ?_, h0⟩, absurd h0⟩, absurd h0⟩
    · rw [hbytes, takeWhile_append_dropWhile]
    · rw [hbytes]
      intro hmem
      exact absurd rfl (of_decide_eq_true
        (mem_takeWhile_imp (p := fun b : UInt8 => decide (b ≠ 0)) hmem))
    · have hne : t.str_buf.dropWhile (· ≠ 0) ≠ [] := by
        intro hnil
        have := dropWhile_eq_nil_iff.mp hnil 0 hreadable
        exact absurd rfl (of_decide_eq_true this)
      have hhead := head_dropWhile_not (fun b : UInt8 => decide (b ≠ 0)) hne
      rw [head?_eq_some_head hne]
      exact congrArg some (not_not.mp (of_decide_eq_false hhead))
  · rw [if_neg h0] at hreadable
    have hbytes : t.bytes = t.str_buf.take t.max_bytes := if_neg h0
    have hlen : t.bytes.length = t.max_bytes := by
      rw [hbytes, length_take, Nat.min_eq_left hreadable]
    refine ⟨t.str_buf.drop t.max_bytes, ?_, ⟨fun h => absurd h h0, fun _ => hlen.symm⟩,
      fun _ => hlen⟩
    rw [hbytes, take_append_drop]

/-- **The walk over a text.** -/
theorem scan_spec (t : Utf8Text) (num_valid_characters max_char_2_valid : Nat) :
    ∃ result cs,
      Longest Accepted (limitOf (if num_valid_characters ≠ 0 then num_valid_characters
        else max_char_2_valid)) t.bytes cs ∧
      (result = true ↔ cs.flatten = t.bytes ∨
        limitOf (if num_valid_characters ≠ 0 then num_valid_characters else max_char_2_valid) =
          some cs.length) ∧
      oscl_str_is_valid_and_truncate_utf8 t.str_buf num_valid_characters t.max_bytes
        max_char_2_valid = some ⟨result, cs.length, cs.flatten.length⟩ := by
  obtain ⟨behind, hbuf, hat, hlen⟩ := t.at_start
  have hsize : t.bytes.length < 4294967296 := by
    have := t.size
    rw [hbuf, length_append] at this
    omega
  have hsome : t.max_bytes ≠ 0 → t.bytes ≠ [] := by
    intro h0 hnil
    rw [hnil] at hlen
    exact h0 (hlen h0).symm
  obtain ⟨result, cs, hlongest, hresult, hloop⟩ :=
    @utf8Loop_spec t.max_bytes (if num_valid_characters ≠ 0 then num_valid_characters
      else max_char_2_valid) t.max_bytes 0 0 t.bytes behind hat hsome Nat.pos_of_ne_zero
      (by omega) (by omega)
  refine ⟨result, cs, hlongest, hresult, ?_⟩
  rw [oscl_str_is_valid_and_truncate_utf8, hbuf, hloop, Nat.zero_add, Nat.zero_add]

theorem accepted_not_char (hc : Accepted c) (hnot : ¬ Utf8Char c) : Missed c :=
  ((accepted_iff c).mp hc).resolve_left hnot

variable {ds : List (List UInt8)}

/-- The longest well-formed text is the one the code finds, where no sequence is mistaken. -/
theorem noneMissed_iff {limit : Option Nat} {bytes : List UInt8} {cs : List (List UInt8)}
    (hcs : Longest Utf8Char limit bytes cs) (hds : Longest Accepted limit bytes ds) :
    NoneMissed limit bytes ↔ cs = ds := by
  have hchar : ∀ c, Utf8Char c → Accepted c := fun _ => Utf8Char.accepted
  rw [hcs.eq_iff accepted_prefixCode hchar hds]
  constructor
  · intro h
    exact (h cs hcs).imp_right fun hnone d hd hnot => hnone d (accepted_not_char hd hnot)
  · intro h es hes
    obtain rfl := hes.unique (accepted_prefixCode.mono hchar) hcs
    exact h.imp_right fun hnone d hd =>
      hnone d ((accepted_iff d).mpr (inr hd)) hd.not_char

theorem exists_longest {limit : Option Nat} {bytes : List UInt8}
    (hds : Longest Accepted limit bytes ds) : ∃ cs, Longest Utf8Char limit bytes cs :=
  ⟨_, hds.takeWhile accepted_prefixCode fun _ => Utf8Char.accepted⟩

/-- The verdict and the number are right where no sequence is mistaken for a character. -/
theorem valid_right_iff (t : Utf8Text) (max_char : Nat) :
    ∃ scan, oscl_str_is_valid_utf8 t.str_buf t.max_bytes max_char = some scan ∧
      (ValidRight (limitOf max_char) t.bytes scan ↔ NoneMissed (limitOf max_char) t.bytes) := by
  obtain ⟨result, ds, hds, hresult, hscan⟩ := scan_spec t 0 max_char
  rw [if_neg (not_not.mpr rfl)] at hds hresult
  refine ⟨_, hscan, ?_⟩
  have hchar : ∀ c, Utf8Char c → Accepted c := fun _ => Utf8Char.accepted
  constructor
  · rintro ⟨-, cs, hcs, hcount, -⟩
    refine (noneMissed_iff hcs hds).mpr ?_
    exact (hds.isInitial accepted_prefixCode (hcs.toBegins.mono hchar)).eq_of_length hcount.symm
  · intro hnone
    obtain ⟨cs, hcs⟩ := exists_longest hds
    obtain rfl := (noneMissed_iff hcs hds).mp hnone
    refine ⟨hresult.trans ⟨fun h => ⟨cs, hcs.toBegins, h⟩, ?_⟩, cs, hcs, rfl, rfl⟩
    rintro ⟨cs', hcs', hend⟩
    rcases hend with hend | hend
    · left
      have hle := hcs.longest cs' hcs'
      rw [hend] at hle
      exact hcs.isPrefix.eq_of_length (Nat.le_antisymm hcs.isPrefix.length_le hle)
    · right
      have hle := (hds.isInitial accepted_prefixCode (hcs'.mono hchar)).length_le
      rw [hend, Nat.le_antisymm hle (hcs.within _ hend)]

/-- What `oscl_str_truncate_utf8` leaves in the buffer: the walk's text, and a NUL behind it. -/
structure Cut (t : Utf8Text) (ds : List (List UInt8)) (str_buf : List UInt8) : Prop where
  ends : ds.flatten = t.bytes ∨ str_buf[ds.flatten.length]? = some 0
  others : ∀ i, i ≠ ds.flatten.length → str_buf[i]? = t.str_buf[i]?

theorem truncate_spec (t : Utf8Text) (max_char : Nat) :
    ∃ ret str_buf ds, oscl_str_truncate_utf8 t.str_buf max_char t.max_bytes = some (ret, str_buf) ∧
      Longest Accepted (limitOf max_char) t.bytes ds ∧ Cut t ds str_buf := by
  obtain ⟨result, ds, hds, -, hscan⟩ := scan_spec t max_char 0
  have hsame : (if max_char ≠ 0 then max_char else 0) = max_char := by
    split_ifs with h
    · rfl
    · exact (not_not.mp h).symm
  rw [hsame] at hds
  obtain ⟨behind, hbuf, hat, hlen⟩ := t.at_start
  have hle := hds.isPrefix.length_le
  refine ⟨_, _, ds, by rw [oscl_str_truncate_utf8, hscan]; rfl, hds, ?_⟩
  dsimp only
  split_ifs with hfull
  · -- the whole array is kept
    obtain ⟨h0, hfull⟩ := hfull
    have hsize := hlen h0
    refine ⟨inl (hds.isPrefix.eq_of_length ?_), fun _ _ => rfl⟩
    omega
  · refine ⟨inr ?_, fun i hi => getElem?_set_ne hi.symm⟩
    have hlt : ds.flatten.length < t.str_buf.length := by
      rw [hbuf, length_append]
      by_cases h0 : t.max_bytes = 0
      · obtain ⟨rest, rfl⟩ := head?_eq_some_iff.mp (hat.nul h0).2.1
        rw [length_cons]
        omega
      · have hsize := hlen h0
        have hcut : ds.flatten.length ≤ t.max_bytes - 1 := by
          by_contra hmore
          exact hfull ⟨h0, hmore⟩
        omega
    exact getElem?_set_self hlt

variable {t : Utf8Text} {str_buf : List UInt8}

/-- The text in front of the cut is as it was. -/
theorem Cut.isInitial
    (h : Cut t ds str_buf) (hds : ds.flatten <+: t.bytes) : ds.flatten <+: str_buf := by
  obtain ⟨behind, hbuf, -, -⟩ := t.at_start
  rw [prefix_iff_getElem?]
  intro i hi
  rw [h.others i (Nat.ne_of_lt hi)]
  exact prefix_iff_getElem?.mp (hds.trans ⟨behind, hbuf.symm⟩) i hi

theorem Missed.head_ne (h : Missed c) : ∃ a rest, c = a :: rest ∧ a ≠ 0 := by
  match c, h with
  | [a, b, c], h => exact ⟨a, [b, c], rfl, by rw [h.1]; decide⟩
  | [a, b, c, d], h => exact ⟨a, [b, c, d], rfl, by rw [h.1]; decide⟩

/-- With a limit, the right text is left where no sequence is mistaken for a character. -/
theorem truncated_iff_noneMissed {max_char : Nat}
    (hds : Longest Accepted (some max_char) t.bytes ds)
    (hcut : Cut t ds str_buf) :
    TruncatedRight max_char t.bytes str_buf ↔ NoneMissed (some max_char) t.bytes := by
  have hchar : ∀ c, Utf8Char c → Accepted c := fun _ => Utf8Char.accepted
  constructor
  · rintro ⟨cs, hcs, -, hend⟩
    rw [noneMissed_iff hcs hds]
    by_contra hne
    have hpre := hds.isInitial accepted_prefixCode (hcs.toBegins.mono hchar)
    have hlt : cs.flatten.length < ds.flatten.length := by
      refine accepted_prefixCode.flatten_length_lt hds.words hpre ?_
      exact Nat.lt_of_le_of_ne hpre.length_le fun heq => hne (hpre.eq_of_length heq)
    have hle := hds.isPrefix.length_le
    -- the byte behind the well-formed text is the first one of a missed sequence
    have hnot := mt (hcs.eq_iff accepted_prefixCode hchar hds).mpr hne
    rw [not_or] at hnot
    obtain ⟨c, hc, hbad, hfollows⟩ : ∃ c, Accepted c ∧ ¬ Utf8Char c ∧
        cs.flatten ++ c <+: t.bytes := by
      simpa only [not_forall, not_not, exists_prop] using hnot.2
    obtain ⟨a, rest, rfl, ha⟩ := (accepted_not_char hc hbad).head_ne
    obtain ⟨behind, hbuf, -, -⟩ := t.at_start
    have hbyte : str_buf[cs.flatten.length]? = some a := by
      rw [hcut.others _ (Nat.ne_of_lt hlt)]
      obtain ⟨more, hmore⟩ := hfollows.trans ⟨behind, hbuf.symm⟩
      rw [← hmore, append_assoc, getElem?_append_right (Nat.le_refl _), Nat.sub_self]
      rfl
    rcases hend with hend | hend
    · rw [hend] at hlt
      omega
    · rw [hend] at hbyte
      exact ha (Option.some.inj hbyte).symm
  · intro hnone
    obtain ⟨cs, hcs⟩ := exists_longest hds
    obtain rfl := (noneMissed_iff hcs hds).mp hnone
    exact ⟨cs, hcs, hcut.isInitial hcs.isPrefix, hcut.ends⟩

/-- Of at most no characters, the longest text is the empty one. -/
theorem truncatedRight_zero (bytes str_buf : List UInt8) :
    TruncatedRight 0 bytes str_buf ↔ [] = bytes ∨ str_buf[0]? = some 0 := by
  constructor
  · rintro ⟨cs, hcs, -, hend⟩
    obtain rfl : cs = [] := eq_nil_of_length_eq_zero (Nat.le_zero.mp (hcs.within 0 rfl))
    exact hend
  · intro hend
    refine ⟨[], ⟨Begins.nil _ _ _, fun ds hds => ?_⟩, nil_prefix, hend⟩
    obtain rfl : ds = [] := eq_nil_of_length_eq_zero (Nat.le_zero.mp (hds.within 0 rfl))
    exact Nat.le_refl _

/-- Without one, only a text that is empty for the code is left right. -/
theorem truncated_zero_iff
    (hds : Longest Accepted none t.bytes ds) (hcut : Cut t ds str_buf) :
    TruncatedRight 0 t.bytes str_buf ↔ CutRight 0 t.bytes := by
  have hnone : (∀ c, Utf8Char c ∨ Missed c → ¬ c <+: t.bytes) ↔ ds = [] := by
    simp only [← accepted_iff]
    constructor
    · intro h
      cases ds with
      | nil => rfl
      | cons d ds =>
        refine absurd ?_ (h d (hds.words d mem_cons_self))
        exact (prefix_append d ds.flatten).trans hds.isPrefix
    · rintro rfl
      exact (hds.stops accepted_prefixCode).resolve_left nofun
  rw [truncatedRight_zero, CutRight, if_pos rfl, hnone]
  by_cases hempty : ds = []
  · subst hempty
    exact iff_of_true hcut.ends (inr rfl)
  · rw [or_iff_left hempty]
    obtain ⟨behind, hbuf, -, -⟩ := t.at_start
    have hpos : 0 < ds.flatten.length :=
      accepted_prefixCode.flatten_length_lt hds.words nil_prefix
        (length_pos_of_ne_nil hempty)
    have hbytes : 0 < t.bytes.length := hpos.trans_le hds.isPrefix.length_le
    rw [hcut.others 0 (Nat.ne_of_lt hpos), hbuf, getElem?_append_left hbytes,
      head?_eq_getElem?]
    refine or_iff_right ?_
    rintro heq
    rw [← heq] at hbytes
    exact absurd hbytes (Nat.lt_irrefl 0)

/-- **Verdict and cut**, for every text and every `max_char`: each is right exactly where no
    surrogate and no overlong form directly follows the well-formed text while the limit leaves room
    for it; and nothing is cut right with `max_char = 0` but what is empty for the code. -/
theorem utf8_right_iff (t : Utf8Text) (max_char : Nat) :
    ∃ scan ret str_buf,
      oscl_str_is_valid_utf8 t.str_buf t.max_bytes max_char = some scan ∧
      oscl_str_truncate_utf8 t.str_buf max_char t.max_bytes = some (ret, str_buf) ∧
      (ValidRight (limitOf max_char) t.bytes scan ↔ NoneMissed (limitOf max_char) t.bytes) ∧
      (TruncatedRight max_char t.bytes str_buf ↔ CutRight max_char t.bytes) := by
  obtain ⟨scan, hscan, hvalid⟩ := valid_right_iff t max_char
  obtain ⟨ret, str_buf, ds, htruncate, hds, hcut⟩ := truncate_spec t max_char
  refine ⟨scan, ret, str_buf, hscan, htruncate, hvalid, ?_⟩
  by_cases h0 : max_char = 0
  · subst h0
    exact truncated_zero_iff hds hcut
  · rw [limitOf, if_neg h0] at hds
    rw [CutRight, if_neg h0]
    exact truncated_iff_noneMissed hds hcut

/-- The bytes `ED A0 80` of a surrogate. -/
def surrogate : Utf8Text :=
  ⟨[0xED, 0xA0, 0x80], 3, by decide, by decide⟩

/-- The surrogate is accepted as one character. -/
theorem surrogate_accepted :
    oscl_str_is_valid_utf8 surrogate.str_buf surrogate.max_bytes 0 = some ⟨true, 1, 3⟩ ∧
    ¬ ValidRight (limitOf 0) surrogate.bytes ⟨true, 1, 3⟩ := by
  have hlongest : Longest Utf8Char (limitOf 0) surrogate.bytes [] := by
    refine longest_of_stops (accepted_prefixCode.mono fun _ => Utf8Char.accepted)
      (Begins.nil _ _ _) (inr fun c hc hpre => ?_)
    have hall : ∀ c ∈ surrogate.bytes.inits, ¬ Utf8Char c := by decide
    exact hall c ((mem_inits c surrogate.bytes).mpr hpre) hc
  constructor
  · have hmissed : Missed [0xED, 0xA0, 0x80] := ⟨rfl, by decide, by decide, by decide⟩
    have hchar : Accepted surrogate.bytes := (accepted_iff _).mpr (inr hmissed)
    have hat : Utf8At 3 3 (surrogate.bytes ++ []) [] := ⟨nofun, fun _ => rfl⟩
    have hloop := @utf8Loop_char 3 0 3 0 0 [] [] surrogate.bytes hchar hat
    rw [add32_eq (by decide), add32_eq (by decide)] at hloop
    exact hloop.trans (if_pos (inl ⟨by decide, rfl⟩))
  · rintro ⟨-, cs, hcs, hcount, -⟩
    rw [hcs.unique (accepted_prefixCode.mono fun _ => Utf8Char.accepted) hlongest] at hcount
    exact absurd hcount (by decide)

end OpenCore.OsclUtil
