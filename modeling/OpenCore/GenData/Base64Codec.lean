/-
  File:      OpenCore/GenData/Base64Codec.lean
  Subject:   BASE64: encoding and decoding between buffers.

  A run is described by what it returns, the octets it writes to the output buffer one behind the
  other and the number of octets it reads from the input buffer. Both loops read before they compare
  with the length of the input, and write before they compare with the size of the output.

  **Main result**: `base64_iff`.
-/
import Mathlib

namespace OpenCore.GenData.Base64

open List Option
open Or (inl inr)

/-! ## 1. The tables -/

/-- The characters from `first` on. -/
def run (first : Char) (n : Nat) : List UInt8 :=
  (List.range n).map fun i => UInt8.ofNat (first.toNat + i)

def etable : List UInt8 :=
  run 'A' 9 ++ run 'J' 9 ++ run 'S' 8 ++ run 'a' 9 ++ run 'j' 9 ++ run 's' 8 ++ run '0' 10 ++
    [0x2b, 0x2f]

/-- `=`. -/
def pad : UInt8 := 0x3d

/-- The value of a character `c` in a run from `first` to `last`. -/
def inRun (first last : Char) (base : Nat) (c : UInt8) : Option Nat :=
  if first.toNat ≤ c.toNat ∧ c.toNat ≤ last.toNat then some (base + (c.toNat - first.toNat))
  else none

/-- `dtable`, of which the constructor leaves the last entry `u` as it is. -/
def dtable (u c : UInt8) : Nat :=
  if c = 255 then u.toNat
  else if c = 0x2b then 62
  else if c = 0x2f then 63
  else if c = pad then 0
  else
    (inRun 'A' 'I' 0 c <|> inRun 'J' 'R' 9 c <|> inRun 'S' 'Z' 18 c <|> inRun 'a' 'i' 26 c <|>
      inRun 'j' 'r' 35 c <|> inRun 's' 'z' 44 c <|> inRun '0' '9' 52 c).getD 0x80

/-! ## 2. The two methods -/

/-- What a run returns, writes and reads. -/
structure Coded where
  returned : Bool
  written : List UInt8
  read : Nat
  deriving DecidableEq, Repr

/-- The octets of a group of three: those there are, the rest of the input and how many octets are
    read. -/
def encodeRead : Nat → List UInt8 → List UInt8 × List UInt8 × Nat
  | 0, input => ([], input, 0)
  -- the octet behind the input is read, too
  | _ + 1, [] => ([], [], 1)
  | n + 1, c :: input =>
    let r := encodeRead n input
    (c :: r.1, r.2.1, r.2.2 + 1)

/-- The four characters of a group. -/
def encodeGroup (group : List UInt8) : List UInt8 :=
  let n := group.length
  let g := fun i => (group.getD i 0).toNat
  let e := fun i => etable.getD i 0
  [e (g 0 >>> 2), e (((g 0 &&& 3) <<< 4) ||| (g 1 >>> 4)),
    if n < 2 then pad else e (((g 1 &&& 0xf) <<< 2) ||| (g 2 >>> 6)),
    if n < 3 then pad else e (g 2 &&& 0x3f)]

/-- Characters are written, with a check behind each. -/
def put (aMaxOutBufLen : Nat) : List UInt8 → List UInt8 → List UInt8 × Bool
  | [], out => (out, true)
  | c :: cs, out =>
    if (out ++ [c]).length > aMaxOutBufLen then (out ++ [c], false)
    else put aMaxOutBufLen cs (out ++ [c])

/-- The loop of `Encode`. -/
def encodeLoop (aMaxOutBufLen : Nat) : Nat → List UInt8 → List UInt8 → Nat → Coded
  | 0, _, out, read => ⟨true, out, read⟩
  | fuel + 1, input, out, read =>
    if input = [] then ⟨true, out, read⟩
    else
      let (group, rest, n) := encodeRead 3 input
      let (out, fits) := put aMaxOutBufLen (encodeGroup group) out
      if fits then encodeLoop aMaxOutBufLen fuel rest out (read + n)
      else ⟨false, out, read + n⟩

def Encode (input : List UInt8) (aMaxOutBufLen : Nat) : Coded :=
  encodeLoop aMaxOutBufLen input.length input [] 0

/-- The characters of a group of four: those there are, the rest of the input and how many are
    read; nothing where the input ends before. -/
def decodeRead (u : UInt8) : Nat → List UInt8 → Option (List UInt8 × List UInt8) × Nat
  | 0, input => (some ([], input), 0)
  -- the octet behind the input is read, too
  | _ + 1, [] => (none, 1)
  | n + 1, c :: input =>
    if dtable u c &&& 0x80 ≠ 0 then
      let r := decodeRead u (n + 1) input
      (r.1, r.2 + 1)
    else
      let r := decodeRead u n input
      (r.1.map fun x => (c :: x.1, x.2), r.2 + 1)

/-- The octets of a group. -/
def decodeGroup (u : UInt8) (a : List UInt8) : List UInt8 :=
  let b := fun i => dtable u (a.getD i 0)
  let o := [UInt8.ofNat ((b 0 <<< 2) ||| (b 1 >>> 4)), UInt8.ofNat ((b 1 <<< 4) ||| (b 2 >>> 2)),
    UInt8.ofNat ((b 2 <<< 6) ||| b 3)]
  o.take (if a.getD 2 0 = pad then 1 else if a.getD 3 0 = pad then 2 else 3)

/-- The loop of `Decode`. -/
def decodeLoop (u : UInt8) (aMaxOutBufLen : Nat) : Nat → List UInt8 → List UInt8 → Nat → Coded
  | 0, _, out, read => ⟨true, out, read⟩
  | fuel + 1, input, out, read =>
    if input = [] then ⟨true, out, read⟩
    else
      match decodeRead u 4 input with
      | (none, n) => ⟨false, out, read + n⟩
      | (some (a, rest), n) =>
        let o := decodeGroup u a
        let out := out ++ o
        if out.length > aMaxOutBufLen then ⟨false, out, read + n⟩
        else if o.length < 3 then ⟨true, out, read + n⟩
        else decodeLoop u aMaxOutBufLen fuel rest out (read + n)

def Decode (u : UInt8) (input : List UInt8) (aMaxOutBufLen : Nat) : Coded :=
  decodeLoop u aMaxOutBufLen input.length input [] 0

example : Encode [1, 2, 3, 250] 8 =
    ⟨true, [0x41, 0x51, 0x49, 0x44, 0x2b, 0x67, 0x3d, 0x3d], 5⟩ := by decide

/-! ## 3. What a text stands for -/

/-- A character of the alphabet, the padding among them. -/
def inAlphabet (c : UInt8) : Bool := decide (c ∈ etable ∨ c = pad)

/-- A character that the table does not skip. -/
def legal (u c : UInt8) : Bool := decide (dtable u c &&& 0x80 = 0)

/-- The characters of a text that count. -/
def chars (u : UInt8) (text : List UInt8) : List UInt8 := text.filter (legal u)

/-- The number of octets that groups of four characters stand for, and whether a padded group ends
    them; nothing where the last group is not whole. -/
def measure : List UInt8 → Option (Nat × Bool)
  | [] => some (0, false)
  | _ :: _ :: c :: d :: rest =>
    if c = pad then some (1, true)
    else if d = pad then some (2, true)
    else (measure rest).map fun m => (m.1 + 3, m.2)
  | _ => none

/-- The octets that groups of four characters stand for. -/
def decoded (u : UInt8) : List UInt8 → List UInt8
  | a :: b :: c :: d :: rest =>
    if (decodeGroup u [a, b, c, d]).length < 3 then decodeGroup u [a, b, c, d]
    else decodeGroup u [a, b, c, d] ++ decoded u rest
  | _ => []

/-- The reader is at the end when the last group is: behind the padding, or with the last character
    of the text, which counts. -/
def EndsWell (u : UInt8) (text : List UInt8) (padded : Bool) : Prop :=
  padded = true ∨ ∀ c ∈ text.getLast?, legal u c = true

/-- A text that is decoded within an output buffer. -/
def Decodable (u : UInt8) (text : List UInt8) (aMaxOutBufLen : Nat) : Prop :=
  ∃ m, measure (chars u text) = some m ∧ m.1 ≤ aMaxOutBufLen ∧ EndsWell u text m.2

/-- The characters of a text that are not padding. -/
def core : List UInt8 → List UInt8
  | [] => []
  | [a] => (encodeGroup [a]).take 2
  | [a, b] => (encodeGroup [a, b]).take 3
  | a :: b :: c :: rest => encodeGroup [a, b, c] ++ core rest

/-- The padding behind them. -/
def pads (n : Nat) : List UInt8 :=
  if n % 3 = 0 then [] else if n % 3 = 1 then [pad, pad] else [pad]

/-! ## 4. A group of four -/

theorem or_eq_add {k b : Nat} (a : Nat) (h : b < 2 ^ k) : (a <<< k) ||| b = a * 2 ^ k + b := by
  rw [← Nat.shiftLeft_add_eq_or_of_lt h, Nat.shiftLeft_eq]

theorem forall_octet {P : UInt8 → Prop} (h : ∀ n < 256, P (UInt8.ofNat n)) (c : UInt8) : P c := by
  have hc := h c.toNat c.toNat_lt
  rwa [UInt8.ofNat_toNat] at hc

theorem dtable_of_ne {u c : UInt8} (h : c ≠ 255) : dtable u c = dtable 0 c := by
  unfold dtable
  rw [if_neg h, if_neg h]

/-- A character of the table is in the alphabet, is no padding, and has its place as value. -/
theorem dtable_etable (u : UInt8) {i : Nat} (h : i < 64) :
    dtable u (etable.getD i 0) = i ∧ etable.getD i 0 ≠ pad ∧ inAlphabet (etable.getD i 0) = true := by
  have hall : ∀ i < 64, etable.getD i 0 ≠ 255 ∧ dtable 0 (etable.getD i 0) = i ∧
      etable.getD i 0 ≠ pad ∧ inAlphabet (etable.getD i 0) = true := by decide +kernel
  obtain ⟨h255, hval, hpad, hin⟩ := hall i h
  exact ⟨(dtable_of_ne h255).trans hval, hpad, hin⟩

theorem legal_iff (u c : UInt8) :
    legal u c = true ↔ inAlphabet c = true ∨ c = 255 ∧ u &&& 0x80 = 0 := by
  by_cases hc : c = 255
  · subst hc
    have hin : inAlphabet 255 = false := by decide +kernel
    have hall : ∀ n < 256, (legal (UInt8.ofNat n) 255 = true ↔ UInt8.ofNat n &&& 0x80 = 0) := by
      decide +kernel
    have hu := forall_octet (P := fun u => legal u 255 = true ↔ u &&& 0x80 = 0) hall u
    simp [hin, hu]
  · have hall : ∀ n < 256, UInt8.ofNat n ≠ 255 →
        (legal 0 (UInt8.ofNat n) = true ↔ inAlphabet (UInt8.ofNat n) = true) := by decide +kernel
    have hz := forall_octet (P := fun c => c ≠ 255 → (legal 0 c = true ↔ inAlphabet c = true))
      hall c hc
    have hu : legal u c = legal 0 c := by
      unfold legal
      rw [dtable_of_ne hc]
    simp [hu, hz, hc]

theorem legal_of_inAlphabet {u c : UInt8} (h : inAlphabet c = true) : legal u c = true :=
  (legal_iff u c).2 (inl h)

theorem inAlphabet_pad : inAlphabet pad = true := by decide +kernel

theorem encodeGroup_three (a b c : UInt8) :
    encodeGroup [a, b, c] = [etable.getD (a.toNat / 4) 0,
      etable.getD (a.toNat % 4 * 16 + b.toNat / 16) 0,
      etable.getD (b.toNat % 16 * 4 + c.toNat / 64) 0, etable.getD (c.toNat % 64) 0] := by
  have hb := b.toNat_lt
  have hc := c.toNat_lt
  have h1 := or_eq_add (k := 4) (a.toNat % 4) (b := b.toNat / 16) (by omega)
  have h2 := or_eq_add (k := 2) (b.toNat % 16) (b := c.toNat / 64) (by omega)
  have h3 := Nat.and_two_pow_sub_one_eq_mod a.toNat 2
  have h15 := Nat.and_two_pow_sub_one_eq_mod b.toNat 4
  have h63 := Nat.and_two_pow_sub_one_eq_mod c.toNat 6
  norm_num at h1 h2 h3 h15 h63
  simp [encodeGroup, Nat.shiftRight_eq_div_pow, h3, h15, h63, h1, h2]

theorem encodeGroup_two (a b : UInt8) :
    encodeGroup [a, b] = [etable.getD (a.toNat / 4) 0,
      etable.getD (a.toNat % 4 * 16 + b.toNat / 16) 0, etable.getD (b.toNat % 16 * 4) 0, pad] := by
  have h := encodeGroup_three a b 0
  have hc : (0 : UInt8).toNat = 0 := rfl
  simp only [encodeGroup, getD_cons_zero, getD_cons_succ, length_cons,
    length_nil, getD_nil, hc] at h ⊢
  simp at h ⊢
  tauto

theorem encodeGroup_one (a : UInt8) :
    encodeGroup [a] =
      [etable.getD (a.toNat / 4) 0, etable.getD (a.toNat % 4 * 16) 0, pad, pad] := by
  have h := encodeGroup_three a 0 0
  have hc : (0 : UInt8).toNat = 0 := rfl
  simp only [encodeGroup, getD_cons_zero, getD_cons_succ, length_cons,
    length_nil, getD_nil, hc] at h ⊢
  simp at h ⊢
  tauto

theorem decodeGroup_four (u a b c d : UInt8) (hb : dtable u b < 64) (hc : dtable u c < 64)
    (hd : dtable u d < 64) :
    decodeGroup u [a, b, c, d] = [UInt8.ofNat (dtable u a * 4 + dtable u b / 16),
      UInt8.ofNat (dtable u b * 16 + dtable u c / 4), UInt8.ofNat (dtable u c * 64 + dtable u d)].take
        (if c = pad then 1 else if d = pad then 2 else 3) := by
  have h1 := or_eq_add (k := 2) (dtable u a) (b := dtable u b / 16) (by omega)
  have h2 := or_eq_add (k := 4) (dtable u b) (b := dtable u c / 4) (by omega)
  have h3 := or_eq_add (k := 6) (dtable u c) (b := dtable u d) (by omega)
  norm_num at h1 h2 h3
  simp [decodeGroup, Nat.shiftRight_eq_div_pow, h1, h2, h3]

theorem decodeGroup_length (u a b c d : UInt8) :
    (decodeGroup u [a, b, c, d]).length = if c = pad then 1 else if d = pad then 2 else 3 := by
  unfold decodeGroup
  simp only [getD_cons_zero, getD_cons_succ]
  split
  · rfl
  · split <;> rfl

/-- With its third character padding, a group is one octet, whatever its last character. -/
theorem decodeGroup_third_pad (u a b d : UInt8) :
    decodeGroup u [a, b, pad, d] = decodeGroup u [a, b, pad, pad] := by
  simp [decodeGroup]

theorem decodeGroup_encodeGroup (u a b c : UInt8) :
    decodeGroup u (encodeGroup [a, b, c]) = [a, b, c] := by
  have ha := a.toNat_lt
  have hb := b.toNat_lt
  have hc := c.toNat_lt
  obtain ⟨v0, -, -⟩ := dtable_etable u (i := a.toNat / 4) (by omega)
  obtain ⟨v1, -, -⟩ := dtable_etable u (i := a.toNat % 4 * 16 + b.toNat / 16) (by omega)
  obtain ⟨v2, p2, -⟩ := dtable_etable u (i := b.toNat % 16 * 4 + c.toNat / 64) (by omega)
  obtain ⟨v3, p3, -⟩ := dtable_etable u (i := c.toNat % 64) (by omega)
  rw [encodeGroup_three, decodeGroup_four u _ _ _ _ (by omega) (by omega) (by omega), v0, v1, v2, v3,
    if_neg p2, if_neg p3]
  have e0 : UInt8.ofNat (a.toNat / 4 * 4 + (a.toNat % 4 * 16 + b.toNat / 16) / 16) = a := by
    rw [show a.toNat / 4 * 4 + (a.toNat % 4 * 16 + b.toNat / 16) / 16 = a.toNat by omega,
      UInt8.ofNat_toNat]
  have e1 : UInt8.ofNat ((a.toNat % 4 * 16 + b.toNat / 16) * 16 +
      (b.toNat % 16 * 4 + c.toNat / 64) / 4) = b := by
    apply UInt8.toNat_inj.1
    rw [UInt8.toNat_ofNat']
    omega
  have e2 : UInt8.ofNat ((b.toNat % 16 * 4 + c.toNat / 64) * 64 + c.toNat % 64) = c := by
    apply UInt8.toNat_inj.1
    rw [UInt8.toNat_ofNat']
    omega
  rw [e0, e1, e2]
  rfl

/-- A padded group is the full group cut short, whatever stood in place of the padding. -/
theorem decodeGroup_pad {c d : UInt8} (u a b : UInt8) (hc : c ≠ pad) (hd : d ≠ pad) :
    decodeGroup u [a, b, c, pad] = (decodeGroup u [a, b, c, d]).take 2 ∧
      decodeGroup u [a, b, pad, pad] = (decodeGroup u [a, b, c, d]).take 1 := by
  simp [decodeGroup, hc, hd]

theorem decodeGroup_encodeGroup_two (u a b : UInt8) :
    decodeGroup u (encodeGroup [a, b]) = [a, b] := by
  have h := decodeGroup_encodeGroup u a b 0
  obtain ⟨-, p2, -⟩ := dtable_etable u (i := b.toNat % 16 * 4) (by omega)
  rw [encodeGroup_three] at h
  rw [encodeGroup_two, (decodeGroup_pad u _ _ p2 (dtable_etable u (i := 0) (by omega)).2.1).1]
  exact congrArg (take 2) h

theorem decodeGroup_encodeGroup_one (u a : UInt8) : decodeGroup u (encodeGroup [a]) = [a] := by
  have h := decodeGroup_encodeGroup u a 0 0
  have p := (dtable_etable u (i := 0) (by omega)).2.1
  rw [encodeGroup_three] at h
  rw [encodeGroup_one, (decodeGroup_pad u _ _ p p).2]
  exact congrArg (take 1) h

/-! ## 5. Groups in a row -/

/-- What may stand behind the characters of `n` octets: nothing, or padding of which the first
    character counts and the others need only be there. -/
def Behind (n : Nat) (t : List UInt8) : Prop :=
  if n % 3 = 0 then t = []
  else if n % 3 = 1 then ∃ d r, t = pad :: d :: r
  else ∃ r, t = pad :: r

/-- The octets of a text come back from its characters. -/
theorem decoded_core (u : UInt8) (x t : List UInt8) (ht : Behind x.length t) :
    decoded u (core x ++ t) = x ∧
      measure (core x ++ t) = some (x.length, decide (x.length % 3 ≠ 0)) := by
  fun_induction core x with
  | case1 =>
    have hnil : t = [] := ht
    subst hnil
    exact ⟨rfl, rfl⟩
  | case2 a =>
    obtain ⟨d, r, rfl⟩ : ∃ d r, t = pad :: d :: r := ht
    have hg := decodeGroup_encodeGroup_one u a
    rw [encodeGroup_one] at hg ⊢
    rw [← decodeGroup_third_pad u _ _ d] at hg
    simp only [take_succ_cons, take_zero, cons_append, nil_append, decoded,
      measure, hg, if_pos]
    simp
  | case3 a b =>
    obtain ⟨r, rfl⟩ : ∃ r, t = pad :: r := ht
    have hb := b.toNat_lt
    have hg := decodeGroup_encodeGroup_two u a b
    obtain ⟨-, p2, -⟩ := dtable_etable u (i := b.toNat % 16 * 4) (by omega)
    rw [encodeGroup_two] at hg ⊢
    simp only [take_succ_cons, take_zero, cons_append, nil_append, decoded,
      measure, hg, if_neg p2, if_pos]
    simp
  | case4 a b c rest ih =>
    have hb := b.toNat_lt
    have hc := c.toNat_lt
    have hlen : (a :: b :: c :: rest).length % 3 = rest.length % 3 := by
      simp only [length_cons]
      omega
    have ht' : Behind rest.length t := by
      unfold Behind at ht ⊢
      rwa [hlen] at ht
    obtain ⟨hdec, hmeas⟩ := ih ht'
    have hg := decodeGroup_encodeGroup u a b c
    obtain ⟨-, p2, -⟩ := dtable_etable u (i := b.toNat % 16 * 4 + c.toNat / 64) (by omega)
    obtain ⟨-, p3, -⟩ := dtable_etable u (i := c.toNat % 64) (by omega)
    rw [encodeGroup_three] at hg ⊢
    rw [hlen]
    simp only [cons_append, nil_append, decoded, measure, hg, if_neg p2, if_neg p3, hdec,
      hmeas]
    simp

/-- The characters of a group of three are in the alphabet, and no padding. -/
theorem encodeGroup_chars (a b c : UInt8) :
    ∀ e ∈ encodeGroup [a, b, c], inAlphabet e = true ∧ e ≠ pad := by
  have ha := a.toNat_lt
  have hb := b.toNat_lt
  have hc := c.toNat_lt
  have hall : ∀ i < 64, inAlphabet (etable.getD i 0) = true ∧ etable.getD i 0 ≠ pad :=
    fun i hi => ⟨(dtable_etable 0 hi).2.2, (dtable_etable 0 hi).2.1⟩
  intro e he
  rw [encodeGroup_three] at he
  rcases mem_cons.1 he with rfl | he
  · exact hall _ (by omega)
  rcases mem_cons.1 he with rfl | he
  · exact hall _ (by omega)
  rcases mem_cons.1 he with rfl | he
  · exact hall _ (by omega)
  rw [mem_singleton] at he
  subst he
  exact hall _ (by omega)

theorem core_chars (x : List UInt8) : ∀ e ∈ core x, inAlphabet e = true ∧ e ≠ pad := by
  fun_induction core x with
  | case1 => simp
  | case2 a =>
    intro e he
    refine encodeGroup_chars a 0 0 e ?_
    have h0 : (0 : UInt8).toNat = 0 := rfl
    rw [encodeGroup_one] at he
    rw [encodeGroup_three, h0]
    simp only [take_succ_cons, take_zero, mem_cons, not_mem_nil, or_false] at he
    rcases he with rfl | rfl <;> simp
  | case3 a b =>
    intro e he
    refine encodeGroup_chars a b 0 e ?_
    have h0 : (0 : UInt8).toNat = 0 := rfl
    rw [encodeGroup_two] at he
    rw [encodeGroup_three, h0]
    simp only [take_succ_cons, take_zero, mem_cons, not_mem_nil, or_false] at he
    rcases he with rfl | rfl | rfl <;> simp
  | case4 a b c rest ih =>
    intro e he
    rcases mem_append.1 he with he | he
    · exact encodeGroup_chars a b c e he
    · exact ih e he

theorem core_length (x : List UInt8) : (core x).length = (4 * x.length + 2) / 3 := by
  fun_induction core x with
  | case1 => rfl
  | case2 a => simp [encodeGroup]
  | case3 a b => simp [encodeGroup]
  | case4 a b c rest ih =>
    rw [length_append, ih]
    simp only [encodeGroup, length_cons, length_nil]
    omega

variable {m : Nat × Bool}

/-- Characters without padding count for three octets a group, and end with a whole group. -/
theorem measure_unpadded {w t : List UInt8} (hw : pad ∉ w)
    (h : measure (w ++ t) = some m) :
    3 * w.length / 4 ≤ m.1 ∧ (t = [] → w.length % 4 = 0 ∧ m.2 = false) := by
  induction hn : w.length using Nat.strong_induction_on generalizing w m with
  | _ n ih =>
    subst hn
    rcases w with _ | ⟨a, _ | ⟨b, _ | ⟨c, _ | ⟨d, w⟩⟩⟩⟩
    · refine ⟨by simp, fun ht => ?_⟩
      subst ht
      cases h
      exact ⟨rfl, rfl⟩
    · rcases t with _ | ⟨b, _ | ⟨c, _ | ⟨d, t⟩⟩⟩ <;> simp_all [measure]
    · rcases t with _ | ⟨c, _ | ⟨d, t⟩⟩
      · simp [measure] at h
      · simp [measure] at h
      · refine ⟨?_, by simp⟩
        simp only [cons_append, nil_append, measure] at h
        simp only [length_cons, length_nil]
        split at h
        · cases h
          decide
        · split at h
          · cases h
            decide
          · obtain ⟨m', -, rfl⟩ := map_eq_some_iff.1 h
            dsimp only
            omega
    · rcases t with _ | ⟨d, t⟩
      · simp [measure] at h
      · refine ⟨?_, by simp⟩
        have hc : c ≠ pad := fun hc => hw (by simp [hc])
        simp only [cons_append, nil_append, measure, if_neg hc] at h
        simp only [length_cons, length_nil]
        split at h
        · cases h
          decide
        · obtain ⟨m', -, rfl⟩ := map_eq_some_iff.1 h
          dsimp only
          omega
    · have hc : c ≠ pad := fun hc => hw (by simp [hc])
      have hd : d ≠ pad := fun hd => hw (by simp [hd])
      have hw' : pad ∉ w := fun hw' => hw (by simp [hw'])
      simp only [cons_append, measure, if_neg hc, if_neg hd] at h
      obtain ⟨m', hm', rfl⟩ := map_eq_some_iff.1 h
      simp only [length_cons] at ih ⊢
      obtain ⟨hle, hend⟩ := ih w.length (by omega) hw' hm' rfl
      refine ⟨by omega, fun ht => ?_⟩
      obtain ⟨hmod, hfalse⟩ := hend ht
      exact ⟨by omega, hfalse⟩

/-- As many octets are decoded as the groups stand for. -/
theorem decoded_length (u : UInt8) {z : List UInt8} (h : measure z = some m) :
    (decoded u z).length = m.1 := by
  fun_induction decoded u z generalizing m with
  | case1 a b c d rest hlt =>
    have hlen := decodeGroup_length u a b c d
    simp only [measure] at h
    split at h
    · rename_i hc
      cases h
      exact hlen.trans (if_pos hc)
    · rename_i hc
      split at h
      · rename_i hd
        cases h
        rw [if_neg hc, if_pos hd] at hlen
        exact hlen
      · rename_i hd
        rw [if_neg hc, if_neg hd] at hlen
        omega
  | case2 a b c d rest hge ih =>
    have hlen := decodeGroup_length u a b c d
    simp only [measure] at h
    split at h
    · rename_i hc
      rw [if_pos hc] at hlen
      omega
    · rename_i hc
      split at h
      · rename_i hd
        rw [if_neg hc, if_pos hd] at hlen
        omega
      · rename_i hd
        rw [if_neg hc, if_neg hd] at hlen
        obtain ⟨m', hm', rfl⟩ := map_eq_some_iff.1 h
        rw [length_append, ih hm']
        dsimp only
        omega
  | case3 z hz =>
    rcases z with _ | ⟨a, _ | ⟨b, _ | ⟨c, _ | ⟨d, z⟩⟩⟩⟩
    · cases h
      rfl
    · simp [measure] at h
    · simp [measure] at h
    · simp [measure] at h
    · exact absurd rfl (hz a b c d z)

/-! ## 6. The loop of `Decode` -/

variable {text : List UInt8}

section Loop

variable {u : UInt8}

theorem chars_append (l m : List UInt8) : chars u (l ++ m) = chars u l ++ chars u m :=
  filter_append ..

theorem chars_cons_of_legal {c : UInt8} (h : legal u c = true) (l : List UInt8) :
    chars u (c :: l) = c :: chars u l :=
  filter_cons_of_pos h

theorem chars_cons_of_not {c : UInt8} (h : ¬ legal u c = true) (l : List UInt8) :
    chars u (c :: l) = chars u l :=
  filter_cons_of_neg h

theorem not_legal_iff (c : UInt8) : ¬ legal u c = true ↔ dtable u c &&& 0x80 ≠ 0 := by
  simp [legal]

/-- With too few characters left, the octet behind the text is read. -/
theorem decodeRead_none {n : Nat} (h : (chars u text).length < n) :
    decodeRead u n text = (none, text.length + 1) := by
  fun_induction decodeRead u n text with
  | case1 => simp at h
  | case2 => rfl
  | case3 n c text hc r ih =>
    rw [chars_cons_of_not ((not_legal_iff c).2 hc)] at h
    dsimp only [r]
    rw [ih h]
    rfl
  | case4 n c text hc r ih =>
    rw [chars_cons_of_legal (not_not.1 (mt (not_legal_iff c).1 hc)), length_cons] at h
    dsimp only [r]
    rw [ih (by omega)]
    rfl

/-- With enough of them, the text is read up to the last character of the group. -/
theorem decodeRead_some {n : Nat} (h : n ≤ (chars u text).length) :
    ∃ l rest, text = l ++ rest ∧ decodeRead u n text = (some (chars u l, rest), l.length) ∧
      (chars u l).length = n ∧ (0 < n → ∃ c ∈ l.getLast?, legal u c = true) := by
  fun_induction decodeRead u n text with
  | case1 text => exact ⟨[], text, rfl, rfl, rfl, by simp⟩
  | case2 n => simp [chars] at h
  | case3 n c text hc r ih =>
    have hleg := (not_legal_iff c).2 hc
    rw [chars_cons_of_not hleg] at h
    obtain ⟨l, rest, htext, hread, hlen, hlast⟩ := ih h
    obtain ⟨e, he, hel⟩ := hlast (Nat.succ_pos n)
    refine ⟨c :: l, rest, by rw [htext]; rfl, ?_, ?_, fun _ => ⟨e, ?_, hel⟩⟩
    · dsimp only [r]
      rw [hread, chars_cons_of_not hleg]
      rfl
    · rwa [chars_cons_of_not hleg]
    · rw [mem_def] at he ⊢
      rw [getLast?_cons, he]
      rfl
  | case4 n c text hc r ih =>
    have hleg := not_not.1 (mt (not_legal_iff c).1 hc)
    rw [chars_cons_of_legal hleg, length_cons] at h
    obtain ⟨l, rest, htext, hread, hlen, hlast⟩ := ih (by omega)
    refine ⟨c :: l, rest, by rw [htext]; rfl, ?_, ?_, fun _ => ?_⟩
    · dsimp only [r]
      rw [hread, chars_cons_of_legal hleg]
      rfl
    · rw [chars_cons_of_legal hleg, length_cons, hlen]
    · rw [getLast?_cons]
      rcases Nat.eq_zero_or_pos n with rfl | hpos
      · rcases l with _ | ⟨e, l⟩
        · exact ⟨c, rfl, hleg⟩
        · rw [decodeRead] at hread
          exact absurd (congrArg Prod.snd hread) (Nat.succ_ne_zero l.length).symm
      · obtain ⟨e, he, hel⟩ := hlast hpos
        rw [mem_def] at he
        exact ⟨e, by rw [he]; rfl, hel⟩

theorem endsWell_append {l rest : List UInt8} {p : Bool}
    (h : ∃ c ∈ l.getLast?, legal u c = true) : EndsWell u (l ++ rest) p ↔ EndsWell u rest p := by
  obtain ⟨c, hc, hleg⟩ := h
  unfold EndsWell
  rcases rest with _ | ⟨d, rest⟩
  · simp_all
  · rw [getLast?_append]
    simp

/-- A group that is read counts with what is behind it, unless padding ends the text there. -/
theorem decodable_group {l rest : List UInt8} {a b c d : UInt8} (hl : chars u l = [a, b, c, d])
    (hlast : ∃ c ∈ l.getLast?, legal u c = true) (n : Nat) :
    Decodable u (l ++ rest) n ↔
      if (decodeGroup u [a, b, c, d]).length < 3 then (decodeGroup u [a, b, c, d]).length ≤ n
      else 3 ≤ n ∧ Decodable u rest (n - 3) := by
  have hlen := decodeGroup_length u a b c d
  have hchars : chars u (l ++ rest) = a :: b :: c :: d :: chars u rest := by
    rw [chars_append, hl]
    rfl
  unfold Decodable
  rw [hchars, measure]
  by_cases hc : c = pad
  · rw [if_pos hc] at hlen
    rw [if_pos hc, hlen, if_pos (by decide)]
    constructor
    · rintro ⟨m, hm, hle, -⟩
      cases hm
      exact hle
    · exact fun hle => ⟨_, rfl, hle, inl rfl⟩
  by_cases hd : d = pad
  · rw [if_neg hc, if_pos hd] at hlen
    rw [if_neg hc, if_pos hd, hlen, if_pos (by decide)]
    constructor
    · rintro ⟨m, hm, hle, -⟩
      cases hm
      exact hle
    · exact fun hle => ⟨_, rfl, hle, inl rfl⟩
  rw [if_neg hc, if_neg hd] at hlen
  rw [if_neg hc, if_neg hd, hlen, if_neg (by decide)]
  constructor
  · rintro ⟨m, hm, hle, hend⟩
    obtain ⟨m', hm', rfl⟩ := map_eq_some_iff.1 hm
    dsimp only at hle hend
    exact ⟨by omega, m', hm', by omega, (endsWell_append hlast).1 hend⟩
  · rintro ⟨h3, m, hm, hle, hend⟩
    refine ⟨(m.1 + 3, m.2), by rw [hm]; rfl, by dsimp only; omega, ?_⟩
    exact (endsWell_append hlast).2 hend

/-- **The loop of `Decode`** succeeds, within its buffers, or leaves one of them and fails. -/
theorem decodeLoop_spec (aMaxOutBufLen fuel : Nat) {out : List UInt8} (read : Nat)
    (hfuel : text.length ≤ fuel) (hout : out.length ≤ aMaxOutBufLen) {r : Coded}
    (hr : decodeLoop u aMaxOutBufLen fuel text out read = r) :
    (Decodable u text (aMaxOutBufLen - out.length) ∧ r.returned = true ∧
      r.written = out ++ decoded u (chars u text) ∧
        r.written.length ≤ aMaxOutBufLen ∧ r.read ≤ read + text.length) ∨
    (¬ Decodable u text (aMaxOutBufLen - out.length) ∧ r.returned = false ∧
      (aMaxOutBufLen < r.written.length ∨ read + text.length < r.read)) := by
  induction fuel generalizing text out read with
  | zero =>
    have hnil : text = [] := eq_nil_of_length_eq_zero (Nat.le_zero.1 hfuel)
    subst hnil hr
    exact inl ⟨⟨_, rfl, Nat.zero_le _, inr (by simp)⟩, rfl, (append_nil out).symm, hout,
      le_rfl⟩
  | succ fuel ih =>
    by_cases hnil : text = []
    · subst hnil hr
      exact inl ⟨⟨_, rfl, Nat.zero_le _, inr (by simp)⟩, rfl, (append_nil out).symm,
        hout, le_rfl⟩
    rw [decodeLoop, if_neg hnil] at hr
    rcases Nat.lt_or_ge (chars u text).length 4 with hfew | hmany
    · rw [decodeRead_none hfew] at hr
      subst hr
      refine inr ⟨?_, rfl, inr (by dsimp only; omega)⟩
      · rintro ⟨m, hm, -, hend⟩
        -- only the empty text has less than a group, and here its last character does not count
        have hz : chars u text = [] ∧ m = (0, false) := by
          rcases hz : chars u text with _ | ⟨a, _ | ⟨b, _ | ⟨c, _ | ⟨d, z⟩⟩⟩⟩
          · rw [hz] at hm
            cases hm
            exact ⟨rfl, rfl⟩
          · rw [hz] at hm
            simp [measure] at hm
          · rw [hz] at hm
            simp [measure] at hm
          · rw [hz] at hm
            simp [measure] at hm
          · rw [hz] at hfew
            simp only [length_cons] at hfew
            omega
        obtain ⟨hz, rfl⟩ := hz
        rcases hend with hend | hend
        · exact absurd hend (by decide)
        · have hlast := hend _ (getLast_mem_getLast? hnil)
          have hmem : text.getLast hnil ∈ chars u text :=
            mem_filter.2 ⟨getLast_mem hnil, hlast⟩
          rw [hz] at hmem
          exact not_mem_nil hmem
    · obtain ⟨l, rest, rfl, hread, hlen, hlast⟩ := decodeRead_some hmany
      rw [hread] at hr
      dsimp only at hr
      obtain ⟨a, b, c, d, hl⟩ : ∃ a b c d, chars u l = [a, b, c, d] := by
        rcases hz : chars u l with _ | ⟨a, _ | ⟨b, _ | ⟨c, _ | ⟨d, _ | ⟨e, z⟩⟩⟩⟩⟩ <;>
          simp_all
      have hlpos : 0 < l.length := by
        have hle : (chars u l).length ≤ l.length := length_filter_le _ _
        omega
      have hiff := @decodable_group u l rest _ _ _ _ hl (hlast (by omega))
        (aMaxOutBufLen - out.length)
      have hg := decodeGroup_length u a b c d
      have hchars : chars u (l ++ rest) = a :: b :: c :: d :: chars u rest := by
        rw [chars_append, hl]
        rfl
      rw [hl] at hr
      rw [hchars, decoded]
      simp only [length_append] at hr hfuel ⊢
      by_cases hbig : aMaxOutBufLen < out.length + (decodeGroup u [a, b, c, d]).length
      · rw [if_pos hbig] at hr
        subst hr
        refine inr ⟨?_, rfl, inl (by rw [length_append]; exact hbig)⟩
        rw [hiff]
        split
        · omega
        · have h3 : (decodeGroup u [a, b, c, d]).length ≤ 3 := by
            rw [hg]
            split
            · omega
            · split <;> omega
          omega
      rw [if_neg hbig] at hr
      by_cases hshort : (decodeGroup u [a, b, c, d]).length < 3
      · rw [if_pos hshort] at hr hiff
        subst hr
        rw [if_pos hshort]
        exact inl ⟨hiff.2 (by omega), rfl, rfl, by rw [length_append]; omega, by dsimp only; omega⟩
      · have h3 : (decodeGroup u [a, b, c, d]).length = 3 := by
          rw [hg] at hshort ⊢
          split
          · simp_all
          · split <;> simp_all
        rw [if_neg hshort] at hr hiff
        have hrest := ih (read + l.length) (by omega) (by rw [length_append]; omega) hr
        have hsub : aMaxOutBufLen - (out ++ decodeGroup u [a, b, c, d]).length =
            aMaxOutBufLen - out.length - 3 := by
          rw [length_append, h3]
          omega
        rw [hsub] at hrest
        rw [if_neg hshort]
        rcases hrest with ⟨hdec, hret, hwr, hle, hrd⟩ | ⟨hdec, hret, hleft⟩
        · exact inl ⟨hiff.2 ⟨by omega, hdec⟩, hret, by rw [hwr, append_assoc], hle, by omega⟩
        · refine inr ⟨fun h => hdec (hiff.1 h).2, hret, ?_⟩
          rcases hleft with hw | hrd
          · exact inl hw
          · exact inr (by omega)

end Loop

/-- `Decode` returns the octets that a text stands for, or leaves a buffer. -/
theorem Decode_spec (u : UInt8) (text : List UInt8) (aMaxOutBufLen : Nat) {r : Coded}
    (hr : Decode u text aMaxOutBufLen = r) :
    (Decodable u text aMaxOutBufLen ∧ r.returned = true ∧ r.written = decoded u (chars u text) ∧
      r.written.length ≤ aMaxOutBufLen ∧ r.read ≤ text.length) ∨
    (¬ Decodable u text aMaxOutBufLen ∧ r.returned = false ∧
      (aMaxOutBufLen < r.written.length ∨ text.length < r.read)) := by
  have h := decodeLoop_spec aMaxOutBufLen text.length 0 le_rfl (Nat.zero_le _) hr
  simpa using h

/-! ## 7. The loop of `Encode` -/

variable {aMaxOutBufLen : Nat}

theorem put_fits {cs out : List UInt8}
    (h : out.length + cs.length ≤ aMaxOutBufLen) : put aMaxOutBufLen cs out = (out ++ cs, true) := by
  fun_induction put aMaxOutBufLen cs out with
  | case1 out => rw [append_nil]
  | case2 c cs out hbig =>
    simp only [length_append, length_cons, length_nil] at h hbig
    omega
  | case3 c cs out hsmall ih =>
    rw [ih]
    · rw [append_assoc]
      rfl
    · simp only [length_append, length_cons, length_nil] at h ⊢
      omega

theorem put_overflows {cs out : List UInt8}
    (h : aMaxOutBufLen < out.length + cs.length) (hout : out.length ≤ aMaxOutBufLen) :
    ∃ w, put aMaxOutBufLen cs out = (w, false) ∧ aMaxOutBufLen < w.length := by
  fun_induction put aMaxOutBufLen cs out with
  | case1 out =>
    simp only [length_nil] at h
    omega
  | case2 c cs out hbig => exact ⟨_, rfl, hbig⟩
  | case3 c cs out hsmall ih =>
    refine ih ?_ (by omega)
    simp only [length_append, length_cons, length_nil] at h ⊢
    omega

theorem encodeLoop_nil (aMaxOutBufLen fuel : Nat) (out : List UInt8) (read : Nat) :
    encodeLoop aMaxOutBufLen fuel [] out read = ⟨true, out, read⟩ := by
  rcases fuel with _ | fuel <;> rfl

theorem encodeLoop_step (aMaxOutBufLen fuel : Nat) {x out : List UInt8} (read : Nat)
    (hout : out.length ≤ aMaxOutBufLen) (hx : x ≠ []) {group rest : List UInt8} {n : Nat}
    (hread : encodeRead 3 x = (group, rest, n)) :
    (out.length + 4 ≤ aMaxOutBufLen ∧ encodeLoop aMaxOutBufLen (fuel + 1) x out read =
      encodeLoop aMaxOutBufLen fuel rest (out ++ encodeGroup group) (read + n)) ∨
    (aMaxOutBufLen < out.length + 4 ∧
      aMaxOutBufLen < (encodeLoop aMaxOutBufLen (fuel + 1) x out read).written.length) := by
  have h4 : (encodeGroup group).length = 4 := rfl
  rw [encodeLoop, if_neg hx, hread]
  dsimp only
  rcases Nat.lt_or_ge aMaxOutBufLen (out.length + 4) with hbig | hfits
  · obtain ⟨w, hput, hw⟩ := @put_overflows _ (encodeGroup group) _ (by omega) hout
    rw [hput]
    exact inr ⟨hbig, hw⟩
  · rw [put_fits (by omega)]
    exact inl ⟨hfits, rfl⟩

/-- **The loop of `Encode`** writes the characters of the octets, and reads behind them where they
    do not end with a group; or it leaves the output buffer. -/
theorem encodeLoop_spec (aMaxOutBufLen fuel : Nat) {x out : List UInt8} (read : Nat)
    (hfuel : x.length ≤ fuel) (hout : out.length ≤ aMaxOutBufLen) {r : Coded}
    (hr : encodeLoop aMaxOutBufLen fuel x out read = r) :
    (out.length + 4 * ((x.length + 2) / 3) ≤ aMaxOutBufLen ∧
      r = ⟨true, out ++ (core x ++ pads x.length),
        read + x.length + min (x.length % 3) 1⟩) ∨
    (aMaxOutBufLen < out.length + 4 * ((x.length + 2) / 3) ∧ aMaxOutBufLen < r.written.length) := by
  induction fuel generalizing x out read with
  | zero =>
    have hnil : x = [] := eq_nil_of_length_eq_zero (Nat.le_zero.1 hfuel)
    subst hnil hr
    exact inl ⟨by simpa using hout, by simp [encodeLoop, core, pads]⟩
  | succ fuel ih =>
    rcases x with _ | ⟨a, _ | ⟨b, _ | ⟨c, x⟩⟩⟩
    · subst hr
      exact inl ⟨by simpa using hout, by simp [encodeLoop, core, pads]⟩
    · have hread : encodeRead 3 [a] = ([a], [], 2) := rfl
      have hlen : 4 * (([a].length + 2) / 3) = 4 := by simp
      rw [hlen]
      rcases encodeLoop_step aMaxOutBufLen fuel read hout (cons_ne_nil _ _) hread with
        ⟨hfits, hstep⟩ | ⟨hbig, hw⟩
      · rw [hstep, encodeLoop_nil] at hr
        subst hr
        exact inl ⟨hfits, by rw [encodeGroup_one, core, encodeGroup_one]; rfl⟩
      · exact inr ⟨hbig, hr ▸ hw⟩
    · have hread : encodeRead 3 [a, b] = ([a, b], [], 3) := rfl
      have hlen : 4 * (([a, b].length + 2) / 3) = 4 := by simp
      rw [hlen]
      rcases encodeLoop_step aMaxOutBufLen fuel read hout (cons_ne_nil _ _) hread with
        ⟨hfits, hstep⟩ | ⟨hbig, hw⟩
      · rw [hstep, encodeLoop_nil] at hr
        subst hr
        exact inl ⟨hfits, by rw [encodeGroup_two, core, encodeGroup_two]; rfl⟩
      · exact inr ⟨hbig, hr ▸ hw⟩
    · have hread : encodeRead 3 (a :: b :: c :: x) = ([a, b, c], x, 3) := rfl
      have h4 : (out ++ encodeGroup [a, b, c]).length = out.length + 4 := by
        rw [length_append]
        rfl
      simp only [length_cons] at hfuel ⊢
      have hlen : (x.length + 1 + 1 + 1 + 2) / 3 = (x.length + 2) / 3 + 1 := by omega
      rw [hlen]
      rcases encodeLoop_step aMaxOutBufLen fuel read hout (cons_ne_nil _ _) hread with
        ⟨hfits, hstep⟩ | ⟨hbig, hw⟩
      · rw [hstep] at hr
        rcases ih (read + 3) (by omega) (by omega) hr with ⟨hle, heq⟩ | ⟨hlt, hw⟩
        · refine inl ⟨by omega, ?_⟩
          have hpads : pads (x.length + 1 + 1 + 1) = pads x.length := by
            unfold pads
            rw [show (x.length + 1 + 1 + 1) % 3 = x.length % 3 by omega]
          rw [heq, core, hpads]
          simp only [append_assoc, Coded.mk.injEq, true_and]
          omega
        · exact inr ⟨by omega, hw⟩
      · exact inr ⟨by omega, hr ▸ hw⟩

/-- `Encode` writes the characters of the octets, or leaves the output buffer. -/
theorem Encode_spec (x : List UInt8) (aMaxOutBufLen : Nat) :
    (4 * ((x.length + 2) / 3) ≤ aMaxOutBufLen ∧ Encode x aMaxOutBufLen =
      ⟨true, core x ++ pads x.length, x.length + min (x.length % 3) 1⟩) ∨
    (aMaxOutBufLen < 4 * ((x.length + 2) / 3) ∧
      aMaxOutBufLen < (Encode x aMaxOutBufLen).written.length) := by
  have h := @encodeLoop_spec aMaxOutBufLen x.length x [] 0 le_rfl (Nat.zero_le _)
    (Encode x aMaxOutBufLen) rfl
  simpa using h

/-! ## 8. What comes back, and what stays in its buffers -/

theorem pads_spec (n : Nat) : Behind n (pads n) := by
  unfold Behind pads
  split
  · rfl
  · split
    · exact ⟨pad, [], rfl⟩
    · exact ⟨[], rfl⟩

/-- The text up to the first padding. -/
def unpadded (text : List UInt8) : List UInt8 := text.takeWhile (· ≠ pad)

theorem unpadded_append {l t : List UInt8} (hl : pad ∉ l) (ht : t = [] ∨ ∃ t', t = pad :: t') :
    unpadded (l ++ t) = l := by
  have hne : ∀ e ∈ l, decide (e ≠ pad) = true := fun e he => by
    have hep : e ≠ pad := fun h => hl (h ▸ he)
    simpa using hep
  unfold unpadded
  rw [takeWhile_append_of_pos hne]
  rcases ht with rfl | ⟨t', rfl⟩ <;> simp

theorem pad_not_mem_unpadded (text : List UInt8) : pad ∉ unpadded text := fun h => by
  have hne := mem_takeWhile_imp h
  simp at hne

theorem pads_cases (n : Nat) : pads n = [] ∨ ∃ t, pads n = pad :: t := by
  unfold pads
  split
  · exact inl rfl
  · split
    · exact inr ⟨_, rfl⟩
    · exact inr ⟨_, rfl⟩

theorem pad_not_mem_core (x : List UInt8) : pad ∉ core x :=
  fun h => (core_chars x pad h).2 rfl

variable {x : List UInt8}

/-- A text with other characters between those of `x`: its part before the padding, and the rest. -/
theorem text_split
    (htext : text.filter inAlphabet = core x ++ pads x.length) :
    ∃ t, text = unpadded text ++ t ∧ (unpadded text).filter inAlphabet = core x ∧
      t.filter inAlphabet = pads x.length ∧ (t = [] ∨ ∃ t', t = pad :: t') := by
  have hsplit : text = unpadded text ++ text.dropWhile (· ≠ pad) :=
    takeWhile_append_dropWhile.symm
  have hrest : text.dropWhile (· ≠ pad) = [] ∨ ∃ t', text.dropWhile (· ≠ pad) = pad :: t' := by
    rcases ht : text.dropWhile (· ≠ pad) with _ | ⟨e, t'⟩
    · exact inl rfl
    · have hhead := head_dropWhile_not (l := text) (· ≠ pad)
        (by rw [ht]; exact cons_ne_nil _ _)
      simp only [ht, head_cons] at hhead
      refine inr ⟨t', ?_⟩
      rw [show e = pad by simpa using hhead]
  generalize text.dropWhile (· ≠ pad) = t at hsplit hrest
  rw [hsplit, filter_append] at htext
  have hfree : pad ∉ (unpadded text).filter inAlphabet := fun h =>
    pad_not_mem_unpadded text (mem_filter.1 h).1
  have hrest' : t.filter inAlphabet = [] ∨ ∃ t', t.filter inAlphabet = pad :: t' := by
    rcases hrest with rfl | ⟨t', rfl⟩
    · exact inl rfl
    · exact inr ⟨_, filter_cons_of_pos inAlphabet_pad⟩
  -- up to the first padding, both sides are the same
  have hcore := congrArg unpadded htext
  rw [unpadded_append hfree hrest', unpadded_append (pad_not_mem_core x) (pads_cases _)] at hcore
  rw [hcore] at htext
  exact ⟨t, hsplit, hcore, append_cancel_left htext, hrest⟩

/-- The octet without an entry in the table stands among the characters, and its entry is that of a
    character. -/
def Strays (u : UInt8) (text : List UInt8) : Prop := u &&& 0x80 = 0 ∧ 255 ∈ unpadded text

/-- Where it does not, the characters are those of `x`, and padding where `x` has it. -/
theorem chars_of_not_strays {u : UInt8}
    (htext : text.filter inAlphabet = core x ++ pads x.length) (h : ¬ Strays u text) :
    ∃ t, chars u text = core x ++ t ∧ Behind x.length t := by
  obtain ⟨t, hsplit, hcore, hpads, hrest⟩ := text_split htext
  refine ⟨chars u t, ?_, ?_⟩
  · rw [hsplit, chars_append, ← hcore]
    congr 1
    refine filter_congr fun e he => ?_
    rw [Bool.eq_iff_iff, legal_iff]
    refine or_iff_left ?_
    rintro ⟨rfl, hu⟩
    exact h ⟨hu, he⟩
  · have hle : (pads x.length).length ≤ (chars u t).length := by
      rw [← hpads]
      exact (monotone_filter_right _ fun e he => legal_of_inAlphabet he).length_le
    rcases hrest with rfl | ⟨t', rfl⟩
    · have hnil : pads x.length = [] := hpads.symm
      have hspec := pads_spec x.length
      rw [hnil] at hspec
      exact hspec
    · have hcons : chars u (pad :: t') = pad :: chars u t' :=
        chars_cons_of_legal (legal_of_inAlphabet inAlphabet_pad) t'
      rw [hcons] at hle ⊢
      unfold Behind
      split
      · rename_i h0
        rw [pads, if_pos h0, filter_cons_of_pos inAlphabet_pad] at hpads
        exact absurd hpads (cons_ne_nil _ _)
      · rename_i h0
        split
        · rename_i h1
          rw [pads, if_neg h0, if_pos h1] at hle
          rcases ht : chars u t' with _ | ⟨d, r⟩
          · rw [ht] at hle
            exact absurd hle (by simp)
          · exact ⟨d, r, rfl⟩
        · exact ⟨_, rfl⟩

/-- Where it does, more octets are decoded than `x` has. -/
theorem measure_of_strays {u : UInt8}
    (htext : text.filter inAlphabet = core x ++ pads x.length) (h : Strays u text)
    (hm : measure (chars u text) = some m) : x.length < m.1 := by
  obtain ⟨t, hsplit, hcore, hpads, hrest⟩ := text_split htext
  obtain ⟨hu, hmem⟩ := h
  have hmore : (core x).length < (chars u (unpadded text)).length := by
    have hboth : (unpadded text).filter inAlphabet =
        (chars u (unpadded text)).filter inAlphabet := by
      rw [chars, List.filter_filter]
      refine filter_congr fun e _ => ?_
      rw [Bool.eq_iff_iff, Bool.and_eq_true]
      exact ⟨fun he => ⟨he, legal_of_inAlphabet he⟩, fun he => he.1⟩
    rw [← hcore, hboth]
    refine length_filter_lt_length_iff_exists.2 ⟨255, ?_, by decide +kernel⟩
    exact mem_filter.2 ⟨hmem, (legal_iff u 255).2 (inr ⟨rfl, hu⟩)⟩
  have hfree : pad ∉ chars u (unpadded text) := fun h =>
    pad_not_mem_unpadded text (mem_filter.1 h).1
  rw [hsplit, chars_append] at hm
  obtain ⟨hle, hend⟩ := measure_unpadded hfree hm
  rw [core_length] at hmore
  rcases hrest with rfl | ⟨t', rfl⟩
  · obtain ⟨hmod, -⟩ := hend rfl
    have h0 : x.length % 3 = 0 := by
      have hnil : pads x.length = [] := hpads.symm
      unfold pads at hnil
      split at hnil
      · assumption
      · split at hnil <;> cases hnil
    omega
  · have h0 : x.length % 3 ≠ 0 := by
      intro h0
      rw [pads, if_pos h0, filter_cons_of_pos inAlphabet_pad] at hpads
      exact absurd hpads (cons_ne_nil _ _)
    obtain ⟨k, hk | hk⟩ : ∃ k, x.length = 3 * k + 1 ∨ x.length = 3 * k + 2 :=
      ⟨x.length / 3, by omega⟩
    · omega
    · omega

/-- The last character that counts is one of the alphabet. -/
def EndsInAlphabet (text : List UInt8) : Prop := ∀ c ∈ text.getLast?, inAlphabet c = true

/-- **The octets come back** exactly where the octet without an entry does not stray among the
    characters, and where, without padding to end them, no other character is behind them. -/
theorem Decode_comes_back_iff {u : UInt8}
    (htext : text.filter inAlphabet = core x ++ pads x.length) (hmax : x.length ≤ aMaxOutBufLen) :
    (Decode u text aMaxOutBufLen).returned = true ∧ (Decode u text aMaxOutBufLen).written = x ↔
      (x.length % 3 = 0 → EndsInAlphabet text) ∧ ¬ Strays u text := by
  have hspec := Decode_spec u text aMaxOutBufLen rfl
  by_cases hstray : Strays u text
  · refine iff_of_false ?_ fun h => h.2 hstray
    rintro ⟨hret, hwr⟩
    rcases hspec with ⟨⟨m, hm, -, -⟩, -, hdec, -, -⟩ | ⟨-, hfalse, -⟩
    · have hlt := measure_of_strays htext hstray hm
      rw [hdec] at hwr
      rw [← decoded_length u hm, hwr] at hlt
      exact lt_irrefl _ hlt
    · rw [hret] at hfalse
      cases hfalse
  obtain ⟨t, hchars, hbehind⟩ := chars_of_not_strays htext hstray
  obtain ⟨hdec, hmeas⟩ := decoded_core u x t hbehind
  have hends : EndsWell u text (decide (x.length % 3 ≠ 0)) ↔
      (x.length % 3 = 0 → EndsInAlphabet text) := by
    by_cases h0 : x.length % 3 = 0
    · rw [show decide (x.length % 3 ≠ 0) = false by simp [h0]]
      refine ⟨fun hend _ c hc => ?_, fun hend => inr fun c hc => ?_⟩
      · rcases hend with hend | hend
        · cases hend
        · rcases (legal_iff u c).1 (hend c hc) with hin | ⟨rfl, hu⟩
          · exact hin
          · -- without padding, the whole text is in front of it
            obtain ⟨t, hsplit, -, hpads, hrest⟩ := text_split htext
            have hnil : t = [] := by
              rcases hrest with rfl | ⟨t', rfl⟩
              · rfl
              · rw [pads, if_pos h0, filter_cons_of_pos inAlphabet_pad] at hpads
                exact absurd hpads (cons_ne_nil _ _)
            rw [hnil, append_nil] at hsplit
            refine absurd ⟨hu, ?_⟩ hstray
            rw [← hsplit]
            exact mem_of_getLast? hc
      · exact legal_of_inAlphabet (hend h0 c hc)
    · exact iff_of_true (inl (by simp [h0])) fun h => absurd h h0
  rw [and_iff_left hstray, ← hends]
  rw [hchars] at hspec
  rcases hspec with ⟨⟨m, hm, -, hend⟩, hret, hwr, -, -⟩ | ⟨hnot, hret, -⟩
  · rw [hchars, hmeas] at hm
    cases hm
    exact iff_of_true ⟨hret, hwr.trans hdec⟩ hend
  · refine iff_of_false ?_ fun hend => hnot ⟨_, by rw [hchars, hmeas], hmax, hend⟩
    rintro ⟨htrue, -⟩
    rw [hret] at htrue
    cases htrue

/-- A run that touches nothing but its buffers. -/
def Coded.InBuffers (r : Coded) (aInBufLen aMaxOutBufLen : Nat) : Prop :=
  r.written.length ≤ aMaxOutBufLen ∧ r.read ≤ aInBufLen

theorem Encode_inBuffers_iff (x : List UInt8) (aMaxOutBufLen : Nat) :
    (Encode x aMaxOutBufLen).InBuffers x.length aMaxOutBufLen ↔
      4 * ((x.length + 2) / 3) ≤ aMaxOutBufLen ∧ x.length % 3 = 0 := by
  have hpads : (pads x.length).length = if x.length % 3 = 0 then 0 else 3 - x.length % 3 := by
    unfold pads
    split
    · rfl
    · split
      · rename_i h1
        rw [h1]
        rfl
      · have h2 : x.length % 3 = 2 := by omega
        rw [h2]
        rfl
  rcases Encode_spec x aMaxOutBufLen with ⟨hfits, hrun⟩ | ⟨hbig, hlong⟩
  · rw [hrun]
    unfold Coded.InBuffers
    dsimp only
    rw [length_append, core_length, hpads]
    split
    · exact iff_of_true ⟨by omega, by omega⟩ ⟨hfits, by assumption⟩
    · exact iff_of_false (by omega) (by omega)
  · refine iff_of_false (fun h => ?_) (fun h => ?_)
    · exact absurd h.1 (by omega)
    · omega

theorem Decode_inBuffers_iff (u : UInt8) (text : List UInt8) (aMaxOutBufLen : Nat) :
    (Decode u text aMaxOutBufLen).InBuffers text.length aMaxOutBufLen ↔
      Decodable u text aMaxOutBufLen := by
  rcases Decode_spec u text aMaxOutBufLen rfl with ⟨hdec, -, -, hle, hrd⟩ | ⟨hnot, -, hleft⟩
  · exact iff_of_true ⟨hle, hrd⟩ hdec
  · refine iff_of_false (fun h => ?_) hnot
    obtain ⟨hw, hr⟩ := h
    omega

/-- **BASE64**: what is encoded comes back from a text with other characters between exactly where
    none of these is behind its last whole group, and none is taken for a character; `Encode` stays
    in its buffers exactly where the text fits and the input is of whole groups; `Decode` exactly
    where the text ends with its last group and its octets fit. -/
theorem base64_iff (u : UInt8) :
    (∀ (x text : List UInt8) (maxEncoded maxDecoded : Nat),
      4 * ((x.length + 2) / 3) ≤ maxEncoded → x.length ≤ maxDecoded →
      text.filter inAlphabet = (Encode x maxEncoded).written →
      ((Decode u text maxDecoded).returned = true ∧ (Decode u text maxDecoded).written = x ↔
        (x.length % 3 = 0 → EndsInAlphabet text) ∧ ¬ Strays u text)) ∧
    (∀ (x : List UInt8) (aMaxOutBufLen : Nat),
      (Encode x aMaxOutBufLen).InBuffers x.length aMaxOutBufLen ↔
        4 * ((x.length + 2) / 3) ≤ aMaxOutBufLen ∧ x.length % 3 = 0) ∧
    ∀ (text : List UInt8) (aMaxOutBufLen : Nat),
      (Decode u text aMaxOutBufLen).InBuffers text.length aMaxOutBufLen ↔
        Decodable u text aMaxOutBufLen := by
  refine ⟨fun x text maxEncoded maxDecoded hmax hmax' htext => ?_, Encode_inBuffers_iff,
    Decode_inBuffers_iff u⟩
  refine Decode_comes_back_iff ?_ hmax'
  rcases Encode_spec x maxEncoded with ⟨-, hrun⟩ | ⟨hbig, -⟩
  · rw [htext, hrun]
  · omega

theorem base64_iff_sample :
    (Decode 0x80 [0x41, 0x51, 0x0d, 0x49, 0x44, 0x2b, 0x67, 0x3d, 0x3d, 0x0a] 4).returned = true ∧
      (Decode 0x80 [0x41, 0x51, 0x0d, 0x49, 0x44, 0x2b, 0x67, 0x3d, 0x3d, 0x0a] 4).written =
        [1, 2, 3, 250] :=
  ((base64_iff 0x80).1 [1, 2, 3, 250] _ 8 4 (by decide) (by decide) (by decide +kernel)).2
    ⟨fun h => absurd h (by decide), fun h => absurd h.1 (by decide)⟩

/-- A line break behind the last group is read as the start of another one, and the octet behind the
    text with it; `Encode` reads behind an input of one octet. -/
theorem line_break_behind :
    [0x41, 0x41, 0x41, 0x41, 0x0a].filter inAlphabet = (Encode [0, 0, 0] 4).written ∧
      (Decode 0x80 [0x41, 0x41, 0x41, 0x41, 0x0a] 3).returned = false ∧
      (Decode 0x80 [0x41, 0x41, 0x41, 0x41, 0x0a] 3).read = 6 ∧ (Encode [0] 4).read = 2 := by
  decide +kernel

end OpenCore.GenData.Base64
