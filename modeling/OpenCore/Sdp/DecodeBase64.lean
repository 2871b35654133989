/-
  File:      OpenCore/Sdp/DecodeBase64.lean
  Subject:   THE SDP PARSER'S OWN BASE64 DECODER, `sdp_decodebase64` (sdp_parsing_utils.cpp).

  Its table is built anew in each call, on the stack: the loop that fills it stops in front of the
  last entry, which keeps what the stack held. A call is described as in GenData/Base64Codec.lean,
  by what it returns, the octets it writes behind the cleared buffer's start and how many it reads,
  and by the length it reports.

  * `sdp_decodebase64_eq`: a call is one of `PVBase64Codec::Decode` with that entry for its own;
  * **`sdp_decodebase64_iff`**: exactly which calls stay in their buffers.
-/
import OpenCore.GenData.Base64Codec

namespace OpenCore.Sdp

open List Option
open GenData.Base64 (Coded Encode Decode Decodable EndsInAlphabet Strays inAlphabet pad)
open Function (update update_apply)

/-! ## 1. The code -/

/-- `for (i = first; i <= last; i++) dtable[i] = base + (i - first);` -/
def setRun (first last : Char) (base : Nat) (dtable : UInt8 → UInt8) : UInt8 → UInt8 :=
  (List.range (last.toNat + 1 - first.toNat)).foldl
    (fun t k => update t (UInt8.ofNat (first.toNat + k)) (UInt8.ofNat (base + k))) dtable

/-- The table, in an array that held `stack`. -/
def dtable (stack : UInt8 → UInt8) : UInt8 → UInt8 :=
  -- up to 254
  let t := (List.range 255).foldl (fun t i => update t (UInt8.ofNat i) 0x80) stack
  let t := setRun 'A' 'I' 0 t
  let t := setRun 'J' 'R' 9 t
  let t := setRun 'S' 'Z' 18 t
  let t := setRun 'a' 'i' 26 t
  let t := setRun 'j' 'r' 35 t
  let t := setRun 's' 'z' 44 t
  let t := setRun '0' '9' 52 t
  let t := update t 0x2b 62
  let t := update t 0x2f 63
  update t pad 0

/-- The loop over `i`, with `i` characters in `a` and their values in `b`: both arrays full and the
    rest of the input, or nothing where it is incomplete; and `read_count`. -/
def readGroup (dtable : UInt8 → UInt8) : List UInt8 → Nat → List UInt8 → List UInt8 →
    Option (List UInt8 × List UInt8 × List UInt8) × Nat
  | [], read_count, a, b =>
    if a.length = 4 then (some (a, b, []), read_count)
    -- `c` is the octet behind the input
    else (none, read_count + 1)
  | c :: aInBuf, read_count, a, b =>
    if a.length = 4 then (some (a, b, c :: aInBuf), read_count)
    else if dtable c &&& 0x80 ≠ 0 then readGroup dtable aInBuf (read_count + 1) a b
    else readGroup dtable aInBuf (read_count + 1) (a ++ [c]) (b ++ [dtable c])

/-- `o`. -/
def outOctets (b : List UInt8) : List UInt8 :=
  let b := fun i => b.getD i 0
  [(b 0 <<< 2) ||| (b 1 >>> 4), (b 1 <<< 4) ||| (b 2 >>> 2), (b 2 <<< 6) ||| b 3]

/-- A run, and the length it leaves in `aOutBufLen`. -/
structure SdpCoded extends Coded where
  aOutBufLen : Nat
  deriving DecidableEq, Repr

/-- The loop over the groups. -/
def decodeLoop (dtable : UInt8 → UInt8) (aMaxOutBufLen : Nat) :
    Nat → List UInt8 → List UInt8 → Nat → SdpCoded
  | 0, _, out, read_count => ⟨⟨true, out, read_count⟩, out.length⟩
  | fuel + 1, aInBuf, out, read_count =>
    if aInBuf = [] then ⟨⟨true, out, read_count⟩, out.length⟩
    else
      match readGroup dtable aInBuf read_count [] [] with
      | (none, read_count) => ⟨⟨false, out, read_count⟩, 0⟩
      | (some (a, b, aInBuf), read_count) =>
        let i := if a.getD 2 0 = pad then 1 else if a.getD 3 0 = pad then 2 else 3
        let out := out ++ (outOctets b).take i
        if out.length > aMaxOutBufLen then ⟨⟨false, out, read_count⟩, 0⟩
        else if i < 3 then ⟨⟨true, out, read_count⟩, out.length⟩
        else decodeLoop dtable aMaxOutBufLen fuel aInBuf out read_count

def sdp_decodebase64 (stack : UInt8 → UInt8) (aInBuf : List UInt8) (aMaxOutBufLen : Nat) :
    SdpCoded :=
  decodeLoop (dtable stack) aMaxOutBufLen aInBuf.length aInBuf [] 0

/-! ## 2. The table -/

theorem foldl_update_range (f : Nat → UInt8) {a n : Nat} (h : a + n ≤ 256) (t : UInt8 → UInt8)
    (c : UInt8) :
    (range n).foldl (fun t k => update t (UInt8.ofNat (a + k)) (f k)) t c =
      if a ≤ c.toNat ∧ c.toNat < a + n then f (c.toNat - a) else t c := by
  induction n with
  | zero =>
    have hno : ¬ (a ≤ c.toNat ∧ c.toNat < a + 0) := by omega
    rw [if_neg hno]
    rfl
  | succ n ih =>
    have hval : (UInt8.ofNat (a + n)).toNat = a + n := by
      rw [UInt8.toNat_ofNat']
      omega
    rw [range_succ, foldl_append, foldl_cons, foldl_nil, update_apply]
    by_cases hc : c = UInt8.ofNat (a + n)
    · have hn : c.toNat = a + n := by rw [hc, hval]
      have hin : a ≤ c.toNat ∧ c.toNat < a + (n + 1) := by omega
      rw [if_pos hc, if_pos hin, hn, Nat.add_sub_cancel_left]
    · have hn : c.toNat ≠ a + n := fun e => hc (UInt8.toNat_inj.mp (e.trans hval.symm))
      rw [if_neg hc, ih (by omega)]
      refine if_congr ?_ rfl rfl
      omega

theorem setRun_apply {first last : Char} (h : last.toNat < 256) (hle : first.toNat ≤ last.toNat)
    (base : Nat) (t : UInt8 → UInt8) (c : UInt8) :
    setRun first last base t c =
      if first.toNat ≤ c.toNat ∧ c.toNat ≤ last.toNat
      then UInt8.ofNat (base + (c.toNat - first.toNat)) else t c := by
  rw [setRun, foldl_update_range (fun k => UInt8.ofNat (base + k)) (by omega)]
  refine if_congr ?_ rfl rfl
  omega

/-- An entry of the table, where the last one is `u` and what is no character has `x`. -/
def entry (u x c : UInt8) : UInt8 :=
  if c = pad then 0 else if c = 0x2f then 63 else if c = 0x2b then 62
  else if '0'.toNat ≤ c.toNat ∧ c.toNat ≤ '9'.toNat then UInt8.ofNat (52 + (c.toNat - '0'.toNat))
  else if 's'.toNat ≤ c.toNat ∧ c.toNat ≤ 'z'.toNat then UInt8.ofNat (44 + (c.toNat - 's'.toNat))
  else if 'j'.toNat ≤ c.toNat ∧ c.toNat ≤ 'r'.toNat then UInt8.ofNat (35 + (c.toNat - 'j'.toNat))
  else if 'a'.toNat ≤ c.toNat ∧ c.toNat ≤ 'i'.toNat then UInt8.ofNat (26 + (c.toNat - 'a'.toNat))
  else if 'S'.toNat ≤ c.toNat ∧ c.toNat ≤ 'Z'.toNat then UInt8.ofNat (18 + (c.toNat - 'S'.toNat))
  else if 'J'.toNat ≤ c.toNat ∧ c.toNat ≤ 'R'.toNat then UInt8.ofNat (9 + (c.toNat - 'J'.toNat))
  else if 'A'.toNat ≤ c.toNat ∧ c.toNat ≤ 'I'.toNat then UInt8.ofNat (0 + (c.toNat - 'A'.toNat))
  else if c = 255 then u else x

theorem dtable_entry (stack : UInt8 → UInt8) (c : UInt8) :
    dtable stack c = entry (stack 255) 0x80 c := by
  have hfill : (range 255).foldl (fun t i => update t (UInt8.ofNat i) 0x80) stack c =
      if c = 255 then stack 255 else 0x80 := by
    have hfold := foldl_update_range (fun _ => 0x80) (a := 0) (n := 255) (by decide) stack c
    simp only [Nat.zero_add] at hfold
    rw [hfold]
    by_cases hc : c = 255
    · rw [if_pos hc, hc]
      rfl
    · have hlt := c.toNat_lt
      have hn : c.toNat ≠ 255 := fun e => hc (UInt8.toNat_inj.mp e)
      rw [if_neg hc, if_pos ⟨Nat.zero_le _, by omega⟩]
  unfold dtable entry
  simp only [update_apply]
  rw [setRun_apply (by decide) (by decide), setRun_apply (by decide) (by decide),
    setRun_apply (by decide) (by decide), setRun_apply (by decide) (by decide),
    setRun_apply (by decide) (by decide), setRun_apply (by decide) (by decide),
    setRun_apply (by decide) (by decide), hfill]

/-- **The same table** as the codec's, with what the stack held as its last entry. -/
theorem dtable_toNat (stack : UInt8 → UInt8) (c : UInt8) :
    (dtable stack c).toNat = GenData.Base64.dtable (stack 255) c := by
  rw [dtable_entry]
  by_cases hc : c = 255
  · rw [hc]
    rfl
  · have hall : ∀ n < 256, UInt8.ofNat n ≠ 255 →
        (entry 0 0x80 (UInt8.ofNat n)).toNat = GenData.Base64.dtable 0 (UInt8.ofNat n) := by
      decide +kernel
    have hz := GenData.Base64.forall_octet
      (P := fun c => c ≠ 255 → (entry 0 0x80 c).toNat = GenData.Base64.dtable 0 c) hall c hc
    have hu : entry (stack 255) 0x80 c = entry 0 0x80 c := by
      unfold entry
      rw [if_neg hc, if_neg hc]
    rw [GenData.Base64.dtable_of_ne hc, hu, hz]

/-! ## 3. The codec's decoder -/

variable (stack : UInt8 → UInt8)

theorem skipped_iff (c : UInt8) :
    dtable stack c &&& 0x80 ≠ 0 ↔ GenData.Base64.dtable (stack 255) c &&& 0x80 ≠ 0 := by
  rw [← dtable_toNat, not_iff_not, ← UInt8.toNat_inj, UInt8.toNat_and]
  rfl

/-- The characters of a group are those the codec reads, with their values beside them. -/
theorem readGroup_eq (aInBuf : List UInt8) (read_count : Nat) (a b : List UInt8)
    (ha : a.length ≤ 4) :
    readGroup (dtable stack) aInBuf read_count a b =
      let r := GenData.Base64.decodeRead (stack 255) (4 - a.length) aInBuf
      (r.1.map fun x => (a ++ x.1, b ++ x.1.map (dtable stack), x.2), read_count + r.2) := by
  induction aInBuf generalizing read_count a b with
  | nil =>
    rw [readGroup]
    by_cases h4 : a.length = 4
    · rw [if_pos h4, h4, Nat.sub_self, GenData.Base64.decodeRead]
      simp
    · obtain ⟨k, hk⟩ : ∃ k, 4 - a.length = k + 1 := ⟨3 - a.length, by omega⟩
      rw [if_neg h4, hk, GenData.Base64.decodeRead]
      rfl
  | cons c aInBuf ih =>
    rw [readGroup]
    by_cases h4 : a.length = 4
    · rw [if_pos h4, h4, Nat.sub_self, GenData.Base64.decodeRead]
      simp
    · obtain ⟨k, hk⟩ : ∃ k, 4 - a.length = k + 1 := ⟨3 - a.length, by omega⟩
      rw [if_neg h4, hk, GenData.Base64.decodeRead]
      by_cases hc : dtable stack c &&& 0x80 ≠ 0
      · rw [if_pos hc, if_pos ((skipped_iff stack c).mp hc), ih _ _ _ ha, hk]
        simp only [Nat.add_assoc, Nat.add_comm 1]
      · have hlen : (a ++ [c]).length = a.length + 1 := length_append
        have hk' : 4 - (a ++ [c]).length = k := by omega
        rw [if_neg hc, if_neg (mt (skipped_iff stack c).mpr hc), ih _ _ _ (by omega), hk']
        simp only [Option.map_map, Function.comp_def, append_assoc, singleton_append, map_cons,
          Nat.add_assoc, Nat.add_comm 1]

theorem or_shift (x y : UInt8) {i j : Nat} (hi : i < 8) (hj : j < 8) :
    (x <<< UInt8.ofNat i) ||| (y >>> UInt8.ofNat j) =
      UInt8.ofNat ((x.toNat <<< i) ||| (y.toNat >>> j)) := by
  have hi' : (UInt8.ofNat i).toNat % 8 = i := by
    rw [UInt8.toNat_ofNat']
    omega
  have hj' : (UInt8.ofNat j).toNat % 8 = j := by
    rw [UInt8.toNat_ofNat']
    omega
  have hy : y.toNat >>> j < 2 ^ 8 :=
    lt_of_le_of_lt (Nat.shiftRight_le _ _) y.toNat_lt
  apply UInt8.toNat_inj.mp
  rw [UInt8.toNat_or, UInt8.toNat_shiftLeft, UInt8.toNat_shiftRight, hi', hj', UInt8.toNat_ofNat',
    Nat.or_mod_two_pow, Nat.mod_eq_of_lt hy]

/-- The octets of a group are the codec's. -/
theorem outOctets_take (a b c d : UInt8) :
    (outOctets ([a, b, c, d].map (dtable stack))).take
        (if c = pad then 1 else if d = pad then 2 else 3) =
      GenData.Base64.decodeGroup (stack 255) [a, b, c, d] := by
  have h0 := or_shift (dtable stack a) (dtable stack b) (i := 2) (j := 4) (by decide) (by decide)
  have h1 := or_shift (dtable stack b) (dtable stack c) (i := 4) (j := 2) (by decide) (by decide)
  have h2 := or_shift (dtable stack c) (dtable stack d) (i := 6) (j := 0) (by decide) (by decide)
  have hzero : dtable stack d >>> UInt8.ofNat 0 = dtable stack d := by
    apply UInt8.toNat_inj.mp
    rw [UInt8.toNat_shiftRight]
    rfl
  rw [hzero, Nat.shiftRight_zero] at h2
  simp only [dtable_toNat] at h0 h1 h2
  unfold GenData.Base64.decodeGroup
  congr 1
  exact congrArg₂ cons h0 (congrArg₂ cons h1 (congrArg (· :: []) h2))

theorem decodeLoop_eq (aMaxOutBufLen fuel : Nat) (aInBuf out : List UInt8) (read_count : Nat) :
    decodeLoop (dtable stack) aMaxOutBufLen fuel aInBuf out read_count =
      let r := GenData.Base64.decodeLoop (stack 255) aMaxOutBufLen fuel aInBuf out read_count
      ⟨r, if r.returned then r.written.length else 0⟩ := by
  induction fuel generalizing aInBuf out read_count with
  | zero => rfl
  | succ fuel ih =>
    rw [decodeLoop, GenData.Base64.decodeLoop]
    by_cases hnil : aInBuf = []
    · rw [if_pos hnil, if_pos hnil]
      rfl
    rw [if_neg hnil, if_neg hnil, readGroup_eq stack aInBuf read_count [] [] (by decide)]
    rcases Nat.lt_or_ge (GenData.Base64.chars (stack 255) aInBuf).length 4 with hfew | hmany
    · rw [length_nil, Nat.sub_zero, GenData.Base64.decodeRead_none hfew]
      rfl
    · obtain ⟨l, rest, -, hread, hlen, -⟩ := GenData.Base64.decodeRead_some hmany
      obtain ⟨a, b, c, d, hl⟩ : ∃ a b c d, GenData.Base64.chars (stack 255) l = [a, b, c, d] := by
        rcases hz : GenData.Base64.chars (stack 255) l with
          _ | ⟨a, _ | ⟨b, _ | ⟨c, _ | ⟨d, _ | ⟨e, z⟩⟩⟩⟩⟩ <;> simp_all
      have hg := GenData.Base64.decodeGroup_length (stack 255) a b c d
      have htake := outOctets_take stack a b c d
      rw [← hg] at htake
      rw [length_nil, Nat.sub_zero, hread, hl]
      simp only [map_some, nil_append, getD_cons_zero, getD_cons_succ, ← hg, htake]
      by_cases hbig : aMaxOutBufLen <
          (out ++ GenData.Base64.decodeGroup (stack 255) [a, b, c, d]).length
      · rw [if_pos hbig, if_pos hbig]
        rfl
      rw [if_neg hbig, if_neg hbig]
      by_cases hshort : (GenData.Base64.decodeGroup (stack 255) [a, b, c, d]).length < 3
      · rw [if_pos hshort, if_pos hshort]
        rfl
      · rw [if_neg hshort, if_neg hshort, ih]

/-- **The two decoders**: a call runs as one of `Decode` does whose own table ends in what the
    stack held, and reports the octets it returns. -/
theorem sdp_decodebase64_eq (aInBuf : List UInt8) (aMaxOutBufLen : Nat) :
    sdp_decodebase64 stack aInBuf aMaxOutBufLen =
      let r := Decode (stack 255) aInBuf aMaxOutBufLen
      ⟨r, if r.returned then r.written.length else 0⟩ :=
  decodeLoop_eq stack aMaxOutBufLen aInBuf.length aInBuf [] 0

/-! ## 4. Buffers, and what comes back -/

/-- The call returns true with exactly the octets `x`, as `Decode` with the last entry `u` does. -/
def ComesBack (u : UInt8) (x text : List UInt8) (aMaxOutBufLen : Nat) : Prop :=
  let r := sdp_decodebase64 stack text aMaxOutBufLen
  let d := Decode u text aMaxOutBufLen
  r.returned = true ∧ r.written = x ∧ r.aOutBufLen = x.length ∧
    r.returned = d.returned ∧ r.written = d.written

theorem comesBack_iff (u : UInt8) (x text : List UInt8) (aMaxOutBufLen : Nat) :
    ComesBack stack u x text aMaxOutBufLen ↔
      ((Decode (stack 255) text aMaxOutBufLen).returned = true ∧
        (Decode (stack 255) text aMaxOutBufLen).written = x) ∧
      (Decode u text aMaxOutBufLen).returned = true ∧
        (Decode u text aMaxOutBufLen).written = x := by
  unfold ComesBack
  rw [sdp_decodebase64_eq]
  constructor
  · rintro ⟨hret, hwr, -, hret', hwr'⟩
    exact ⟨⟨hret, hwr⟩, hret'.symm.trans hret, hwr'.symm.trans hwr⟩
  · rintro ⟨⟨hret, hwr⟩, hret', hwr'⟩
    refine ⟨hret, hwr, ?_, hret.trans hret'.symm, hwr.trans hwr'.symm⟩
    dsimp only
    rw [if_pos hret, hwr]

/-- **The SDP parser's decoder**: a call stays in its buffers exactly where the text ends with its
    last group and its octets fit; and the octets of a text with other characters between come back,
    as from the codec, exactly where none of these is behind the last whole group and neither
    decoder takes the octet without an entry for a character. -/
theorem sdp_decodebase64_iff (u : UInt8) :
    (∀ (text : List UInt8) (aMaxOutBufLen : Nat),
      (sdp_decodebase64 stack text aMaxOutBufLen).InBuffers text.length aMaxOutBufLen ↔
        Decodable (stack 255) text aMaxOutBufLen) ∧
    ∀ (x text : List UInt8) (maxEncoded aMaxOutBufLen : Nat),
      4 * ((x.length + 2) / 3) ≤ maxEncoded → x.length ≤ aMaxOutBufLen →
      text.filter inAlphabet = (Encode x maxEncoded).written →
      (ComesBack stack u x text aMaxOutBufLen ↔
        (x.length % 3 = 0 → EndsInAlphabet text) ∧
          ¬ Strays (stack 255) text ∧ ¬ Strays u text) := by
  constructor
  · intro text aMaxOutBufLen
    rw [sdp_decodebase64_eq]
    exact GenData.Base64.Decode_inBuffers_iff (stack 255) text aMaxOutBufLen
  · intro x text maxEncoded aMaxOutBufLen hmax hmax' htext
    have hcore : text.filter inAlphabet =
        GenData.Base64.core x ++ GenData.Base64.pads x.length := by
      rcases GenData.Base64.Encode_spec x maxEncoded with ⟨-, hrun⟩ | ⟨hbig, -⟩
      · rw [htext, hrun]
      · omega
    rw [comesBack_iff, GenData.Base64.Decode_comes_back_iff hcore hmax',
      GenData.Base64.Decode_comes_back_iff hcore hmax']
    constructor
    · rintro ⟨⟨hend, hstack⟩, -, hu⟩
      exact ⟨hend, hstack, hu⟩
    · rintro ⟨hend, hstack, hu⟩
      exact ⟨⟨hend, hstack⟩, hend, hu⟩

theorem sdp_decodebase64_iff_sample :
    ComesBack (fun _ => 0x80) 0 [1, 2, 3, 250]
      [0x41, 0x51, 0x0d, 0x49, 0x44, 0x2b, 0x67, 0x3d, 0x3d, 0x0a] 4 :=
  ((sdp_decodebase64_iff (fun _ => 0x80) 0).2 [1, 2, 3, 250] _ 8 4 (by decide) (by decide)
    (by decide +kernel)).mpr
    ⟨fun h => absurd h (by decide), fun h => absurd h.1 (by decide), fun h => absurd h.2
      (by decide +kernel)⟩

/-- A line break behind the last group is read as the start of another one, and the octet behind the
    text with it. With 0 on the stack, the octet 255 is taken for a character, which the codec with
    128 in its place skips. -/
theorem sdp_line_break_behind :
    [0x41, 0x41, 0x41, 0x41, 0x0a].filter inAlphabet = (Encode [0, 0, 0] 4).written ∧
      sdp_decodebase64 (fun _ => 0x80) [0x41, 0x41, 0x41, 0x41, 0x0a] 3 =
        ⟨⟨false, [0, 0, 0], 6⟩, 0⟩ ∧
      [0x41, 0xff, 0x51, 0x3d, 0x3d].filter inAlphabet = (Encode [1] 4).written ∧
      sdp_decodebase64 (fun _ => 0) [0x41, 0xff, 0x51, 0x3d, 0x3d] 3 =
        ⟨⟨true, [0, 4], 4⟩, 2⟩ ∧
      Decode 0x80 [0x41, 0xff, 0x51, 0x3d, 0x3d] 3 = ⟨true, [1], 5⟩ := by
  decide +kernel

end OpenCore.Sdp
