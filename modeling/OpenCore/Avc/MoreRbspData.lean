/-
  File:      OpenCore/Avc/MoreRbspData.lean
  Subject:   THE END OF THE DATA (avc_bitstream.cpp): `more_rbsp_data` against the stop bit.

  The RBSP ends with a bit 1 and up to 7 bits 0. `more_rbsp_data` answers FALSE when no bit is left,
  or when at most 8 bits are left and they are a 1 and zeros; and it looks at the bits only when all
  bytes are loaded.

  * `Reached` -- the states that reads within the RBSP reach;
  * `StopBitSeen` -- at the stop bit the last byte is loaded, and the position is not in the zeros
    behind it;
  * **`more_rbsp_data_iff`** -- in each state reached the answer is right exactly when
    `StopBitSeen`.
-/
import OpenCore.Avc.Bitstream

namespace OpenCore.Avc

open MsbBits List

/-! ## 1. The test and the reads -/

def trailing_bits (n : Nat) : Nat :=
  ([0, 0x1, 0x2, 0x4, 0x8, 0x10, 0x20, 0x40, 0x80] : List Nat).getD n 0

/-- `more_rbsp_data`: the stream behind it, whose cache may have been filled, and the answer. -/
def AVCDecBitstream.more_rbsp_data (s : AVCDecBitstream) : AVCDecBitstream × Bool :=
  if s.read_pos ≥ s.nal_size then
    let total_bit_left := s.incnt_next + s.incnt
    if total_bit_left ≤ 0 then (s, false)
    else if total_bit_left ≤ 8 then
      let r := s.BitstreamShowBits total_bit_left.toNat
      (r.1, r.2 != trailing_bits total_bit_left.toNat)
    else (s, true)
  else (s, true)

/-- What the decoder does with the stream: a call of the reader, a look at some bits that flushes
    some of them (the code tables), and the test itself. -/
inductive StreamUse where
  | call (c : ReadCall)
  | look (nBits flushed : Nat)
  | more
  deriving DecidableEq, Repr

/-- The stream behind one use. -/
def AVCDecBitstream.use (s : AVCDecBitstream) : StreamUse → AVCDecBitstream
  | .call c => (readCall s c).1
  | .look nBits flushed => (s.BitstreamShowBits nBits).1.BitstreamFlushBits flushed
  | .more => s.more_rbsp_data.1

/-- The numbers of bits the reader takes: shifts of a 32-bit word. -/
def StreamUse.Valid : StreamUse → Prop
  | .call (.readBits n) => 1 ≤ n ∧ n ≤ 31
  | .call (.showBits n) => 1 ≤ n ∧ n ≤ 32
  | .look nBits flushed => 1 ≤ nBits ∧ nBits ≤ 32 ∧ flushed ≤ nBits ∧ flushed ≤ 31
  | _ => True

/-- A use that stays within the RBSP `r`. -/
def UsesWithin (r : List UInt8) (s : AVCDecBitstream) (a : StreamUse) (s' : AVCDecBitstream) :
    Prop :=
  a.Valid ∧ s' = s.use a ∧ s'.bitcnt ≤ 8 * r.length

/-- **A state reached** from the beginning of the RBSP `r`, with `rest` behind it in the buffer. -/
def Reached (r rest : List UInt8) (s : AVCDecBitstream) : Prop :=
  ∃ uses, Run (UsesWithin r) (.opened (r ++ rest) r.length) uses s

theorem Reached.opened (r rest : List UInt8) : Reached r rest (.opened (r ++ rest) r.length) :=
  ⟨[], .start⟩

theorem Reached.use {r rest : List UInt8} {s : AVCDecBitstream} (h : Reached r rest s)
    (a : StreamUse) (hv : a.Valid) (hin : (s.use a).bitcnt ≤ 8 * r.length) :
    Reached r rest (s.use a) := by
  obtain ⟨uses, hrun⟩ := h
  exact ⟨_, hrun.step ⟨hv, rfl, hin⟩⟩

/-- At the stop bit, which stands at `stop`, the last byte is loaded; and the position is not
    between the stop bit and the end. -/
def StopBitSeen (r : List UInt8) (stop : Nat) (s : AVCDecBitstream) : Prop :=
  (s.bitcnt = stop → s.nal_size ≤ s.read_pos) ∧ (s.bitcnt ≤ stop ∨ s.bitcnt = 8 * r.length)

/-! ## 2. Every use keeps the place -/

open AVCDecBitstream (BitstreamByteAlign PV_CLZ opened)

section Uses

variable {r : List UInt8} {s : AVCDecBitstream} {p n m : Nat}

theorem PV_CLZ_le (l : List Bool) :
    PV_CLZ 16 0 (num (fit 16 l) ||| 0x1) ≤ 15 := by
  have h := zerosInFront_concat_le (fit 15 l)
  rw [fit_length] at h
  rw [PV_CLZ_fit]
  exact h

section

variable (h : Reads r s p n m)
include h

/-- A code that stays within the data, whatever its length says. -/
theorem Reads.readCode_within
    (hin : s.readCode.1.bitcnt ≤ (8 * r.length : Nat)) :
    ∃ p' n' m', Reads r s.readCode.1 p' n' m' := by
  obtain ⟨⟨n', m', h', hn'⟩, hv⟩ := h.showBits (k := 16) (by decide)
  have hle : PV_CLZ 16 0 ((s.BitstreamShowBits 16).2 ||| 0x1) ≤ 15 := by
    rw [hv]
    exact PV_CLZ_le _
  have hcount := h'.count
  obtain ⟨z, hz⟩ : ∃ z, PV_CLZ 16 0 ((s.BitstreamShowBits 16).2 ||| 0x1) = z :=
    ⟨_, rfl⟩
  rw [hz] at hle
  unfold AVCDecBitstream.readCode at hin ⊢
  simp only [hz, double] at hin ⊢
  split at hin
  · rw [if_pos ‹_›]
    have hin' : (s.BitstreamShowBits 16).1.bitcnt + ((2 * z + 1 : Nat) : Int) ≤
        (8 * r.length : Nat) := hin
    exact ⟨_, _, _, h'.flush (by omega)⟩
  · rw [if_neg ‹_›]
    obtain ⟨n'', m'', h'', _⟩ := h'.peek (k := 2 * z + 1) (by omega)
    have hin' : (if (s.BitstreamShowBits 16).1.incnt < (2 * z + 1 : Nat) then
        (s.BitstreamShowBits 16).1.AVC_BitstreamFillCache
        else (s.BitstreamShowBits 16).1).bitcnt + ((2 * z + 1 : Nat) : Int) ≤
        (8 * r.length : Nat) := hin
    rw [h''.count] at hin'
    obtain ⟨⟨n3, m3, h3⟩, _⟩ := h'.readBits (k := 2 * z + 1) (by omega) (by omega)
    exact ⟨_, n3, m3, h3⟩

theorem Reads.readBits_within {k : Nat} (hk : k ≤ 32)
    (hin : (s.BitstreamReadBits k).1.bitcnt ≤ (8 * r.length : Nat)) :
    ∃ p' n' m', Reads r (s.BitstreamReadBits k).1 p' n' m' := by
  obtain ⟨n', m', h', _⟩ := h.peek hk
  have hin' : (if s.incnt < k then s.AVC_BitstreamFillCache else s).bitcnt + (k : Int) ≤
      (8 * r.length : Nat) := hin
  rw [h'.count] at hin'
  obtain ⟨⟨n'', m'', h''⟩, _⟩ := h.readBits hk (by omega)
  exact ⟨_, n'', m'', h''⟩

/-- Where the first word has too few bits, the alignment ends with it. -/
theorem Reads.byteAlign_short (hlt : ¬s.n_stuffed ≤ s.incnt) :
    Reads r s.BitstreamByteAlign (p + n) 0 m := by
  have hcount := h.count
  have hin := h.incnt
  have hc := h.cached
  obtain ⟨k, hk⟩ : ∃ k : Nat, s.n_stuffed = k := by
    refine ⟨s.n_stuffed.toNat, ?_⟩
    rw [AVCDecBitstream.n_stuffed]
    omega
  rw [hk] at hlt
  have hdrop : (((bits r).drop p).take n).drop k = [] :=
    drop_of_length_le (by rw [h.slice_length.1]; omega)
  have hcurr : (s.curr_word <<< k) % 2 ^ 32 = 0 := by
    rw [h.curr, word_shiftLeft (by rw [h.slice_length.1]; exact h.incnt_le), hdrop, word_nil]
  unfold BitstreamByteAlign
  simp only [hk, Int.toNat_natCast, hcurr]
  rw [if_pos (by omega)]
  refine ⟨h.buffer, h.end_pos, h.pos_le, by show p + n + 0 + m = 8 * s.read_pos; omega, ?_, rfl,
    Nat.zero_le _, ?_, h.incnt_next, h.next_le, h.next⟩
  · show s.bitcnt + k + (s.incnt - k) = _
    omega
  · rw [take_zero, word_nil]

theorem Reads.more_rbsp_data :
    ∃ n' m', Reads r s.more_rbsp_data.1 p n' m' := by
  unfold AVCDecBitstream.more_rbsp_data
  simp only
  split
  · split
    · exact ⟨n, m, h⟩
    · split
      · obtain ⟨⟨n', m', h', _⟩, _⟩ := h.showBits (k := (s.incnt_next + s.incnt).toNat) (by omega)
        exact ⟨n', m', h'⟩
      · exact ⟨n, m, h⟩
  · exact ⟨n, m, h⟩

/-- **A use within the data keeps the place.** -/
theorem Reads.use {a : StreamUse} (hv : a.Valid)
    (hin : (s.use a).bitcnt ≤ (8 * r.length : Nat)) : ∃ p' n' m', Reads r (s.use a) p' n' m' := by
  cases a with
  | call c =>
    cases c with
    | readBits k =>
      have hk : k ≤ 32 := by
        have := hv.2
        omega
      exact h.readBits_within hk hin
    | read1Bit => exact h.readBits_within (k := 1) (by decide) hin
    | showBits k =>
      obtain ⟨⟨n', m', h', _⟩, _⟩ := h.showBits (k := k) hv.2
      exact ⟨p, n', m', h'⟩
    | ue_v => exact h.readCode_within hin
    | se_v => exact h.readCode_within hin
    | byteAlign =>
      by_cases hle : s.n_stuffed ≤ s.incnt
      · obtain ⟨n', m', h'⟩ := h.byteAlign.1 hle
        exact ⟨_, n', m', h'⟩
      · exact ⟨_, 0, m, h.byteAlign_short hle⟩
  | look k f =>
    obtain ⟨⟨n', m', h', hn'⟩, _⟩ := h.showBits (k := k) hv.2.1
    have hf : f ≤ k := hv.2.2.1
    have hcount := h'.count
    have hin' : (s.BitstreamShowBits k).1.bitcnt + (f : Int) ≤ (8 * r.length : Nat) := hin
    exact ⟨_, _, _, h'.flush (k := f) (by omega)⟩
  | more =>
    obtain ⟨n', m', h'⟩ := h.more_rbsp_data
    exact ⟨p, n', m', h'⟩

end

end Uses

section

variable (s : AVCDecBitstream)
include s

theorem fillCache_nal_size :
    s.AVC_BitstreamFillCache.nal_size = s.nal_size := by
  unfold AVCDecBitstream.AVC_BitstreamFillCache
  simp only
  split
  · rfl
  · split
    · split
      · rfl
      · split <;> rfl
    · rfl

theorem peek_nal_size (k : Int) :
    (if s.incnt < k then s.AVC_BitstreamFillCache else s).nal_size = s.nal_size := by
  split
  · exact fillCache_nal_size s
  · rfl

theorem readCode_nal_size : s.readCode.1.nal_size = s.nal_size := by
  unfold AVCDecBitstream.readCode
  simp only
  split
  · exact peek_nal_size s 16
  · exact (peek_nal_size _ _).trans (peek_nal_size s 16)

/-- No use changes the size of the NAL unit. -/
theorem use_nal_size (a : StreamUse) : (s.use a).nal_size = s.nal_size := by
  cases a with
  | call c =>
    cases c with
    | readBits k => exact peek_nal_size s k
    | read1Bit => exact peek_nal_size s 1
    | showBits k => exact peek_nal_size s k
    | ue_v => exact readCode_nal_size s
    | se_v => exact readCode_nal_size s
    | byteAlign =>
      show s.BitstreamByteAlign.nal_size = s.nal_size
      unfold BitstreamByteAlign
      simp only
      split <;> rfl
  | look k f => exact peek_nal_size s k
  | more =>
    show s.more_rbsp_data.1.nal_size = s.nal_size
    unfold AVCDecBitstream.more_rbsp_data
    simp only
    split
    · split
      · rfl
      · split
        · exact peek_nal_size s _
        · rfl
    · rfl

end

/-- **What holds in every state reached**: the words hold the bits behind the position. -/
theorem Reached.reads {r rest : List UInt8} {s : AVCDecBitstream} (h : Reached r rest s) :
    (∃ p n m, Reads r s p n m) ∧ s.nal_size = r.length := by
  obtain ⟨uses, hrun⟩ := h
  refine hrun.invariant (I := fun s => (∃ p n m, Reads r s p n m) ∧ s.nal_size = r.length)
    ⟨⟨0, 0, 0, Reads.opened r rest⟩, rfl⟩ ?_
  intro s a s' ⟨⟨p, n, m, h⟩, hnal⟩ ⟨hv, hs', hin⟩
  rw [hs'] at hin ⊢
  refine ⟨h.use hv (by push_cast; exact hin), ?_⟩
  rw [use_nal_size, hnal]

/-! ## 3. The last bits -/

/-- The pattern of `k` trailing bits is a 1 and zeros. -/
theorem trailing_bits_eq {k : Nat} (h1 : 1 ≤ k) (h8 : k ≤ 8) :
    trailing_bits k = num (true :: replicate (k - 1) false) := by
  rw [num_cons, num_replicate_false, length_replicate]
  obtain rfl | rfl | rfl | rfl | rfl | rfl | rfl | rfl :
    k = 1 ∨ k = 2 ∨ k = 3 ∨ k = 4 ∨ k = 5 ∨ k = 6 ∨ k = 7 ∨ k = 8 := by omega
  all_goals rfl

/-- The last bits are the pattern exactly when the stop bit is the first of them. -/
theorem num_eq_trailing_iff {body : List Bool} {z p k : Nat} (hk : 1 ≤ k) (h8 : k ≤ 8)
    (hlen : ((body ++ true :: replicate z false).drop p).length = k) :
    num ((body ++ true :: replicate z false).drop p) = trailing_bits k ↔ p = body.length := by
  have hz : body.length + (z + 1) - p = k := by simpa using hlen
  rw [trailing_bits_eq hk h8]
  constructor
  · intro h
    have hlists := num_inj
      (hlen.trans (by rw [length_cons, length_replicate]; omega)) h
    by_contra hne
    have hget := congrArg (fun l => l[body.length - p]?) hlists
    rcases Nat.lt_or_ge p body.length with hp | hp
    · -- the stop bit stands behind the first one
      obtain ⟨j, hj⟩ : ∃ j, body.length - p = j + 1 := ⟨body.length - p - 1, by omega⟩
      have hpj : p + (j + 1) = body.length := by omega
      simp only [getElem?_drop, hj, hpj, getElem?_append_right (Nat.le_refl _),
        Nat.sub_self, getElem?_cons_zero, getElem?_cons_succ] at hget
      rw [getElem?_replicate_of_lt (by omega)] at hget
      exact Bool.noConfusion (Option.some.inj hget)
    · -- the stop bit is behind the position
      have hdrop : (body ++ true :: replicate z false).drop p = replicate k false := by
        obtain ⟨j, hj⟩ : ∃ j, p - body.length = j + 1 := ⟨p - body.length - 1, by omega⟩
        rw [drop_append, drop_of_length_le hp, nil_append, hj, drop_succ_cons,
          drop_replicate]
        congr 1
        omega
      rw [hdrop] at hlists
      obtain ⟨j, hj⟩ : ∃ j, k = j + 1 := ⟨k - 1, by omega⟩
      rw [hj, replicate_succ] at hlists
      exact Bool.noConfusion (cons.inj hlists).1
  · intro h
    rw [h, drop_append_of_le_length (Nat.le_refl _), drop_length, nil_append]
    congr 3
    omega

/-! ## 4. The answer -/

/-- The answer once the last byte is loaded. -/
theorem Reads.more_loaded {r : List UInt8} {s : AVCDecBitstream} {p n m : Nat} {body : List Bool}
    {z : Nat} (h : Reads r s p n m) (hr : bits r = body ++ true :: replicate z false)
    (hz : z ≤ 7) (hnal : s.nal_size = r.length) (hpos : s.read_pos = r.length) :
    s.more_rbsp_data.2 = true ↔ p ≠ body.length ∧ p < 8 * r.length := by
  have hc := h.cached
  have hin := h.incnt
  have hinn := h.incnt_next
  have hlen : body.length + (z + 1) = 8 * r.length := by
    rw [← bits_length, hr, length_append, length_cons, length_replicate]
  unfold AVCDecBitstream.more_rbsp_data
  simp only
  rw [if_pos (by omega)]
  by_cases h0 : s.incnt_next + s.incnt ≤ 0
  · rw [if_pos h0]
    exact iff_of_false Bool.false_ne_true (by omega)
  · rw [if_neg h0]
    by_cases h8 : s.incnt_next + s.incnt ≤ 8
    · obtain ⟨k, hk⟩ : ∃ k, (s.incnt_next + s.incnt).toNat = k := ⟨_, rfl⟩
      have hlenk : ((bits r).drop p).length = k := by
        rw [length_drop, bits_length]
        omega
      obtain ⟨_, hv⟩ := h.showBits (k := k) (by omega)
      have hiff := @num_eq_trailing_iff body z p k (by omega)
        (by omega) (by rw [← hr]; exact hlenk)
      rw [fit_eq_append (by omega), hlenk, Nat.sub_self, replicate_zero, append_nil,
        hr] at hv
      rw [if_pos h8, hk]
      simp only [hv, bne_iff_ne, ne_eq, hiff]
      constructor
      · intro hne
        exact ⟨hne, by omega⟩
      · intro hne
        exact hne.1
    · rw [if_neg h8]
      exact iff_of_true rfl ⟨by omega, by omega⟩

/-- **The answer of `more_rbsp_data`.** For every RBSP that ends with a stop bit and up to 7 zeros
    and every state that reads within it reach: TRUE says that a bit comes before the stop bit,
    exactly when the last byte is loaded at the stop bit and the position is not in the zeros
    behind it. -/
theorem more_rbsp_data_iff {r rest : List UInt8} {body : List Bool} {z : Nat}
    {s : AVCDecBitstream} (hr : bits r = body ++ true :: List.replicate z false) (hz : z ≤ 7)
    (hs : Reached r rest s) :
    (s.more_rbsp_data.2 = true ↔ s.bitcnt < body.length) ↔ StopBitSeen r body.length s := by
  obtain ⟨⟨p, n, m, h⟩, hnal⟩ := hs.reads
  have hc := h.cached
  have hcount := h.count
  have hple := h.pos_le
  have hlen : body.length + (z + 1) = 8 * r.length := by
    rw [← bits_length, hr, length_append, length_cons, length_replicate]
  rw [StopBitSeen, hnal, hcount]
  rcases Nat.lt_or_ge s.read_pos r.length with hlt | hge
  · -- a byte is still to be loaded: the answer is TRUE
    have htrue : s.more_rbsp_data.2 = true := by
      unfold AVCDecBitstream.more_rbsp_data
      rw [if_neg (by omega)]
    simp only [htrue, true_iff]
    omega
  · have hpos : s.read_pos = r.length := by omega
    rw [h.more_loaded hr hz hnal hpos]
    omega

/-- Nine bits read of two bytes: the position is at the stop bit, and the answer is FALSE. -/
theorem more_rbsp_data_nine :
    let s := (opened [0xAB, 0xC0] 2).use (.call (.readBits 9))
    (s.more_rbsp_data.2 = true ↔ s.bitcnt < 9) ∧ s.bitcnt = 9 ∧ s.more_rbsp_data.2 = false := by
  refine ⟨?_, by decide +kernel, by decide +kernel⟩
  refine (@more_rbsp_data_iff [0xAB, 0xC0] [] [true, false, true, false, true, false, true, true,
    true] 6 _ (by decide +kernel) (by decide)
    ((Reached.opened _ _).use (.call (.readBits 9)) ⟨by decide, by decide⟩
      (by decide +kernel))).mpr ?_
  exact ⟨fun _ => by decide +kernel, .inl (by decide +kernel)⟩

/-- **Four bytes read of five, the last one 0x80**: the last byte is not loaded yet, and the answer
    is TRUE with nothing but the trailing bits left. And one bit read of the byte 0x80: the answer
    is TRUE with seven zeros left. -/
theorem more_in_trailing_bits :
    (∃ s, Reached [1, 2, 3, 4, 0x80] [] s ∧
      (∃ body, bits [1, 2, 3, 4, 0x80] = body ++ true :: List.replicate 7 false ∧
        s.bitcnt = body.length) ∧ s.more_rbsp_data.2 = true) ∧
    (∃ s, Reached [0x80] [] s ∧ bits [0x80] = [] ++ true :: List.replicate 7 false ∧
      s.bitcnt = 1 ∧ s.more_rbsp_data.2 = true) := by
  refine ⟨⟨((opened [1, 2, 3, 4, 0x80] 5).use (.call (.readBits 16))).use
      (.call (.readBits 16)), ?_, ?_, by decide +kernel⟩,
    ⟨(opened [0x80] 1).use (.call .read1Bit), ?_, by decide +kernel,
      by decide +kernel, by decide +kernel⟩⟩
  · exact ((Reached.opened _ _).use (.call (.readBits 16)) ⟨by decide, by decide⟩
      (by decide +kernel)).use (.call (.readBits 16)) ⟨by decide, by decide⟩ (by decide +kernel)
  · exact ⟨bits [1, 2, 3, 4], by decide +kernel, by decide +kernel⟩
  · exact (Reached.opened [0x80] []).use (.call .read1Bit) trivial (by decide +kernel)

end OpenCore.Avc
