/-
  File:      OpenCore/Avc/SliceHeaderEnd.lean
  Subject:   WHERE THE DECODER STOPS: the bits that it takes for the values it gives.

  The decoder takes for each value at least the bits of its code word (`Past`), or runs beyond the
  data. Where it gives back the encoder's values it has also taken the terminators of the lists and
  the wider `slice_group_change_cycle`, which the encoder did not write.

  **Main result**: `ends_secondHalf`.
-/
import OpenCore.Avc.SliceHeader

namespace OpenCore.Avc

open MsbBits List
open Enc (codeOf cycleBits markingCommand write1Bit)
open Function (update_of_ne update_self)
open Enc (markingLoop se_v ue_v)

/-! ## 1. Positions -/

open AVCDecBitstream (BitstreamShowBits PV_CLZ)

/-- The reader is at `p` or behind it, or has run beyond the data. -/
def Past (r : List UInt8) (s : AVCDecBitstream) (p : Nat) : Prop :=
  (∃ q n m, p ≤ q ∧ Reads r s q n m) ∨ (8 * r.length : Nat) < s.bitcnt

variable {k : Nat} {v : EncVideo} {l : Reordering} {d : DecVideo} {m : Marking}

section Positions

variable {r : List UInt8} {s : AVCDecBitstream} {p : Nat}

theorem Sees.past {l : List Bool} (h : Sees r s l) : Past r s (8 * r.length - l.length) := by
  obtain ⟨done, n, m, h, hd⟩ := h
  have hlen := (drop_done hd).2
  exact .inl ⟨done.length, n, m, by omega, h⟩

theorem Past.mono (h : Past r s p) {q : Nat} (hq : q ≤ p) : Past r s q := by
  rcases h with ⟨x, n, m, hx, h⟩ | h
  · exact .inl ⟨x, n, m, hq.trans hx, h⟩
  · exact .inr h

theorem bitcnt_fillCache (s : AVCDecBitstream) : s.AVC_BitstreamFillCache.bitcnt = s.bitcnt := by
  unfold AVCDecBitstream.AVC_BitstreamFillCache
  simp only
  split
  · rfl
  split
  · split
    · rfl
    · split <;> rfl
  · rfl

theorem bitcnt_show (s : AVCDecBitstream) (n : Nat) :
    (s.BitstreamShowBits n).1.bitcnt = s.bitcnt := by
  unfold BitstreamShowBits
  simp only
  split
  · exact bitcnt_fillCache s
  · rfl

theorem bitcnt_read (s : AVCDecBitstream) (n : Nat) :
    (s.BitstreamReadBits n).1.bitcnt = s.bitcnt + n := by
  have := bitcnt_show s n
  unfold BitstreamShowBits at this
  show (if s.incnt < n then s.AVC_BitstreamFillCache else s).bitcnt + n = _
  rw [this]

theorem bitcnt_code (s : AVCDecBitstream) :
    s.readCode.1.bitcnt = s.bitcnt +
      (2 * PV_CLZ 16 0 ((s.BitstreamShowBits 16).2 ||| 0x1) + 1 : Nat) := by
  obtain ⟨c, hc⟩ : ∃ c, PV_CLZ 16 0 ((s.BitstreamShowBits 16).2 ||| 0x1) = c :=
    ⟨_, rfl⟩
  unfold AVCDecBitstream.readCode
  simp only [hc, double]
  split
  · show (s.BitstreamShowBits 16).1.bitcnt + (2 * c + 1 : Nat) = _
    rw [bitcnt_show]
  · rw [bitcnt_read, bitcnt_show]

theorem Past.readBits (h : Past r s p) (hk : k ≤ 32) :
    Past r (s.BitstreamReadBits k).1 (p + k) := by
  have hcnt := bitcnt_read s k
  rcases h with ⟨q, n, m, hq, h⟩ | h
  · have hbit := h.count
    by_cases hin : q + k ≤ 8 * r.length
    · obtain ⟨⟨n', m', h'⟩, -⟩ := h.readBits hk hin
      exact .inl ⟨q + k, n', m', by omega, h'⟩
    · exact .inr (by omega)
  · exact .inr (by omega)

/-- What is counted in the bits that are shown are zeros. -/
theorem clz_zeros (l : List Bool) : ∃ c ≤ 15,
    PV_CLZ 16 0 (num (fit 16 l) ||| 0x1) = c ∧ ∀ b ∈ l.take c, b = false := by
  by_cases hz : zerosInFront l < l.length
  · refine ⟨min (zerosInFront l) 15, Nat.min_le_right _ _, PV_CLZ_shown hz, fun b hb => ?_⟩
    obtain ⟨rest, hl⟩ := zerosInFront_split hz
    obtain ⟨z, hzero⟩ : ∃ z, zerosInFront l = z := ⟨_, rfl⟩
    rw [hzero] at hl hb
    rw [hl, take_append_of_le_length (by
      rw [length_replicate]
      exact Nat.min_le_left _ _)] at hb
    exact eq_of_mem_replicate (mem_of_mem_take hb)
  · -- no 1 is left
    have hall : ∀ b ∈ l, b = false := by
      intro b hb
      have htw : l.takeWhile (! ·) = l :=
        ( takeWhile_prefix _).eq_of_length_le (Nat.le_of_not_lt hz)
      rw [← htw] at hb
      simpa using mem_takeWhile_imp hb
    have hl : l = replicate l.length false := eq_replicate_of_mem hall
    refine ⟨15, Nat.le_refl _, ?_, fun b hb => hall b (mem_of_mem_take hb)⟩
    have hfit : num (fit 16 l) = 0 := by
      rw [fit, hl, ← replicate_add, take_replicate, num_replicate_false]
    rw [hfit]
    decide

theorem num_take_lt {l : List Bool} {c : Nat} (h : ∀ b ∈ l.take c, b = false) :
    num (l.take (2 * c + 1)) < 2 ^ (c + 1) := by
  have hsplit : l.take (2 * c + 1) = l.take c ++ (l.drop c).take (c + 1) := by
    have hsum : 2 * c + 1 = c + (c + 1) := by omega
    rw [hsum, take_add]
  have hzero : num (l.take c) = 0 := by
    rw [eq_replicate_of_mem h, num_replicate_false]
  have hlt := num_lt ((l.drop c).take (c + 1))
  rw [hsplit, num_append, hzero, Nat.zero_mul, Nat.zero_add]
  refine hlt.trans_le (Nat.pow_le_pow_right (by decide) ?_)
  rw [length_take]
  exact Nat.min_le_left _ _

/-- A code that is read has at least half its bits behind its zeros. -/
theorem Reads.code_taken {q n m : Nat} (h : Reads r s q n m) : ∃ c ≤ 15,
    s.readCode.1.bitcnt = (q + (2 * c + 1) : Nat) ∧
      (q + (2 * c + 1) ≤ 8 * r.length →
        (∃ n' m', Reads r s.readCode.1 (q + (2 * c + 1)) n' m') ∧ s.readCode.2 < 2 ^ (c + 1)) := by
  obtain ⟨⟨n', m', h', hn'⟩, hv⟩ := h.showBits (k := 16) (by decide)
  obtain ⟨c, h15, hc, hzeros⟩ := clz_zeros ((bits r).drop q)
  have hcnt := bitcnt_code s
  have hbit := h.count
  rw [← hv] at hc
  rw [hc] at hcnt
  refine ⟨c, h15, by omega, fun hin => ?_⟩
  have hlt := num_take_lt hzeros
  unfold AVCDecBitstream.readCode
  simp only [hc, double]
  split
  · -- the code is within the bits that were shown
    refine ⟨⟨_, m', h'.flush (by omega)⟩, ?_⟩
    have hsub : 15 - 2 * c = 16 - (2 * c + 1) := by omega
    have h16 : num (fit 16 ((bits r).drop q)) = word 16 ((bits r).drop q) := rfl
    show (s.BitstreamShowBits 16).2 >>> (15 - 2 * c) < _
    rwa [hv, hsub, h16, word_shiftRight (by omega), fit_drop (by omega)]
  · obtain ⟨hr, hval⟩ := h'.readBits (k := 2 * c + 1) (by omega) (by omega)
    exact ⟨hr, by rwa [hval]⟩

/-- The bits of the code word of a value. -/
def lenUe (v : Nat) : Nat := if v < 65535 then 2 * Nat.log2 (v + 1) + 1 else 0

theorem egBits_length {v : Nat} (hv : v < 65535) : (egBits v).length = lenUe v := by
  rw [egBits, length_append, length_replicate, ofNum_length, lenUe, if_pos hv]
  ring

/-- A value is not read from fewer bits than it has in its code word. -/
theorem Past.code (h : Past r s p) {v : Nat}
    (hv : s.readCode.2 < 2 ^ 16 → v < 65535 → v = s.readCode.2 - 1) :
    Past r s.readCode.1 (p + lenUe v) := by
  rcases h with ⟨q, n, m, hq, h⟩ | h
  · obtain ⟨c, h15, hcnt, hread⟩ := h.code_taken
    by_cases hin : q + (2 * c + 1) ≤ 8 * r.length
    · obtain ⟨⟨n', m', h'⟩, hlt⟩ := hread hin
      refine .inl ⟨_, n', m', ?_, h'⟩
      unfold lenUe
      split
      · rename_i hlow
        have hpow : 2 ^ (c + 1) ≤ 2 ^ 16 := Nat.pow_le_pow_right (by decide) (by omega)
        have hcode := hv (hlt.trans_le hpow) hlow
        have hlog : Nat.log2 (v + 1) < c + 1 := by
          refine (Nat.log2_lt (Nat.succ_ne_zero v)).mpr ?_
          have := Nat.one_lt_two_pow (show c + 1 ≠ 0 by omega)
          omega
        omega
      · omega
    · exact .inr (by omega)
  · have := bitcnt_code s
    exact .inr (by omega)

theorem Past.ue (h : Past r s p) : Past r s.ue_v.1 (p + lenUe s.ue_v.2) := by
  refine h.code fun h16 hlow => ?_
  have hval : s.ue_v.2 = sub32 s.readCode.2 1 := rfl
  rw [hval] at hlow ⊢
  unfold sub32 at hlow ⊢
  omega

theorem codeOf_signed (c : Nat) : codeOf (signed c) = c := by
  unfold codeOf signed
  split <;> split <;> omega

theorem Past.se (h : Past r s p) : Past r s.se_v.1 (p + lenUe (codeOf s.se_v.2)) := by
  refine h.code fun _ _ => ?_
  have hval : s.se_v.2 = if s.readCode.2 &&& 0x01 = 1 then -((s.readCode.2 >>> 1 : Nat) : Int)
    else ((s.readCode.2 >>> 1 : Nat) : Int) := rfl
  rw [hval]
  by_cases h0 : s.readCode.2 = 0
  · rw [h0]
    decide
  · rw [signed_of_code _ (by omega), codeOf_signed]

theorem ends_ue (h : Past r s p) : Dec.ue_v.Ends s fun v s' => Past r s' (p + lenUe v) :=
  .step h.ue

theorem ends_se (h : Past r s p) :
    Dec.se_v.Ends s fun v s' => Past r s' (p + lenUe (codeOf v)) :=
  .step h.se

theorem ends_bit (h : Past r s p) : Dec.read1Bit.Ends s fun _ s' => Past r s' (p + 1) :=
  .step (h.readBits (by decide))

theorem ends_check {α : Type} {c : Prop} [Decidable c] {x : Stop} {k : Unit → DecM α}
    {Q : α → AVCDecBitstream → Prop} (h : ¬ c → (k ()).Ends s Q) :
    (Dec.failIf c x >>= k).Ends s Q := by
  unfold Dec.failIf
  by_cases hc : c
  · rw [if_pos hc]
    exact .bind (.throw x)
  · rw [if_neg hc]
    exact .bind (.pure (h hc))

/-! ## 2. The reordering commands -/

/-- The bits of the commands `i`, `i + 1`, … -/
def commandsLen (command : Nat → List WriteCall) : Nat → Nat → Nat
  | _, 0 => 0
  | i, count + 1 => (callsBits (command i)).length + commandsLen command (i + 1) count

/-- A loop of the encoder writes no more commands than there are. -/
theorem loop_length_le {command : Nat → List WriteCall} {loop : Nat → Nat → List WriteCall}
    (hzero : ∀ i, loop 0 i = [])
    (hsucc : ∀ fuel, ∀ i < k, loop (fuel + 1) i = command i ∨
      i + 1 < k ∧ loop (fuel + 1) i = command i ++ loop fuel (i + 1))
    (fuel i count : Nat) (hk : i + (count + 1) = k) :
    (callsBits (loop fuel i)).length ≤ commandsLen command i (count + 1) := by
  induction fuel generalizing i count with
  | zero =>
    rw [hzero]
    exact Nat.zero_le _
  | succ fuel ih =>
    rw [commandsLen]
    rcases hsucc fuel i (by omega) with he | ⟨hlt, he⟩
    · rw [he]
      exact Nat.le_add_right _ _
    · obtain ⟨count, rfl⟩ : ∃ c, count = c + 1 := ⟨count - 1, by omega⟩
      rw [he, callsBits_append, length_append]
      exact Nat.add_le_add_left (ih (i + 1) count (by omega)) _

theorem callsBits_ue_length {v : Nat} (hv : v < 65535) :
    (callsBits (ue_v v)).length = lenUe v := by
  rw [(callsBits_ue (by omega)).1, egBits_length hv]

theorem reorderingCommand_length {i : Nat}
    (hidc : l.reordering_of_pic_nums_idc i < 65535) (habs : l.abs_diff_pic_num_minus1 i < 65535)
    (hlong : l.long_term_pic_num i < 65535) :
    (callsBits (Enc.reorderingCommand l i)).length = lenUe (l.reordering_of_pic_nums_idc i) +
      if l.reordering_of_pic_nums_idc i = 0 ∨ l.reordering_of_pic_nums_idc i = 1 then
        lenUe (l.abs_diff_pic_num_minus1 i)
      else if l.reordering_of_pic_nums_idc i = 2 then lenUe (l.long_term_pic_num i)
      else 0 := by
  unfold Enc.reorderingCommand
  rw [callsBits_append, length_append, callsBits_ue_length hidc]
  congr 1
  split
  · exact callsBits_ue_length habs
  · split
    · exact callsBits_ue_length hlong
    · rfl

theorem ends_operand (h : Past r s p) (MaxPicNum i idc : Nat) (l : Reordering) :
    (Dec.reorderingOperand MaxPicNum i idc l).Ends s fun l' s' =>
      l'.reordering_of_pic_nums_idc = l.reordering_of_pic_nums_idc ∧
      l'.ref_pic_list_reordering_flag = l.ref_pic_list_reordering_flag ∧
      (∀ j ≠ i, l'.abs_diff_pic_num_minus1 j = l.abs_diff_pic_num_minus1 j ∧
        l'.long_term_pic_num j = l.long_term_pic_num j) ∧
      Past r s' (p + if idc = 0 ∨ idc = 1 then lenUe (l'.abs_diff_pic_num_minus1 i)
        else if idc = 2 then lenUe (l'.long_term_pic_num i) else 0) := by
  unfold Dec.reorderingOperand
  refine .ite (fun h01 => ?_) fun h01 => .ite (fun h2 => ?_) fun h2 => ?_
  · refine .bind ((ends_ue h).mono fun v s' hv => ?_)
    refine ends_check fun _ => ends_check fun _ => .pure ⟨rfl, rfl, fun j hj => ⟨?_, rfl⟩, ?_⟩
    · exact update_of_ne hj _ _
    · rw [if_pos h01]
      dsimp only
      rwa [update_self]
  · refine .bind ((ends_ue h).mono fun v s' hv => .pure ⟨rfl, rfl, fun j hj => ⟨rfl, ?_⟩, ?_⟩)
    · exact update_of_ne hj _ _
    · rw [if_neg h01, if_pos h2]
      dsimp only
      rwa [update_self]
  · refine .pure ⟨rfl, rfl, fun _ _ => ⟨rfl, rfl⟩, ?_⟩
    rwa [if_neg h01, if_neg h2]

/-- **The loop over the commands** leaves the entries below alone; where it gives back the commands of
    `l` it has taken their bits and those of the terminator. -/
theorem ends_reorderingLoop
    (hk : l.reordering_of_pic_nums_idc k = 3)
    (hlow : ∀ i < k, l.reordering_of_pic_nums_idc i < 3 ∧ l.abs_diff_pic_num_minus1 i < 65535 ∧
      l.long_term_pic_num i < 65535)
    (MaxPicNum num fuel i : Nat) (a : Reordering) (h : Past r s p) :
    (Dec.reorderingLoop MaxPicNum num fuel i a).Ends s fun g s' =>
      (∀ j < i, g.reordering_of_pic_nums_idc j = a.reordering_of_pic_nums_idc j ∧
        g.abs_diff_pic_num_minus1 j = a.abs_diff_pic_num_minus1 j ∧
        g.long_term_pic_num j = a.long_term_pic_num j) ∧
      g.ref_pic_list_reordering_flag = a.ref_pic_list_reordering_flag ∧
      ∀ count, i + count = k → g.Same l →
        Past r s' (p + commandsLen (Enc.reorderingCommand l) i count + lenUe 3) := by
  induction fuel generalizing i a s p with
  | zero => exact .throw _
  | succ fuel ih =>
    unfold Dec.reorderingLoop
    refine .bind ((ends_ue h).mono fun idc s₁ h₁ => ?_)
    refine .bind ((ends_operand h₁ MaxPicNum i idc _).mono fun b s₂ hb => ?_)
    obtain ⟨hidc, hflag, hframe, h₂⟩ := hb
    dsimp only at hidc hflag hframe
    have hbi : b.reordering_of_pic_nums_idc i = idc := by
      rw [hidc, update_self]
    have hbj : ∀ j < i, b.reordering_of_pic_nums_idc j = a.reordering_of_pic_nums_idc j ∧
        b.abs_diff_pic_num_minus1 j = a.abs_diff_pic_num_minus1 j ∧
        b.long_term_pic_num j = a.long_term_pic_num j := by
      intro j hj
      rw [hidc, update_of_ne (by omega)]
      exact ⟨rfl, hframe j (by omega)⟩
    -- what comes back at `i` is what was read there
    have hentry : ∀ g : Reordering, g.Same l → (∀ j < i + 1,
        g.reordering_of_pic_nums_idc j = b.reordering_of_pic_nums_idc j ∧
        g.abs_diff_pic_num_minus1 j = b.abs_diff_pic_num_minus1 j ∧
        g.long_term_pic_num j = b.long_term_pic_num j) → i ≤ k →
        idc = l.reordering_of_pic_nums_idc i ∧
        (idc = 0 ∨ idc = 1 → b.abs_diff_pic_num_minus1 i = l.abs_diff_pic_num_minus1 i) ∧
        (idc = 2 → b.long_term_pic_num i = l.long_term_pic_num i) := by
      intro g hg hgb hik
      obtain ⟨h1, h2, h3⟩ := hg i fun j hj => by
        have := (hlow j (by omega)).1
        omega
      obtain ⟨e1, e2, e3⟩ := hgb i (by omega)
      rw [e1, hbi] at h1
      rw [e2] at h2
      rw [e3] at h3
      rw [← h1] at h2 h3
      exact ⟨h1, h2, h3⟩
    refine .ite (fun hgo => ?_) fun hstop => ?_
    · refine (ih (i + 1) b h₂).mono fun g s' hg => ?_
      obtain ⟨hgb, hgflag, hpast⟩ := hg
      refine ⟨fun j hj => ?_, hgflag.trans hflag, fun count hcount hsame => ?_⟩
      · obtain ⟨e1, e2, e3⟩ := hgb j (by omega)
        obtain ⟨f1, f2, f3⟩ := hbj j hj
        exact ⟨e1.trans f1, e2.trans f2, e3.trans f3⟩
      · obtain ⟨h1, h2, h3⟩ := hentry g hsame hgb (by omega)
        obtain ⟨count, rfl⟩ : ∃ c, count = c + 1 := by
          refine ⟨count - 1, ?_⟩
          have : i ≠ k := by
            rintro rfl
            exact hgo.1 (h1.trans hk)
          omega
        obtain ⟨l1, l2, l3⟩ := hlow i (by omega)
        have := hpast count (by omega) hsame
        refine this.mono ?_
        rw [commandsLen, reorderingCommand_length (by omega) l2 l3, ← h1]
        have hop : (if idc = 0 ∨ idc = 1 then lenUe (b.abs_diff_pic_num_minus1 i)
            else if idc = 2 then lenUe (b.long_term_pic_num i) else 0) =
          if idc = 0 ∨ idc = 1 then lenUe (l.abs_diff_pic_num_minus1 i)
            else if idc = 2 then lenUe (l.long_term_pic_num i) else 0 := by
          split
          · rename_i h01
            rw [h2 h01]
          · split
            · rename_i h02
              rw [h3 h02]
            · rfl
        omega
    · refine ends_check fun h3 => .pure ⟨hbj, hflag, fun count hcount hsame => ?_⟩
      have hidc3 : idc = 3 := Decidable.of_not_not h3
      obtain ⟨h1, -⟩ := hentry b hsame (fun _ _ => ⟨rfl, rfl, rfl⟩) (by omega)
      obtain rfl : count = 0 := by
        by_contra hne
        have := (hlow i (by omega)).1
        omega
      rw [hidc3] at h₂
      exact h₂

/-- The commands of a legal list, up to its terminator. -/
structure Reordering.Upto (l : Reordering) (k : Nat) : Prop where
  terminator : l.reordering_of_pic_nums_idc k = 3
  command : ∀ i < k, l.reordering_of_pic_nums_idc i < 3 ∧ l.abs_diff_pic_num_minus1 i < 65535 ∧
      l.long_term_pic_num i < 65535

/-- The commands that the encoder writes: no terminator, even where it would be within the
    number of references. -/
theorem reorderingLoop_length_le {count : Nat} (hl : l.Upto (count + 1))
    (num fuel : Nat) :
    (callsBits (Enc.reorderingLoop l num fuel 0)).length ≤
      commandsLen (Enc.reorderingCommand l) 0 (count + 1) := by
  refine loop_length_le (fun i => rfl) (fun fuel i hi => ?_) fuel 0 count (Nat.zero_add _)
  rw [Enc.reorderingLoop]
  by_cases hgo : l.reordering_of_pic_nums_idc (i + 1) ≠ 3 ∧ i + 1 ≤ num + 1
  · refine .inr ⟨?_, by rw [if_pos hgo]⟩
    have hne : i + 1 ≠ count + 1 := fun he => hgo.1 (he ▸ hl.terminator)
    omega
  · refine .inl ?_
    rw [if_neg hgo, append_nil]

/-- The commands are read: where they come back, the terminator was read too. -/
theorem ends_reordering (hl : LegalSlice d v)
    (hb : Baseline v.currSeqParams v.currPicParams) (MaxPicNum num : Nat) (l0 : Reordering)
    (h : Past r s p) :
    (Dec.ref_pic_list_reordering MaxPicNum num v.slice_type l0).Ends s fun g s' =>
      (v.slice_type = AVC_P_SLICE →
        g.ref_pic_list_reordering_flag = v.sliceHdr.l0.ref_pic_list_reordering_flag) →
      (v.slice_type = AVC_P_SLICE → v.sliceHdr.l0.ref_pic_list_reordering_flag ≠ 0 →
        g.Same v.sliceHdr.l0) →
      Past r s' (p + (callsBits (Enc.ref_pic_list_reordering v.sliceHdr v.slice_type)).length +
        if v.slice_type = AVC_P_SLICE ∧ v.sliceHdr.l0.ref_pic_list_reordering_flag ≠ 0 then 5
        else 0) := by
  unfold Dec.ref_pic_list_reordering Enc.ref_pic_list_reordering
  rcases hl.slice_type with ht | ht
  · rw [ht]
    exact .pure fun _ _ => h
  have hI : v.slice_type ≠ AVC_I_SLICE := by rw [ht]; decide
  have hSI : v.slice_type ≠ AVC_SI_SLICE := by rw [ht]; decide
  have hB : v.slice_type ≠ AVC_B_SLICE := by rw [ht]; decide
  have hlegal := hl.reordering ht
  obtain ⟨l, hl0⟩ : ∃ l, v.sliceHdr.l0 = l := ⟨_, rfl⟩
  rw [hl0] at hlegal ⊢
  rw [if_pos hI, if_pos ⟨hI, hSI⟩, if_neg hB, append_nil]
  unfold Enc.reorderingList
  rw [callsBits_append, length_append]
  have h1 : (callsBits (write1Bit l.ref_pic_list_reordering_flag)).length = 1 := by
    rw [write1Bit, callsBits_bit, ofNum_length]
  rw [h1]
  refine .bind ((ends_bit h).mono fun f s₁ h₁ => .ite (fun hne => ?_) fun hzero => ?_)
  · by_cases hf : l.ref_pic_list_reordering_flag = 0
    · -- commands are read where there are none
      refine (ends_reorderingLoop (l := { l with reordering_of_pic_nums_idc := fun _ => 3 })
        (k := 0) rfl (fun i hi => absurd hi (Nat.not_lt_zero i)) _ _ _ 0 _ h₁).mono
        fun g s' hg hflag _ => ?_
      exact absurd ((hg.2.1.symm.trans (hflag ht)).trans hf) hne
    · obtain ⟨k, hk1, -, hk3, hlow⟩ := hlegal hf
      obtain ⟨count, rfl⟩ : ∃ c, k = c + 1 := ⟨k - 1, by omega⟩
      have hmax : v.currSeqParams.MaxFrameNum / 2 - 2 < 65535 := by
        have : v.currSeqParams.MaxFrameNum ≤ 2 ^ 16 :=
          Nat.pow_le_pow_right (by decide) (by have := hb.log2_max_frame_num_minus4; omega)
        omega
      have hupto : l.Upto (count + 1) :=
        ⟨hk3, fun i hi => ⟨(hlow i hi).1, (hlow i hi).2.1.trans_lt hmax, (hlow i hi).2.2⟩⟩
      refine (ends_reorderingLoop hk3 hupto.command _ _ _ 0 _ h₁).mono fun g s' hg _ hsame => ?_
      refine (hg.2.2 (count + 1) (Nat.zero_add _) (hsame ht hf)).mono ?_
      have hle := reorderingLoop_length_le hupto v.sliceHdr.num_ref_idx_l0_active_minus1
        (v.sliceHdr.num_ref_idx_l0_active_minus1 + 2)
      have h5 : lenUe 3 = 5 := by decide
      rw [if_pos hf, if_pos ⟨ht, hf⟩]
      omega
  · refine .pure fun hflag _ => ?_
    have hf : l.ref_pic_list_reordering_flag = 0 := (hflag ht).symm.trans (by simpa using hzero)
    rw [if_neg (not_not_intro hf), if_neg fun hc => hc.2 hf]
    exact h₁

/-! ## 3. The marking operations -/

/-- The bits of the operands of an operation. -/
def operandsLen (m : Marking) (i op : Nat) : Nat :=
  (if op = 1 ∨ op = 3 then lenUe (m.difference_of_pic_nums_minus1 i) else 0) +
  (if op = 2 then lenUe (m.long_term_pic_num i) else 0) +
  (if op = 3 ∨ op = 6 then lenUe (m.long_term_frame_idx i) else 0) +
  if op = 4 then lenUe (m.max_long_term_frame_idx_plus1 i) else 0

theorem callsBits_option_length {c : Prop} [Decidable c] {v : Nat} (hv : v < 65535) :
    (callsBits (if c then ue_v v else [])).length = if c then lenUe v else 0 := by
  split
  · exact callsBits_ue_length hv
  · rfl

theorem markingCommand_length {i : Nat}
    (hop : m.memory_management_control_operation i < 65535)
    (hdiff : m.difference_of_pic_nums_minus1 i < 65535) (hlong : m.long_term_pic_num i < 65535)
    (hidx : m.long_term_frame_idx i < 65535)
    (hmax : m.max_long_term_frame_idx_plus1 i < 65535) :
    (callsBits (markingCommand m i)).length =
      lenUe (m.memory_management_control_operation i) +
        operandsLen m i (m.memory_management_control_operation i) := by
  unfold markingCommand operandsLen
  simp only [callsBits_append, length_append, callsBits_ue_length hop,
    callsBits_option_length hdiff, callsBits_option_length hlong, callsBits_option_length hidx,
    callsBits_option_length hmax]
  omega

/-- The entries of two lists at `j` are the same. -/
def Marking.At (a b : Marking) (j : Nat) : Prop :=
  a.memory_management_control_operation j = b.memory_management_control_operation j ∧
  a.difference_of_pic_nums_minus1 j = b.difference_of_pic_nums_minus1 j ∧
  a.long_term_pic_num j = b.long_term_pic_num j ∧
  a.long_term_frame_idx j = b.long_term_frame_idx j ∧
  a.max_long_term_frame_idx_plus1 j = b.max_long_term_frame_idx_plus1 j

theorem Marking.At.trans {a b c : Marking} {j : Nat} (h₁ : a.At b j) (h₂ : b.At c j) :
    a.At c j :=
  ⟨h₁.1.trans h₂.1, h₁.2.1.trans h₂.2.1, h₁.2.2.1.trans h₂.2.2.1, h₁.2.2.2.1.trans h₂.2.2.2.1,
    h₁.2.2.2.2.trans h₂.2.2.2.2⟩

theorem ends_optionUe (h : Past r s p) (c : Prop) [Decidable c] (w : Nat) :
    (if c then Dec.ue_v else pure w : DecM Nat).Ends s fun v s' =>
      Past r s' (p + if c then lenUe v else 0) := by
  by_cases hc : c
  · simp only [if_pos hc]
    exact ends_ue h
  · simp only [if_neg hc]
    exact .pure h

theorem ends_markingOperands (h : Past r s p) (i op : Nat) (m : Marking) :
    (Dec.markingOperands i op m).Ends s fun b s' =>
      b.memory_management_control_operation = m.memory_management_control_operation ∧
      b.adaptive_ref_pic_marking_mode_flag = m.adaptive_ref_pic_marking_mode_flag ∧
      (∀ j ≠ i, b.At m j) ∧ Past r s' (p + operandsLen b i op) := by
  unfold Dec.markingOperands
  refine .bind ((ends_optionUe h _ _).mono fun v₁ s₁ h₁ => ?_)
  refine .bind ((ends_optionUe h₁ _ _).mono fun v₂ s₂ h₂ => ?_)
  refine .bind ((ends_optionUe h₂ _ _).mono fun v₃ s₃ h₃ => ?_)
  refine .bind ((ends_optionUe h₃ _ _).mono fun v₄ s₄ h₄ => .pure ⟨rfl, rfl, fun j hj => ?_, ?_⟩)
  · exact ⟨rfl, update_of_ne hj _ _, update_of_ne hj _ _,
      update_of_ne hj _ _, update_of_ne hj _ _⟩
  · unfold operandsLen
    dsimp only
    simp only [update_self]
    refine h₄.mono ?_
    omega

/-- The operands that an operation has decide its length. -/
theorem operandsLen_congr {a b : Marking} {i op : Nat}
    (hdiff : op = 1 ∨ op = 3 →
      a.difference_of_pic_nums_minus1 i = b.difference_of_pic_nums_minus1 i)
    (hlong : op = 2 → a.long_term_pic_num i = b.long_term_pic_num i)
    (hidx : op = 3 ∨ op = 6 → a.long_term_frame_idx i = b.long_term_frame_idx i)
    (hmax : op = 4 →
      a.max_long_term_frame_idx_plus1 i = b.max_long_term_frame_idx_plus1 i) :
    operandsLen a i op = operandsLen b i op := by
  unfold operandsLen
  congr 1
  · congr 1
    · congr 1
      · exact if_ctx_congr Iff.rfl (fun hc => by rw [hdiff hc]) fun _ => rfl
      · exact if_ctx_congr Iff.rfl (fun hc => by rw [hlong hc]) fun _ => rfl
    · exact if_ctx_congr Iff.rfl (fun hc => by rw [hidx hc]) fun _ => rfl
  · exact if_ctx_congr Iff.rfl (fun hc => by rw [hmax hc]) fun _ => rfl

/-- The values of a legal list of operations, up to its terminator. -/
structure Marking.Upto (m : Marking) (k : Nat) : Prop where
  short : k < MAX_DEC_REF_PIC_MARKING
  zero : ∀ i ≥ k, m.memory_management_control_operation i = 0
  operation : ∀ i < k, m.memory_management_control_operation i ≠ 0 ∧
      m.memory_management_control_operation i ≤ 6 ∧ m.difference_of_pic_nums_minus1 i < 65535 ∧
      m.long_term_pic_num i < 65535 ∧ m.long_term_frame_idx i < 65535 ∧
      m.max_long_term_frame_idx_plus1 i < 65535

/-- **The loop over the operations** leaves the entries below alone; where it gives back the
    operations of `m` it has taken their bits and those of the terminator. -/
theorem ends_markingLoop (hm : m.Upto k) (fuel i : Nat)
    (hfuel : fuel + i = MAX_DEC_REF_PIC_MARKING) (a : Marking) (h : Past r s p) :
    (Dec.markingLoop fuel i a).Ends s fun g s' =>
      (∀ j < i, g.At a j) ∧
      g.adaptive_ref_pic_marking_mode_flag = a.adaptive_ref_pic_marking_mode_flag ∧
      ∀ count, i + count = k → g.Same m →
        Past r s' (p + commandsLen (markingCommand m) i count + lenUe 0) := by
  have hshort := hm.short
  induction fuel generalizing i a s p with
  | zero =>
    refine .pure ⟨fun _ _ => ⟨rfl, rfl, rfl, rfl, rfl⟩, rfl, fun count hcount => ?_⟩
    omega
  | succ fuel ih =>
    unfold Dec.markingLoop
    refine .bind ((ends_ue h).mono fun op s₁ h₁ => ?_)
    refine .bind ((ends_markingOperands h₁ i op _).mono fun b s₂ hb => ?_)
    obtain ⟨hops, hflag, hframe, h₂⟩ := hb
    dsimp only at hops hflag
    have hbi : b.memory_management_control_operation i = op := by
      rw [hops, update_self]
    have hbj : ∀ j < i, b.At a j := by
      intro j hj
      refine (hframe j (by omega)).trans ⟨?_, rfl, rfl, rfl, rfl⟩
      exact update_of_ne (by omega) _ _
    -- what comes back at `i` is what was read there
    have hentry : ∀ g : Marking, g.Same m → (∀ j < i + 1, g.At b j) → i ≤ k →
        op = m.memory_management_control_operation i ∧ operandsLen b i op = operandsLen m i op := by
      intro g hg hgb hik
      obtain ⟨h1, h2, h3, h4, h5⟩ := hg i fun j hj => (hm.operation j (by omega)).1
      obtain ⟨e1, e2, e3, e4, e5⟩ := hgb i (by omega)
      rw [e1, hbi] at h1
      rw [e2, ← h1] at h2
      rw [e3, ← h1] at h3
      rw [e4, ← h1] at h4
      rw [e5, ← h1] at h5
      exact ⟨h1, operandsLen_congr h2 h3 h4 h5⟩
    refine .ite (fun hgo => ?_) fun hstop => ?_
    · refine (ih (i + 1) (by omega) b h₂).mono fun g s' hg => ?_
      obtain ⟨hgb, hgflag, hpast⟩ := hg
      refine ⟨fun j hj => (hgb j (by omega)).trans (hbj j hj), hgflag.trans hflag,
        fun count hcount hsame => ?_⟩
      obtain ⟨hop, hlen⟩ := hentry g hsame hgb (by omega)
      obtain ⟨count, rfl⟩ : ∃ c, count = c + 1 := by
        refine ⟨count - 1, ?_⟩
        have : i ≠ k := by
          rintro rfl
          exact hgo.1 (hop.trans (hm.zero i (Nat.le_refl i)))
        omega
      obtain ⟨-, l1, l2, l3, l4, l5⟩ := hm.operation i (by omega)
      refine (hpast count (by omega) hsame).mono ?_
      rw [commandsLen, markingCommand_length (by omega) l2 l3 l4 l5, ← hop]
      omega
    · refine .pure ⟨hbj, hflag, fun count hcount hsame => ?_⟩
      obtain ⟨hop, -⟩ := hentry b hsame (fun _ _ => ⟨rfl, rfl, rfl, rfl, rfl⟩) (by omega)
      obtain rfl : count = 0 := by
        by_contra hne
        have := (hm.operation i (by omega)).1
        exact hstop ⟨by rwa [hop], by omega⟩
      have hop0 : op = 0 := hop.trans (hm.zero i (by omega))
      rw [hop0] at h₂
      refine h₂.mono ?_
      rw [commandsLen]
      omega

/-- The operations that the encoder writes: no terminator behind them. -/
theorem markingLoop_length_le {count : Nat} (hm : m.Upto (count + 1)) (fuel : Nat) :
    (callsBits (markingLoop m fuel 0)).length ≤
      commandsLen (markingCommand m) 0 (count + 1) := by
  refine loop_length_le (fun i => rfl) (fun fuel i hi => ?_) fuel 0 count (Nat.zero_add _)
  rw [markingLoop]
  by_cases hgo : m.memory_management_control_operation (i + 1) ≠ 0 ∧
      i + 1 < MAX_DEC_REF_PIC_MARKING
  · refine .inr ⟨?_, by rw [if_pos hgo]⟩
    by_contra hge
    exact hgo.1 (hm.zero (i + 1) (by omega))
  · refine .inl ?_
    rw [if_neg hgo, append_nil]

/-- The terminator is written where there is no operation. -/
theorem markingLoop_none (hm : m.Upto 0) (fuel : Nat) :
    markingLoop m (fuel + 1) 0 = ue_v 0 := by
  have h0 := hm.zero 0 (Nat.le_refl 0)
  rw [markingLoop, if_neg fun hc => hc.1 (hm.zero 1 (by omega)), markingCommand, h0]
  rfl

/-- There are operations, so their terminator is missing. -/
def EncVideo.Operates (v : EncVideo) : Prop :=
  v.nal_ref_idc ≠ 0 ∧ v.nal_unit_type ≠ AVC_NALTYPE_IDR ∧
    v.sliceHdr.marking.adaptive_ref_pic_marking_mode_flag ≠ 0 ∧
    v.sliceHdr.marking.memory_management_control_operation 0 ≠ 0

instance (v : EncVideo) : Decidable v.Operates := inferInstanceAs (Decidable (_ ∧ _))

theorem markingCalls_success (hm : m.Upto k) (nal_unit_type : Nat) :
    (Enc.dec_ref_pic_marking nal_unit_type m).2 = .AVCENC_SUCCESS := by
  have hshort := hm.short
  unfold Enc.dec_ref_pic_marking
  by_cases hi : nal_unit_type = AVC_NALTYPE_IDR
  · rw [if_pos hi]
  rw [if_neg hi]
  by_cases hf : m.adaptive_ref_pic_marking_mode_flag ≠ 0
  · rw [if_pos hf]
    exact if_neg fun hc => hc.2 (hm.zero _ (by omega))
  · rw [if_neg hf]

/-- The operations are read: where they come back, the terminator was read too. -/
theorem ends_marking (hl : LegalSlice d v) (video : DecVideo)
    (hnal : video.nal_unit_type = v.nal_unit_type) (h : Past r s p) :
    (Dec.dec_ref_pic_marking video).Ends s fun g s' => MarkingRecovered v g.sliceHdr.marking →
      Past r s' (p +
        (callsBits (Enc.dec_ref_pic_marking v.nal_unit_type v.sliceHdr.marking).1).length +
        if v.Operates then 1 else 0) := by
  unfold Dec.dec_ref_pic_marking
  obtain ⟨m, hm⟩ : ∃ m, v.sliceHdr.marking = m := ⟨_, rfl⟩
  have hlegal := hl.marking
  have hwith : v.Operates → v.nal_unit_type ≠ AVC_NALTYPE_IDR ∧
      m.adaptive_ref_pic_marking_mode_flag ≠ 0 ∧ m.memory_management_control_operation 0 ≠ 0 :=
    fun hop => hm ▸ hop.2
  unfold MarkingRecovered
  rw [hm] at hlegal ⊢
  have hbit : ∀ b, (callsBits (write1Bit b)).length = 1 := fun b => by
    rw [write1Bit, callsBits_bit, ofNum_length]
  unfold Enc.dec_ref_pic_marking
  by_cases hi : v.nal_unit_type = AVC_NALTYPE_IDR
  · simp only [hnal, if_pos hi]
    refine .bind ((ends_bit h).mono fun a s₁ h₁ => ?_)
    refine .bind ((ends_bit h₁).mono fun b s₂ h₂ => .pure fun _ => ?_)
    rw [if_neg fun hc => (hwith hc).1 hi, callsBits_append, length_append, hbit, hbit]
    exact h₂
  simp only [hnal, if_neg hi]
  refine .bind ((ends_bit h).mono fun f s₁ h₁ => .bind (.ite (fun hne => ?_) fun hzero => ?_))
  · by_cases hf : m.adaptive_ref_pic_marking_mode_flag = 0
    · -- operations are read where there are none
      have hnone : ({ m with memory_management_control_operation := fun _ => 0 } : Marking).Upto 0 :=
        ⟨by decide, fun _ _ => rfl, fun i hi => absurd hi (Nat.not_lt_zero i)⟩
      refine (ends_markingLoop hnone _ 0 rfl _ h₁).mono fun g s' hg => .pure fun hrec => ?_
      exact absurd ((hg.2.1.symm.trans (hrec.2 hi).1).trans hf) hne
    · obtain ⟨k, hk, hzero, hops⟩ := hlegal hf
      have hupto : m.Upto k := ⟨hk, hzero, hops⟩
      refine (ends_markingLoop hupto _ 0 rfl _ h₁).mono fun g s' hg => .pure fun hrec => ?_
      refine (hg.2.2 k (Nat.zero_add k) ((hrec.2 hi).2 hf)).mono ?_
      have h1 : lenUe 0 = 1 := by decide
      rw [if_pos hf]
      dsimp only
      rw [callsBits_append, length_append, hbit]
      cases k with
      | zero =>
        have hc : ¬ v.Operates := fun hc => (hwith hc).2.2 (hzero 0 (by omega))
        have hcalls : markingLoop m MAX_DEC_REF_PIC_MARKING 0 = ue_v 0 :=
          markingLoop_none hupto 63
        rw [if_neg hc, hcalls, callsBits_ue_length (by decide), commandsLen]
        omega
      | succ count =>
        have hle := markingLoop_length_le hupto MAX_DEC_REF_PIC_MARKING
        have hadd : (if v.Operates then 1 else 0) ≤ 1 := by split <;> omega
        omega
  · refine .pure (.pure fun hrec => ?_)
    have hf : m.adaptive_ref_pic_marking_mode_flag = 0 :=
      (hrec.2 hi).1.symm.trans (Decidable.of_not_not hzero)
    rw [if_neg (not_not_intro hf), if_neg fun hc => (hwith hc).2.1 hf]
    dsimp only
    rw [hbit]
    exact h₁

theorem ends_marked (video : DecVideo) :
    (Dec.dec_ref_pic_marking video).Ends s fun g _ => ∃ m x y, g = video.marked m x y := by
  unfold Dec.dec_ref_pic_marking
  refine .ite (fun _ => ?_) fun _ => ?_
  · exact .bind (.step (.bind (.step (.pure ⟨_, _, _, rfl⟩))))
  · exact .bind (.step (.bind fun m s' _ => .pure ⟨_, _, _, rfl⟩))

/-- The operations of a reference picture. -/
theorem ends_markingPart (hl : LegalSlice d v) (video : DecVideo)
    (hnal : video.nal_unit_type = v.nal_unit_type) (hidc : video.nal_ref_idc = v.nal_ref_idc) :
    (if video.nal_ref_idc ≠ 0 then Dec.dec_ref_pic_marking video else pure video).Ends s
      fun g s' => (∃ m x y, g = video.marked m x y) ∧
        ∀ p, Past r s p → (v.nal_ref_idc ≠ 0 → MarkingRecovered v g.sliceHdr.marking) →
          Past r s' (p + ((callsBits (if v.nal_ref_idc ≠ 0 then
            (Enc.dec_ref_pic_marking v.nal_unit_type v.sliceHdr.marking).1 else [])).length +
            if v.Operates then 1 else 0)) := by
  rw [hidc]
  by_cases hr : v.nal_ref_idc ≠ 0
  · rw [if_pos hr, if_pos hr]
    refine ((ends_marked video).and
      (.all fun p (h : Past r s p) => ends_marking hl video hnal h)).mono fun g s' hg =>
        ⟨hg.1, ?_⟩
    intro p h hrec
    have := hg.2 p h (hrec hr)
    rwa [Nat.add_assoc] at this
  · have hop : ¬ v.Operates := fun hop => hr hop.1
    rw [if_neg hr, if_neg hr, if_neg hop]
    exact .pure ⟨⟨_, _, _, rfl⟩, fun p h _ => h⟩

/-! ## 4. The end of the header -/

/-- The calls for the deblocking filter. -/
def deblockingCalls (v : EncVideo) : List WriteCall :=
  if v.currPicParams.deblocking_filter_control_present_flag ≠ 0 then
    ue_v v.sliceHdr.disable_deblocking_filter_idc ++
    if v.sliceHdr.disable_deblocking_filter_idc ≠ 1 then
      se_v v.sliceHdr.slice_alpha_c0_offset_div2 ++
      se_v v.sliceHdr.slice_beta_offset_div_2
    else []
  else []

theorem LegalSlice.filterPart (hl : LegalSlice d v) :
    Enc.filterPart v = se_v v.sliceHdr.slice_qp_delta ++ deblockingCalls v := by
  have hSP : ¬ (v.slice_type = AVC_SP_SLICE ∨ v.slice_type = AVC_SI_SLICE) := by
    rcases hl.slice_type with ht | ht <;> rw [ht] <;> decide
  unfold Enc.filterPart
  rw [if_neg hSP, append_nil]
  rfl

/-- The quantiser and the deblocking filter are read: it matters where the reader is behind the
    quantiser. -/
theorem ends_filter (hl : LegalSlice d v)
    (hqp : Dec.se_v.Ends s fun x s' => x = v.sliceHdr.slice_qp_delta → Past r s' p) :
    (Dec.filterPart v.currPicParams).Ends s fun x s' =>
      x.1 = v.sliceHdr.slice_qp_delta →
      (v.currPicParams.deblocking_filter_control_present_flag ≠ 0 →
        x.2.1 = v.sliceHdr.disable_deblocking_filter_idc) →
      (v.currPicParams.deblocking_filter_control_present_flag ≠ 0 →
        v.sliceHdr.disable_deblocking_filter_idc ≠ 1 →
          x.2.2.1 = v.sliceHdr.slice_alpha_c0_offset_div2 ∧
            x.2.2.2 = v.sliceHdr.slice_beta_offset_div_2) →
      Past r s' (p + (callsBits (deblockingCalls v)).length) := by
  have hidc := hl.disable_deblocking_filter_idc
  have hse : ∀ {x : Int}, -6 ≤ x ∧ x ≤ 6 → (callsBits (se_v x)).length = lenUe (codeOf x) :=
    fun hx => callsBits_ue_length (codeOf_small hx)
  have halpha := hse hl.slice_alpha_c0_offset_div2
  have hbeta := hse hl.slice_beta_offset_div_2
  have hue : (callsBits (ue_v v.sliceHdr.disable_deblocking_filter_idc)).length =
      lenUe v.sliceHdr.disable_deblocking_filter_idc := callsBits_ue_length (by omega)
  unfold Dec.filterPart deblockingCalls
  refine .bind (hqp.mono fun qp s₁ h₁ => ?_)
  by_cases hd : v.currPicParams.deblocking_filter_control_present_flag ≠ 0
  · simp only [if_pos hd, callsBits_append, length_append, hue]
    refine .bind (.bind ((ReadM.Ends.imp fun hq => ends_ue (h₁ hq)).mono fun idc s₂ h₂ =>
      ends_check fun _ => .bind (.ite (fun h1 => ?_) fun h1 => ?_)))
    · refine .bind ((ReadM.Ends.imp fun hq => ends_se (h₂ hq)).mono fun alpha s₃ h₃ =>
        ends_check fun _ => ?_)
      refine .bind ((ReadM.Ends.imp fun hq => ends_se (h₃ hq)).mono fun beta s₄ h₄ =>
        ends_check fun _ => ?_)
      refine .pure (.pure (.pure fun eqp eidc eoff => ?_))
      have h₄ := h₄ eqp
      dsimp only at eidc eoff
      rw [eidc hd] at h1 h₄
      obtain ⟨e1, e2⟩ := eoff hd h1
      rw [e1, e2] at h₄
      rw [if_pos h1, callsBits_append, length_append, halpha, hbeta]
      refine h₄.mono ?_
      omega
    · refine .pure (.pure (.pure fun eqp eidc _ => ?_))
      have h₂ := h₂ eqp
      dsimp only at eidc
      rw [eidc hd] at h1 h₂
      rw [if_neg h1]
      exact h₂
  · rw [if_neg hd, if_neg hd]
    exact .bind (.pure (.pure fun eqp _ _ => h₁ eqp))

theorem numBits_mono (fuel : Nat) {i j : Nat} (h : i ≤ j) : numBits fuel i ≤ numBits fuel j := by
  induction fuel generalizing i j with
  | zero => exact Nat.le_refl _
  | succ fuel ih =>
    rw [numBits, numBits]
    by_cases hi : i > 0
    · rw [if_pos hi, if_pos (by omega)]
      refine Nat.succ_le_succ (ih ?_)
      rw [Nat.shiftRight_one, Nat.shiftRight_one]
      omega
    · rw [if_neg hi]
      exact Nat.zero_le _

/-- The loop of the encoder stops at 1, the decoder's at 0. -/
theorem cycleBits_lt_numBits (fuel c : Nat) (hc : c > 0) :
    cycleBits fuel c < numBits (fuel + 1) c := by
  induction fuel generalizing c with
  | zero =>
    rw [cycleBits, numBits, if_pos hc]
    exact Nat.succ_pos _
  | succ fuel ih =>
    rw [cycleBits, numBits, if_pos hc]
    by_cases h1 : c > 1
    · rw [if_pos h1]
      refine Nat.succ_lt_succ (ih _ ?_)
      rw [Nat.shiftRight_one]
      omega
    · rw [if_neg h1]
      exact Nat.succ_pos _

/-- The reader has counted `p` bits, or has run beyond the data. -/
def Counted (r : List UInt8) (s : AVCDecBitstream) (p : Nat) : Prop :=
  (p : Int) ≤ s.bitcnt ∨ (8 * r.length : Nat) < s.bitcnt

theorem Past.counted (h : Past r s p) : Counted r s p := by
  rcases h with ⟨q, n, m, hq, h⟩ | h
  · have := h.count
    exact .inl (by omega)
  · exact .inr h

/-- The slice groups change. -/
def EncVideo.Evolves (v : EncVideo) : Prop :=
  v.currPicParams.num_slice_groups_minus1 > 0 ∧ v.currPicParams.slice_group_map_type ≥ 3 ∧
    v.currPicParams.slice_group_map_type ≤ 5

instance (v : EncVideo) : Decidable v.Evolves := inferInstanceAs (Decidable (_ ∧ _))

/-- **The last field** is wider in the decoder. -/
theorem ends_cycle {decvid : AVCDecObject} (ha : Active decvid d v)
    (hb : Baseline v.currSeqParams v.currPicParams) (cycle : Nat) (h : Past r s p) :
    (Dec.cyclePart v.currSeqParams v.currPicParams cycle).Ends s fun _ s' =>
      Counted r s' (p + (callsBits (Enc.cyclePart v)).length + if v.Evolves then 1 else 0) := by
  have hrate := hb.slice_group_change_rate_minus1
  unfold Dec.cyclePart Enc.cyclePart
  by_cases hc : v.currPicParams.num_slice_groups_minus1 > 0 ∧
      v.currPicParams.slice_group_map_type ≥ 3 ∧ v.currPicParams.slice_group_map_type ≤ 5
  · have he : v.Evolves := hc
    rw [if_pos hc, if_pos hc, if_pos he, ha.PicSizeInMapUnits, ha.SliceGroupChangeRate]
    dsimp only
    obtain ⟨c, hcycles⟩ : ∃ c, Enc.changeCycles
        ((v.currSeqParams.pic_width_in_mbs_minus1 + 1) *
          (v.currSeqParams.pic_height_in_map_units_minus1 + 1))
        (v.currPicParams.slice_group_change_rate_minus1 + 1) = c := ⟨_, rfl⟩
    have hc1 : c > 0 := by
      rw [← hcycles]
      exact Nat.add_pos_left (Nat.div_pos hrate (Nat.succ_pos _)) _
    have hlt : cycleBits 32 c < numBits 33 (c + 1) :=
      (cycleBits_lt_numBits 32 c hc1).trans_le (numBits_mono 33 (Nat.le_succ c))
    rw [hcycles, Enc.writeBits, callsBits_bits, ofNum_length]
    refine .step ?_
    have hcnt := bitcnt_read s (numBits 33 (c + 1))
    rcases h.counted with h | h
    · exact .inl (by push_cast; omega)
    · exact .inr (by omega)
  · have he : ¬ v.Evolves := hc
    rw [if_neg hc, if_neg hc, if_neg he]
    exact .pure h.counted

/-- What `secondHalf` leaves behind the encoder. -/
def EncVideo.missing (v : EncVideo) : Nat :=
  (if v.slice_type = AVC_P_SLICE ∧ v.sliceHdr.l0.ref_pic_list_reordering_flag ≠ 0 then 5 else 0) +
  (if v.Operates then 1 else 0) + if v.Evolves then 1 else 0

theorem ends_secondHalf_sets (video : DecVideo) (pps : AVCPicParamSet) (sps : AVCSeqParamSet) :
    (Dec.secondHalf video pps sps).Ends s fun g _ =>
      ∃ l0 m x y filter cycle, g = ((video.withL0 l0).marked m x y).withEnd filter cycle := by
  unfold Dec.secondHalf
  refine .bind fun l0 s₁ _ => .bind (.ite (fun _ => ?_) fun _ => .pure ?_)
  · refine (ends_marked _).mono fun w s₂ hw => ?_
    obtain ⟨m, x, y, rfl⟩ := hw
    exact .bind fun filter s₃ _ => .bind fun cycle s₄ _ => .pure ⟨l0, m, x, y, filter, cycle, rfl⟩
  · exact .bind fun filter s₃ _ => .bind fun cycle s₄ _ => .pure ⟨l0, _, _, _, filter, cycle, rfl⟩

/-- **The second half is read**: where it gives back the header, the reader is past what the encoder
    wrote. -/
theorem ends_secondHalf {decvid : AVCDecObject}
    (ha : Active decvid d v) (hl : LegalSlice d v) (hb : Baseline v.currSeqParams v.currPicParams)
    (video : DecVideo) (htype : video.slice_type = v.slice_type)
    (hnal : video.nal_unit_type = v.nal_unit_type) (hidc : video.nal_ref_idc = v.nal_ref_idc)
    (h : Past r s p) :
    (Dec.secondHalf video v.currPicParams v.currSeqParams).Ends s fun g s' => HeaderRecovered v g →
      Counted r s' (p + (callsBits (Enc.secondHalf v)).length + v.missing) := by
  unfold Dec.secondHalf
  rw [htype]
  refine .bind ((ends_reordering hl hb _ _ _ h).mono fun l0 s₁ h₁ => ?_)
  refine .bind ((ends_markingPart (r := r) hl (video.withL0 l0) hnal hidc).mono fun w s₂ hw => ?_)
  obtain ⟨⟨m, x, y, rfl⟩, h₂⟩ := hw
  refine .bind ((ReadM.Ends.all fun p (h : Past r s₂ p) => ends_filter hl
    ((ends_se h).mono fun x s' hp hx => hx ▸ hp)).mono fun filter s₃ h₃ => ?_)
  refine .bind ((ReadM.Ends.all fun p (h : Past r s₃ p) => ends_cycle ha hb _ h).mono
    fun cycle s₄ h₄ => ?_)
  refine .pure fun hrec => ?_
  have h₁ := h₁ hrec.reordering_flag hrec.reordering
  have h₂ := h₂ _ h₁ fun hr =>
    ⟨hrec.prior_pics hr, fun hi => ⟨hrec.marking_flag hr hi, hrec.marking hr hi⟩⟩
  have h₃ := h₃ _ h₂ hrec.slice_qp_delta hrec.disable_deblocking_filter_idc hrec.filter_offsets
  have h₄ := h₄ _ h₃
  have hqp : (callsBits (se_v v.sliceHdr.slice_qp_delta)).length =
      lenUe (codeOf v.sliceHdr.slice_qp_delta) :=
    callsBits_ue_length (codeOf_small hl.slice_qp_delta)
  unfold Enc.secondHalf EncVideo.missing
  rw [hl.filterPart]
  simp only [callsBits_append, length_append, hqp]
  convert h₄ using 1
  omega

end Positions

end OpenCore.Avc
