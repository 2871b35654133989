/-
  File:      OpenCore/Avc/SliceHeaderIdr.lean
  Subject:   THE HEADER COMES BACK EXACTLY WHEN IT IS PLAIN.

  An `idr_pic_id` of 65535 is written in 33 bits, of which the decoder takes 31: it goes on with two
  zeros in front of what it should see. These stay in front of fields of fixed width that are 0 and
  lengthen the first code word behind them, so that the decoder ends at least two bits too late.

  **Main result** `header_comes_back_iff`: a header comes back exactly when it is plain.
-/
import OpenCore.Avc.SliceHeaderEnd

namespace OpenCore.Avc

open MsbBits List
open Nat (log2 log2_lt)
open Enc (codeOf idrPart write1Bit)
open Enc (cyclePart dec_ref_pic_marking firstPart orderPart referencePart se_v secondHalf ue_v
  writeBits)

/-! ## 1. Two zeros too many -/

variable {l : List Bool} {c : Nat} {d : DecVideo} {v : EncVideo} {decvid : AVCDecObject}
  {configure : DecVideo → AVCSeqParamSet → Option Stop}

section Shifted

variable {r : List UInt8} {s : AVCDecBitstream}

theorem Sees.fits (h : Sees r s l) : l.length ≤ 8 * r.length := by
  obtain ⟨done, n, m, -, hd⟩ := h
  have := (drop_done hd).2
  omega

/-- What is read of a code leaves the rest. -/
theorem Sees.readCode (h : Sees r s l) {z : Nat} (hz : zerosInFront l = z)
    (hlen : 2 * z + 1 ≤ l.length) : Sees r s.readCode.1 (l.drop (2 * min z 15 + 1)) := by
  obtain ⟨done, n, m, h, hd⟩ := h
  obtain ⟨hdrop, hsum⟩ := drop_done hd
  obtain ⟨⟨n', m', h'⟩, -⟩ := h.readCode (z := z) (by rw [hdrop, hz]) (by omega)
  refine ⟨done ++ l.take (2 * min z 15 + 1), n', m', ?_, ?_⟩
  · rw [length_append, length_take, Nat.min_eq_left (by omega)]
    exact h'
  · rw [hd, append_assoc, take_append_drop]

/-- What is read of a field of fixed width leaves the rest. -/
theorem Sees.readBits {a : List Bool} (h : Sees r s (a ++ l)) (ha : a.length ≤ 32) :
    Sees r (s.BitstreamReadBits a.length).1 l ∧ (s.BitstreamReadBits a.length).2 = num a := by
  obtain ⟨done, n, m, h, hd⟩ := h
  obtain ⟨hdrop, hsum⟩ := drop_done hd
  rw [length_append] at hsum
  obtain ⟨⟨n', m', h'⟩, hv⟩ := h.readBits ha (by omega)
  refine ⟨⟨done ++ a, n', m', ?_, ?_⟩, ?_⟩
  · rw [length_append]
    exact h'
  · rw [hd, append_assoc]
  · rw [hv, hdrop, take_left' rfl]

/-- Two zeros in front of a field are in front of what follows it if it is 0. -/
theorem zeros_ofNum {k v : Nat} (hv : v < 2 ^ k) :
    false :: false :: ofNum k v = ofNum k (v / 4) ++ ofNum 2 (v % 4) := by
  refine num_inj (by simp) ?_
  rw [num_append, num_cons, num_cons, num_ofNum_of_lt hv, ofNum_length 2, num_ofNum_of_lt (by omega),
    num_ofNum_of_lt (by omega)]
  simp only [Bool.toNat_false]
  omega

/-- A field of fixed width behind two zeros comes back only if it is 0. -/
theorem ends_shiftedBits {k v : Nat} (hk : 2 ≤ k) (h31 : k ≤ 31) (hv : v < 2 ^ k)
    (h : Sees r s (false :: false :: (ofNum k v ++ l))) :
    (Dec.readBits k).Ends s fun x s' => x = v → Sees r s' (false :: false :: l) := by
  rw [← cons_append, ← cons_append, zeros_ofNum hv, append_assoc] at h
  refine ((gives_readBits (r := r) (by omega) h31 (by omega)).ends h).mono fun x s' hx hxv => ?_
  have h0 : v % 4 = 0 := by omega
  have hs := hx.2
  rw [h0] at hs
  exact hs

/-- Two bits behind two zeros come back only if they are 0. -/
theorem ends_shiftedTwo {a b : Nat} (ha : a < 2) (hb : b < 2)
    (h : Sees r s (false :: false :: (ofNum 1 a ++ (ofNum 1 b ++ l)))) :
    Dec.read1Bit.Ends s fun x s₁ => Dec.read1Bit.Ends s₁ fun y s' => x = a → y = b →
      Sees r s' (false :: false :: l) := by
  have hzero : ∀ l : List Bool, false :: l = ofNum 1 0 ++ l := fun _ => rfl
  rw [hzero] at h
  refine ((gives_read1Bit (r := r) (by decide)).ends h).mono fun x s₁ hx => ?_
  have h₁ := hx.2
  rw [hzero] at h₁
  refine ((gives_read1Bit (r := r) (by decide)).ends h₁).mono fun y s' hy hxa hyb => ?_
  have h₂ := hy.2
  obtain rfl : a = 0 := hxa.symm.trans hx.1
  obtain rfl : b = 0 := hyb.symm.trans hy.1
  exact h₂

/-- A code word behind two zeros has two zeros more in front. -/
theorem zerosInFront_shifted (c : Nat) (l : List Bool) :
    zerosInFront (false :: false :: (egBits c ++ l)) = log2 (c + 1) + 2 := by
  have h : ∀ m : List Bool, zerosInFront (false :: m) = zerosInFront m + 1 := fun m => rfl
  rw [h, h, (expGolomb_egBits c l).2]

/-- A short code word behind two zeros takes two bits of what follows. -/
theorem Sees.shiftedCode (hc : c < 16383) (hl : 2 ≤ l.length)
    (h : Sees r s (false :: false :: (egBits c ++ l))) :
    Past r s.readCode.1 (8 * r.length - l.length + 2) := by
  have hlog : log2 (c + 1) < 14 := (log2_lt (Nat.succ_ne_zero c)).mpr (by omega)
  have hlen : (egBits c).length = 2 * log2 (c + 1) + 1 := by
    rw [egBits_length (by omega), lenUe, if_pos (by omega)]
  have hall : (false :: false :: (egBits c ++ l)).length = 2 * log2 (c + 1) + 3 + l.length := by
    rw [length_cons, length_cons, length_append, hlen]
    omega
  have hmin : min (log2 (c + 1) + 2) 15 = log2 (c + 1) + 2 := by omega
  have hfits := h.fits
  have hs := (h.readCode (zerosInFront_shifted c l) (by rw [hall]; omega)).past
  rw [hmin, length_drop, hall] at hs
  rw [hall] at hfits
  exact hs.mono (by omega)

/-- A wide code word behind two zeros takes two bits of what follows. -/
theorem ends_shiftedCode32 (hc : c + 1 < 2 ^ 31) {a b : Bool}
    (h : Sees r s (false :: false :: (egBits c ++ a :: b :: l))) :
    Dec.se_v32bit.Ends s fun _ s' => Sees r s' l := by
  obtain ⟨h1, h2⟩ := log2_bounds c
  have he := egBits_eq c
  obtain ⟨z, hz⟩ : ∃ z, log2 (c + 1) = z := ⟨_, rfl⟩
  rw [hz] at h1 h2 he
  have h30 : z ≤ 30 := by
    by_contra hgt
    have : 2 ^ 31 ≤ 2 ^ z := Nat.pow_le_pow_right (by decide) (by omega)
    omega
  have hlen := h.length_le
  have hsplit : false :: false :: (egBits c ++ a :: b :: l) =
      (replicate (z + 2) false ++ [true]) ++
        (ofNum z (c + 1 - 2 ^ z) ++ [a, b] ++ l) := by
    rw [he]
    simp [replicate_succ]
  rw [hsplit] at h hlen
  have hzeros : Gives (Sees r) (Dec.egZeros (8 * s.data_end_pos + 1) 0)
      (replicate (z + 2) false ++ [true]) (z + 2) := by
    have := gives_egZeros (r := r) (z + 2) 0 (8 * s.data_end_pos + 1) (by
      rw [length_append, length_append, length_replicate] at hlen
      omega)
    rwa [Nat.zero_add] at this
  refine .bind (.bind (.step ?_))
  refine .bind ((hzeros.ends h).mono fun k s₁ hk => ?_)
  obtain ⟨rfl, h₁⟩ := hk
  refine .ite (fun _ => ?_) fun hno => absurd (Nat.succ_pos _) hno
  refine .bind (.step (.pure (.pure ?_)))
  have hinfo : (ofNum z (c + 1 - 2 ^ z) ++ [a, b]).length = z + 2 := by
    rw [length_append, ofNum_length]
    rfl
  have := (h₁.readBits (by rw [hinfo]; omega)).1
  rw [hinfo] at this
  exact this

theorem signedOf_short {z info : Nat} (h31 : z ≤ 31) (hi : info < 2 ^ z) :
    (egBits (codeOf (Dec.signedOf (z, info)))).length ≤ 2 * z + 1 := by
  have hpow : 2 ^ z ≤ 2 ^ 31 := Nat.pow_le_pow_right (by decide) h31
  have hpos : 0 < 2 ^ z := Nat.two_pow_pos z
  obtain ⟨c, hc⟩ : ∃ c, 2 ^ z - 1 + info = c := ⟨_, rfl⟩
  have hval : Dec.signedOf (z, info) = signed c := by
    unfold Dec.signedOf signed
    have hmod : (2 ^ z - 1 + info) % 2 ^ 32 = c := by omega
    simp only [hmod]
    split <;> split <;> omega
  have hlog : log2 (c + 1) < z + 1 := by
    refine (log2_lt (Nat.succ_ne_zero c)).mpr ?_
    rw [pow_succ]
    omega
  rw [hval, codeOf_signed, egBits, length_append, length_replicate, ofNum_length]
  omega

/-- A wide code that begins with few zeros is not read from fewer bits than its value has. -/
theorem Sees.ends_se32 (h : Sees r s l) (hz : zerosInFront l < l.length)
    (h31 : zerosInFront l ≤ 31) :
    Dec.se_v32bit.Ends s fun x s' =>
      Past r s' (8 * r.length - l.length + (egBits (codeOf x)).length) := by
  obtain ⟨rest, hl⟩ := zerosInFront_split hz
  obtain ⟨z, hzero⟩ : ∃ z, zerosInFront l = z := ⟨_, rfl⟩
  rw [hzero] at hl h31
  have hfits := h.fits
  have hle := h.length_le
  have hsplit : l = (replicate z false ++ [true]) ++ rest := by
    rw [hl, append_assoc]
    rfl
  have hlen : l.length = z + 1 + rest.length := by
    rw [hsplit, length_append, length_append, length_replicate]
    rfl
  have hzeros : Gives (Sees r) (Dec.egZeros (8 * s.data_end_pos + 1) 0)
      (replicate z false ++ [true]) z := by
    have := gives_egZeros (r := r) z 0 (8 * s.data_end_pos + 1) (by omega)
    rwa [Nat.zero_add] at this
  rw [hsplit] at h
  refine .bind (.bind (.step (.bind ((hzeros.ends h).mono fun k s₁ hk => ?_))))
  obtain ⟨rfl, h₁⟩ := hk
  refine .ite (fun hpos => .bind (.step (.pure (.pure ?_)))) fun h0 => .pure (.pure ?_)
  · by_cases hin : k ≤ rest.length
    · have htake : (rest.take k).length = k := by
        rw [length_take, Nat.min_eq_left hin]
      have hread := h₁
      rw [← take_append_drop k rest] at hread
      obtain ⟨hs, hv⟩ := hread.readBits (by omega)
      rw [htake] at hs hv
      have hlt := num_lt (rest.take k)
      rw [htake] at hlt
      have hshort := signedOf_short h31 hlt
      have hpast := hs.past
      rw [length_drop] at hpast
      show Past r _ (_ + (egBits (codeOf (Dec.signedOf (k, (s₁.BitstreamReadBits k).2)))).length)
      rw [hv]
      exact hpast.mono (by omega)
    · have hcnt := h₁.bitcnt
      have hread := bitcnt_read s₁ k
      exact .inr (by omega)
  · obtain rfl : k = 0 := by omega
    have hshort := signedOf_short h31 (Nat.two_pow_pos 0)
    exact h₁.past.mono (by omega)

theorem zerosInFront_le {i : Nat} (h : l[i]? = some true) :
    zerosInFront l ≤ i ∧ zerosInFront l < l.length := by
  obtain ⟨hi, hv⟩ := List.getElem?_eq_some_iff.mp h
  have hle : zerosInFront l ≤ i := by
    by_contra hgt
    have hmem : true ∈ l.takeWhile (! ·) := by
      have hpre := takeWhile_prefix (! ·) (l := l)
      rw [← hv, ← hpre.getElem (Nat.lt_of_not_le hgt)]
      exact getElem_mem _
    have := mem_takeWhile_imp hmem
    simp at this
  exact ⟨hle, hle.trans_lt hi⟩

theorem egBits_one (c : Nat) (l : List Bool) :
    (egBits c ++ l)[log2 (c + 1)]? = some true := by
  rw [egBits_eq, append_assoc,
    getElem?_append_right (by rw [length_replicate]), length_replicate,
    Nat.sub_self]
  rfl

/-- Behind two bits, a code word or what follows has a 1 soon. -/
theorem soon_drop {n : Nat} (hc : c + 1 < 2 ^ 31) (h1 : 1 ≤ n) (h30 : n ≤ 30)
    (hn : l[n]? = some true) :
    zerosInFront ((egBits c ++ l).drop 2) < ((egBits c ++ l).drop 2).length ∧
      zerosInFront ((egBits c ++ l).drop 2) ≤ 31 := by
  obtain ⟨h, -⟩ := log2_bounds c
  have he := egBits_eq c
  obtain ⟨z, hz⟩ : ∃ z, log2 (c + 1) = z := ⟨_, rfl⟩
  rw [hz] at h he
  have hz30 : z ≤ 30 := by
    by_contra hgt
    have : 2 ^ 31 ≤ 2 ^ z := Nat.pow_le_pow_right (by decide) (by omega)
    omega
  have hlen : (egBits c).length = 2 * z + 1 := by
    rw [he, length_append, length_cons, length_replicate, ofNum_length]
    omega
  obtain ⟨i, hi, hsome⟩ : ∃ i ≤ 31, ((egBits c ++ l).drop 2)[i]? = some true := by
    by_cases h2 : 2 ≤ z
    · refine ⟨z - 2, by omega, ?_⟩
      have hsum : 2 + (z - 2) = z := by omega
      rw [getElem?_drop, hsum, ← hz]
      exact egBits_one c l
    · refine ⟨2 * z + 1 + n - 2, by omega, ?_⟩
      have hsum : 2 + (2 * z + 1 + n - 2) = 2 * z + 1 + n := by omega
      rw [getElem?_drop, hsum, getElem?_append_right (by omega), hlen,
        Nat.add_sub_cancel_left]
      exact hn
  obtain ⟨hle, hlt⟩ := zerosInFront_le hsome
  exact ⟨hlt, hle.trans hi⟩

theorem exists_cons_cons (h : 2 ≤ l.length) : ∃ a b m, l = a :: b :: m := by
  rcases l with _ | ⟨a, _ | ⟨b, m⟩⟩
  · exact absurd h (by decide)
  · exact absurd h (by decide +revert)
  · exact ⟨a, b, m, rfl⟩

/-- The order of pictures behind two zeros. -/
theorem ends_shiftedOrder (hl : LegalSlice d v)
    (hb : Baseline v.currSeqParams v.currPicParams) (lsb : Nat) {n : Nat}
    (h1 : 1 ≤ n) (h30 : n ≤ 30) (hn : l[n]? = some true)
    (h : Sees r s (false :: false :: (callsBits (orderPart v) ++ l))) :
    (Dec.orderPart v.currSeqParams v.currPicParams lsb).Ends s fun x s' =>
      (v.currSeqParams.pic_order_cnt_type = 0 → x.1 = v.sliceHdr.pic_order_cnt_lsb) →
      (v.currSeqParams.pic_order_cnt_type = 1 →
        v.currSeqParams.delta_pic_order_always_zero_flag = 0 →
          v.currPicParams.pic_order_present_flag ≠ 0 →
            x.2.2.2 = v.sliceHdr.delta_pic_order_cnt.2) →
      Sees r s' (false :: false :: l) ∨ Past r s' (8 * r.length - l.length + 2) := by
  have hlog := hb.log2_max_pic_order_cnt_lsb_minus4
  have hlsb := hl.pic_order_cnt_lsb
  have hbit : ∀ {o : Int}, o.natAbs < 2 ^ 30 → callsBits (se_v o) = egBits (codeOf o) :=
    fun ho => (callsBits_ue (codeOf_offset ho)).1
  have hbottom := hbit hl.delta_pic_order_cnt_bottom
  have hd0 := hbit hl.delta_pic_order_cnt_0
  have hd1 := hbit hl.delta_pic_order_cnt_1
  obtain ⟨a, b, m, rfl⟩ : ∃ a b m, l = a :: b :: m := by
    obtain ⟨hlt, -⟩ := List.getElem?_eq_some_iff.mp hn
    exact exists_cons_cons (by omega)
  have htwo : ∀ {s' : AVCDecBitstream}, Sees r s' m →
      Past r s' (8 * r.length - (a :: b :: m).length + 2) := fun {s'} hs => by
    have hfits := h.fits
    rw [length_cons, length_cons, length_append] at hfits
    refine hs.past.mono ?_
    rw [length_cons, length_cons] at hfits ⊢
    omega
  unfold orderPart at h
  unfold Dec.orderPart
  simp only [hl.field_pic_flag, and_true] at h
  by_cases h0 : v.currSeqParams.pic_order_cnt_type = 0
  · have hno : ¬ (v.currSeqParams.pic_order_cnt_type = 1 ∧
        v.currSeqParams.delta_pic_order_always_zero_flag = 0) := by
      omega
    rw [if_pos h0, if_neg hno, append_nil, callsBits_append, writeBits, callsBits_bits,
      append_assoc] at h
    rw [if_pos h0, if_neg hno]
    refine .bind (.bind ((ends_shiftedBits (by omega) (by omega) hlsb h).mono fun x s₁ h₁ => ?_))
    refine ends_check fun _ => .bind (.ite (fun hp => ?_) fun hp => ?_)
    · rw [if_pos hp, hbottom] at h₁
      refine ((ReadM.Ends.imp fun hx : x = v.sliceHdr.pic_order_cnt_lsb =>
        ends_shiftedCode32 (codeOf_offset hl.delta_pic_order_cnt_bottom) (h₁ hx)).mono
          fun o s₂ h₂ => .pure (.bind (.pure (.pure fun hx _ => ?_))))
      exact .inr (htwo (h₂ (hx h0)))
    · refine .pure (.pure (.bind (.pure (.pure fun hx _ => ?_))))
      rw [if_neg hp] at h₁
      exact .inl (h₁ (hx h0))
  · rw [if_neg h0, nil_append] at h
    rw [if_neg h0]
    refine .bind (.pure (.bind (.ite (fun hd => ?_) fun hd => ?_)))
    · rw [if_pos hd, callsBits_append, hd0, append_assoc] at h
      by_cases hp : v.currPicParams.pic_order_present_flag ≠ 0
      · rw [if_pos hp, hd1] at h
        rw [if_pos hp]
        obtain ⟨hz, h31⟩ := soon_drop (codeOf_offset hl.delta_pic_order_cnt_1) h1 h30 hn
        obtain ⟨e, he⟩ : ∃ e, egBits (codeOf v.sliceHdr.delta_pic_order_cnt.2) = e := ⟨_, rfl⟩
        obtain ⟨x, y, k, hk⟩ : ∃ x y k, e ++ a :: b :: m = x :: y :: k :=
          exists_cons_cons (by simp only [length_append, length_cons]; omega)
        have hlen := congrArg length hk
        simp only [length_append, length_cons] at hlen
        have hfits := h.fits
        rw [he, hk] at hz h31
        rw [he, hk] at h hfits
        simp only [length_append, length_cons] at hfits
        refine .bind ((ends_shiftedCode32 (codeOf_offset hl.delta_pic_order_cnt_0) h).mono
          fun o s₁ h₁ => .bind ((h₁.ends_se32 hz h31).mono
            fun o' s₂ h₂ => .pure (.pure fun _ hx => ?_)))
        have ho : o' = v.sliceHdr.delta_pic_order_cnt.2 := hx (by omega) hd.2 hp
        rw [ho, he] at h₂
        refine .inr (h₂.mono ?_)
        rw [length_cons, length_cons]
        omega
      · rw [if_neg hp] at h
        rw [if_neg hp]
        refine .bind ((ends_shiftedCode32 (codeOf_offset hl.delta_pic_order_cnt_0) h).mono
          fun x s₁ h₁ => .bind (.pure (.pure (.pure fun _ _ => .inr (htwo h₁)))))
    · rw [if_neg hd, callsBits_nil, nil_append] at h
      exact .pure (.pure fun _ _ => .inl h)

/-- In front of `l`, the decoder sees two zeros too many or is two bits too far. -/
def Behind (r : List UInt8) (s : AVCDecBitstream) (l : List Bool) : Prop :=
  l.length ≤ 8 * r.length ∧
    (Sees r s (false :: false :: l) ∨ Past r s (8 * r.length - l.length + 2))

theorem Behind.code (hc : c < 16383) (hl : 2 ≤ l.length)
    (h : Behind r s (egBits c ++ l))
    (hpast : ∀ p, Past r s p → Past r s.readCode.1 (p + lenUe c)) :
    Past r s.readCode.1 (8 * r.length - l.length + 2) := by
  obtain ⟨hfits, h | h⟩ := h
  · exact h.shiftedCode hc hl
  · rw [length_append, egBits_length (by omega)] at hfits h
    exact (hpast _ h).mono (by omega)

/-- An unsigned code that comes back takes two bits of what follows. -/
theorem Behind.ends_ue (hc : c < 16383) (hl : 2 ≤ l.length)
    (h : Behind r s (egBits c ++ l)) :
    Dec.ue_v.Ends s fun x s' => x = c → Past r s' (8 * r.length - l.length + 2) :=
  .step fun hx => h.code hc hl fun _ hp => hx ▸ hp.ue

/-- A signed code that comes back takes two bits of what follows. -/
theorem Behind.ends_se {v : Int} (hv : codeOf v < 16383) (hl : 2 ≤ l.length)
    (h : Behind r s (egBits (codeOf v) ++ l)) :
    Dec.se_v.Ends s fun x s' => x = v → Past r s' (8 * r.length - l.length + 2) :=
  .step fun hx => h.code hv hl fun _ hp => hx ▸ hp.se

theorem referencePart_I (ht : v.slice_type = AVC_I_SLICE) :
    referencePart v = if v.currPicParams.redundant_pic_cnt_present_flag ≠ 0 then
      ue_v v.sliceHdr.redundant_pic_cnt else [] := by
  have hB : ¬ v.slice_type = AVC_B_SLICE := by rw [ht]; decide
  have hP : ¬ v.slice_type = AVC_P_SLICE := by rw [ht]; decide
  have hSP : ¬ v.slice_type = AVC_SP_SLICE := by rw [ht]; decide
  unfold referencePart
  simp only [hB, hP, hSP, or_self, if_false, append_nil]

/-- The references of an I slice behind two zeros. -/
theorem Behind.ends_reference (ht : v.slice_type = AVC_I_SLICE) (override : Nat)
    (hlen : 2 ≤ l.length) (hred : v.sliceHdr.redundant_pic_cnt ≤ 127)
    (h : Behind r s (callsBits (referencePart v) ++ l)) :
    (Dec.referencePart v.currPicParams v.slice_type override).Ends s fun x s' =>
      (v.currPicParams.redundant_pic_cnt_present_flag ≠ 0 →
        x.1 = v.sliceHdr.redundant_pic_cnt) → Behind r s' l := by
  have hP : ¬ v.slice_type = AVC_P_SLICE := by rw [ht]; decide
  have hfits : l.length ≤ 8 * r.length := by
    have := h.1
    rw [length_append] at this
    omega
  rw [referencePart_I ht] at h
  unfold Dec.referencePart
  rw [if_neg hP]
  refine .bind (.ite (fun hp => ?_) fun hp => ?_)
  · rw [if_pos hp, (callsBits_ue (by omega)).1] at h
    refine .bind ((h.ends_ue (by omega) hlen).mono fun x s₁ h₁ => ?_)
    refine ends_check fun _ => ends_check fun _ => .pure (.bind (.pure (ends_check fun _ => ?_)))
    exact .pure fun hx => ⟨hfits, .inr (h₁ (hx hp))⟩
  · rw [if_neg hp] at h
    exact .pure (.bind (.pure (ends_check fun _ => .pure fun _ => h)))

theorem Counted.mono {p q : Nat} (h : Counted r s p) (hq : q ≤ p) : Counted r s q :=
  h.imp_left fun h => by omega

/-- The two flags of an IDR picture behind two zeros. -/
theorem ends_shiftedMarking (hl : LegalSlice d v)
    (hi : v.nal_unit_type = AVC_NALTYPE_IDR) (video : DecVideo)
    (hnal : video.nal_unit_type = v.nal_unit_type)
    (h : Sees r s (false :: false ::
      (callsBits (dec_ref_pic_marking v.nal_unit_type v.sliceHdr.marking).1 ++ l))) :
    (Dec.dec_ref_pic_marking video).Ends s fun g s' =>
      MarkingRecovered v g.sliceHdr.marking → Sees r s' (false :: false :: l) := by
  have hcalls : (dec_ref_pic_marking v.nal_unit_type v.sliceHdr.marking).1 =
      write1Bit v.sliceHdr.marking.no_output_of_prior_pics_flag ++
        write1Bit v.sliceHdr.marking.long_term_reference_flag := by
    rw [dec_ref_pic_marking, if_pos hi]
  rw [hcalls, callsBits_append, write1Bit, write1Bit, callsBits_bit, callsBits_bit,
    append_assoc] at h
  unfold Dec.dec_ref_pic_marking
  rw [hnal, if_pos hi]
  refine .bind ((ends_shiftedTwo hl.no_output_of_prior_pics_flag hl.long_term_reference_flag h).mono
    fun a s₁ h₁ => .bind (h₁.mono fun b s₂ h₂ => .pure fun hrec => ?_))
  obtain ⟨ha, hb⟩ := hrec.1 hi
  exact h₂ ha hb

/-- The bits of the second half of an IDR picture's header. -/
theorem LegalSlice.secondHalf_idr (hl : LegalSlice d v)
    (hi : v.nal_unit_type = AVC_NALTYPE_IDR) :
    callsBits (secondHalf v) =
      callsBits (dec_ref_pic_marking v.nal_unit_type v.sliceHdr.marking).1 ++
        (egBits (codeOf v.sliceHdr.slice_qp_delta) ++
          (callsBits (deblockingCalls v) ++ callsBits (cyclePart v))) := by
  obtain ⟨ht, hr⟩ := hl.idr hi
  have hnone : Enc.ref_pic_list_reordering v.sliceHdr v.slice_type = [] := by
    rw [ht]
    rfl
  have hse : callsBits (se_v v.sliceHdr.slice_qp_delta) =
      egBits (codeOf v.sliceHdr.slice_qp_delta) := by
    have := codeOf_small hl.slice_qp_delta
    exact (callsBits_ue (by omega)).1
  rw [secondHalf, hnone, if_pos hr, hl.filterPart, nil_append]
  simp only [callsBits_append, hse, append_assoc]

/-- **The second half** of an IDR picture's header takes two bits too many. -/
theorem Behind.ends_secondHalf
    (ha : Active decvid d v) (hl : LegalSlice d v) (hb : Baseline v.currSeqParams v.currPicParams)
    (hi : v.nal_unit_type = AVC_NALTYPE_IDR) (video : DecVideo)
    (htype : video.slice_type = v.slice_type) (hnal : video.nal_unit_type = v.nal_unit_type)
    (hidc : video.nal_ref_idc = v.nal_ref_idc) (hlen : 2 ≤ l.length)
    (h : Behind r s (callsBits (secondHalf v) ++ l)) :
    (Dec.secondHalf video v.currPicParams v.currSeqParams).Ends s fun g s' =>
      HeaderRecovered v g → Counted r s' (8 * r.length - l.length + 2) := by
  obtain ⟨hfits, h | h⟩ := h
  swap
  · refine (OpenCore.Avc.ends_secondHalf ha hl hb video htype hnal hidc h).mono
      fun g s' hg hrec => (hg hrec).mono ?_
    rw [length_append] at hfits ⊢
    omega
  obtain ⟨ht, hr⟩ := hl.idr hi
  rw [hl.secondHalf_idr hi] at h hfits
  simp only [append_assoc] at h hfits
  have hqp : codeOf v.sliceHdr.slice_qp_delta < 16383 := by
    have := hl.slice_qp_delta
    unfold codeOf
    split <;> omega
  unfold Dec.secondHalf
  have hnone : Dec.ref_pic_list_reordering v.currSeqParams.MaxFrameNum
      video.sliceHdr.num_ref_idx_l0_active_minus1 video.slice_type video.sliceHdr.l0 =
        pure video.sliceHdr.l0 := by
    rw [htype, ht]
    rfl
  have hr' : (video.withL0 video.sliceHdr.l0).nal_ref_idc ≠ 0 := by
    show video.nal_ref_idc ≠ 0
    rwa [hidc]
  rw [hnone]
  refine .bind (.pure (.bind ?_))
  rw [if_pos hr']
  refine ((ends_marked _).and (ends_shiftedMarking hl hi _ hnal h)).mono fun w s₁ hw => ?_
  obtain ⟨⟨m, x, y, rfl⟩, h₁⟩ := hw
  simp only [length_append] at hfits
  have hrest : (callsBits (deblockingCalls v) ++ (callsBits (cyclePart v) ++ l)).length =
      (callsBits (deblockingCalls v)).length + ((callsBits (cyclePart v)).length + l.length) := by
    rw [length_append, length_append]
  refine .bind ((ReadM.Ends.imp fun hrec => ends_filter hl (Behind.ends_se hqp (by omega)
    ⟨by rw [length_append]; omega, .inl (h₁ hrec)⟩)).mono fun filter s₂ h₂ => ?_)
  refine .bind ((ReadM.Ends.all fun p (h : Past r s₂ p) => ends_cycle ha hb _ h).mono
    fun cycle s₃ h₃ => .pure fun hrec => ?_)
  have hmark : MarkingRecovered v m :=
    ⟨hrec.prior_pics hr, fun hne => ⟨hrec.marking_flag hr hne, hrec.marking hr hne⟩⟩
  have h₂ := h₂ hmark hrec.slice_qp_delta hrec.disable_deblocking_filter_idc hrec.filter_offsets
  rw [hrest] at h₂
  exact (h₃ _ h₂).mono (by omega)

/-- The identification 65535 leaves two zeros. -/
theorem Sees.idr (h : Sees r s (egBits 65535 ++ l)) :
    Sees r s.readCode.1 (false :: false :: l) := by
  have hz : zerosInFront (egBits 65535 ++ l) = 16 := (expGolomb_egBits 65535 l).2
  have h33 : (egBits 65535).length = 33 := by decide
  have hdrop : (egBits 65535).drop 31 = [false, false] := by decide
  have hs := h.readCode hz (by rw [length_append, h33]; omega)
  have hmin : 2 * min 16 15 + 1 = 31 := rfl
  rw [hmin, drop_append, hdrop, h33] at hs
  exact hs

/-- **The first half** of the header of an IDR picture 65535. -/
theorem ends_firstHalf_idr
    (ha : Active decvid d v)
    (hl : LegalSlice d v) (hb : Baseline v.currSeqParams v.currPicParams)
    (hi : v.nal_unit_type = AVC_NALTYPE_IDR) (hid : v.sliceHdr.idr_pic_id = 65535)
    (hlen : 2 ≤ l.length) {n : Nat} (h1 : 1 ≤ n) (h30 : n ≤ 30)
    (hn : (callsBits (referencePart v) ++ l)[n]? = some true)
    (h : Sees r s (callsBits (firstPart v ++ idrPart v ++ orderPart v ++
      referencePart v) ++ l)) :
    (Dec.firstHalf configure decvid d).Ends s fun x s' =>
      x.2 = (v.currPicParams, v.currSeqParams) ∧ x.1.slice_type = v.slice_type ∧
      x.1.nal_unit_type = v.nal_unit_type ∧ x.1.nal_ref_idc = v.nal_ref_idc ∧
      ((v.currSeqParams.pic_order_cnt_type = 0 →
          x.1.sliceHdr.pic_order_cnt_lsb = v.sliceHdr.pic_order_cnt_lsb) →
        (v.currSeqParams.pic_order_cnt_type = 1 →
          v.currSeqParams.delta_pic_order_always_zero_flag = 0 →
            v.currPicParams.pic_order_present_flag ≠ 0 →
              x.1.sliceHdr.delta_pic_order_cnt.2 = v.sliceHdr.delta_pic_order_cnt.2) →
        (v.currPicParams.redundant_pic_cnt_present_flag ≠ 0 →
          x.1.sliceHdr.redundant_pic_cnt = v.sliceHdr.redundant_pic_cnt) →
        Behind r s' l) := by
  obtain ⟨-, htype, -⟩ := hl.types
  obtain ⟨ht, -⟩ := hl.idr hi
  have hlog := hb.log2_max_frame_num_minus4
  have hmbs := hb.frame_mbs_only_flag
  have hw : (if v.mbNum = 0 then v.sliceHdr.slice_type else v.slice_type) = v.writtenType := rfl
  have h65 : callsBits (ue_v 65535) = egBits 65535 := (callsBits_ue (by decide)).1
  have hcalls : callsBits (firstPart v ++ idrPart v ++ orderPart v ++
      referencePart v) ++ l =
    callsBits (ue_v v.sliceHdr.first_mb_in_slice ++
        (ue_v v.writtenType ++ ue_v v.sliceHdr.pic_parameter_set_id)) ++
      (ofNum (v.currSeqParams.log2_max_frame_num_minus4 + 4) v.sliceHdr.frame_num ++
        (egBits 65535 ++ (callsBits (orderPart v) ++
          (callsBits (referencePart v) ++ l)))) := by
    rw [firstPart, idrPart, if_pos hi, hid, hw, writeBits]
    simp only [callsBits_append, callsBits_bits, append_assoc, h65]
  have hfits := h.fits
  rw [hcalls] at h hfits
  simp only [length_append] at hfits
  unfold Dec.firstHalf
  refine .bind ((((carries_first ha hl).gives r).ends h).mono fun x s₁ hx => ?_)
  obtain ⟨rfl, h₁⟩ := hx
  dsimp only
  refine .bind (((gives_readBits (r := r) (by omega) (by omega) hl.frame_num).ends h₁).mono
    fun x s₂ hx => ?_)
  obtain ⟨rfl, h₂⟩ := hx
  refine .bind (.ite (fun h0 => absurd h0 (by omega)) fun _ => .pure ?_)
  refine ends_check fun _ => ends_check fun _ => ?_
  rw [if_pos (ha.nal_unit_type.trans hi)]
  refine .bind (.step (.bind ((ends_shiftedOrder hl hb _ h1 h30 hn h₂.idr).mono
    fun order s₃ h₃ => ?_)))
  rw [htype]
  refine .bind (.mono (.imp fun h : Behind r s₃ _ => h.ends_reference ht _ hlen hl.redundant_pic_cnt)
    fun reference s₄ h₄ => .pure ⟨rfl, rfl, ha.nal_unit_type, ha.nal_ref_idc, ?_⟩)
  intro hlsb hd1 hred
  refine h₄ ⟨?_, h₃ hlsb hd1⟩ hred
  rw [length_append]
  omega

/-! ## 2. The checks of the decoder -/

theorem ends_reference_checks (pps : AVCPicParamSet) (slice_type override : Nat) :
    (Dec.referencePart pps slice_type override).Ends s fun x _ =>
      x.1 = 0 ∧ (slice_type ≠ AVC_P_SLICE → pps.num_ref_idx_l0_active_minus1 ≤ 15) := by
  unfold Dec.referencePart
  have hred : (if pps.redundant_pic_cnt_present_flag ≠ 0 then do
        let redundant_pic_cnt ← Dec.ue_v
        Dec.failIf (redundant_pic_cnt > 127) .AVCDEC_FAIL
        Dec.failIf (redundant_pic_cnt > 0) .AVCDEC_NOT_SUPPORTED
        return redundant_pic_cnt
      else return 0 : DecM Nat).Ends s fun x _ => x = 0 :=
    .ite (fun _ => .bind (.step (ends_check fun _ => ends_check fun h => .pure (by omega))))
      fun _ => .pure rfl
  refine .bind (hred.mono fun redundant s₁ h₀ => ?_)
  by_cases hP : slice_type = AVC_P_SLICE
  · exact .bind fun x s₂ _ => ends_check fun _ => .pure ⟨h₀, fun hne => absurd hP hne⟩
  · rw [if_neg hP]
    exact .bind (.pure (ends_check fun h15 => .pure ⟨h₀, fun _ => Nat.le_of_not_lt h15⟩))

/-- What the decoder has checked behind the first half. -/
theorem ends_firstHalf_checks
    (ha : Active decvid d v)
    (hl : LegalSlice d v) (h : Sees r s (callsBits (firstPart v) ++ l)) :
    (Dec.firstHalf configure decvid d).Ends s fun x _ =>
      x.2 = (v.currPicParams, v.currSeqParams) ∧ x.1.sliceHdr.redundant_pic_cnt = 0 ∧
        (v.slice_type = AVC_I_SLICE → v.currPicParams.num_ref_idx_l0_active_minus1 ≤ 15) := by
  obtain ⟨-, htype, -⟩ := hl.types
  have hw : (if v.mbNum = 0 then v.sliceHdr.slice_type else v.slice_type) = v.writtenType := rfl
  have hcalls : callsBits (firstPart v) ++ l =
      callsBits (ue_v v.sliceHdr.first_mb_in_slice ++
        (ue_v v.writtenType ++ ue_v v.sliceHdr.pic_parameter_set_id)) ++
      (callsBits (writeBits (v.currSeqParams.log2_max_frame_num_minus4 + 4)
        v.sliceHdr.frame_num) ++ l) := by
    rw [firstPart, hw]
    simp only [callsBits_append, append_assoc]
  rw [hcalls] at h
  unfold Dec.firstHalf
  refine .bind ((((carries_first ha hl).gives r).ends h).mono fun x s₁ hx => ?_)
  obtain ⟨rfl, -⟩ := hx
  dsimp only
  rw [htype]
  refine .bind fun _ s₂ _ => .bind fun _ s₃ _ => ends_check fun _ => ends_check fun _ => ?_
  refine .bind fun _ s₄ _ => .bind fun order s₅ _ => .bind ?_
  refine (ends_reference_checks _ _ _).mono fun reference s₆ hr => .pure ⟨rfl, hr.1, ?_⟩
  rintro hI
  exact hr.2 (by rw [hI]; decide)

/-! ## 3. Exactly the plain headers come back -/

/-- A 1 follows soon behind the order of pictures of an IDR picture. -/
theorem LegalSlice.soon (hl : LegalSlice d v)
    (hi : v.nal_unit_type = AVC_NALTYPE_IDR)
    (hred : v.currPicParams.redundant_pic_cnt_present_flag ≠ 0 →
      v.sliceHdr.redundant_pic_cnt = 0) (rest : List Bool) :
    ∃ n, 1 ≤ n ∧ n ≤ 30 ∧ (callsBits (referencePart v) ++
      (callsBits (secondHalf v) ++ rest))[n]? = some true := by
  obtain ⟨ht, -⟩ := hl.idr hi
  obtain ⟨c, hc⟩ : ∃ c, codeOf v.sliceHdr.slice_qp_delta = c := ⟨_, rfl⟩
  have hc7 : log2 (c + 1) < 7 := by
    refine (log2_lt (Nat.succ_ne_zero c)).mpr ?_
    have := hl.slice_qp_delta
    unfold codeOf at hc
    split at hc <;> omega
  have href : (callsBits (referencePart v)).length ≤ 1 := by
    rw [referencePart_I ht]
    split
    · rename_i hp
      rw [hred hp]
      decide
    · exact Nat.zero_le _
  have hflags : (callsBits (dec_ref_pic_marking v.nal_unit_type v.sliceHdr.marking).1).length =
      2 := by
    rw [dec_ref_pic_marking, if_pos hi, callsBits_append, length_append, write1Bit,
      write1Bit, callsBits_bit, callsBits_bit, ofNum_length, ofNum_length]
  rw [hl.secondHalf_idr hi, hc, append_assoc, append_assoc]
  refine ⟨(callsBits (referencePart v)).length + (2 + log2 (c + 1)), by omega, by omega, ?_⟩
  rw [getElem?_append_right (Nat.le_add_right _ _), Nat.add_sub_cancel_left,
    getElem?_append_right (by rw [hflags]; exact Nat.le_add_right _ _), hflags,
    Nat.add_sub_cancel_left]
  exact egBits_one c _

/-- The operations of a legal list fit into their array. -/
theorem LegalSlice.success (hl : LegalSlice d v) :
    (dec_ref_pic_marking v.nal_unit_type v.sliceHdr.marking).2 = .AVCENC_SUCCESS := by
  by_cases hf : v.sliceHdr.marking.adaptive_ref_pic_marking_mode_flag ≠ 0
  · obtain ⟨k, hk, hzero, hops⟩ := hl.marking hf
    exact markingCalls_success ⟨hk, hzero, hops⟩ _
  · unfold dec_ref_pic_marking
    rw [if_neg hf]
    split <;> rfl

/-- The first four parts of the header. -/
def firstCalls (v : EncVideo) : List WriteCall :=
  firstPart v ++ idrPart v ++ orderPart v ++ referencePart v

/-- What comes back has passed the checks. -/
theorem ends_checks
    (ha : Active decvid d v) (hl : LegalSlice d v)
    (h : Sees r s (callsBits (firstCalls v) ++ l)) :
    (Dec.DecodeSliceHeader configure decvid d).Ends s fun g _ => HeaderRecovered v g →
      (v.currPicParams.redundant_pic_cnt_present_flag ≠ 0 → v.sliceHdr.redundant_pic_cnt = 0) ∧
        (v.slice_type = AVC_I_SLICE → v.currPicParams.num_ref_idx_l0_active_minus1 ≤ 15) := by
  unfold firstCalls at h
  simp only [callsBits_append, append_assoc] at h
  unfold Dec.DecodeSliceHeader
  refine .bind ((ends_firstHalf_checks ha hl h).mono fun x s₁ hx => ?_)
  obtain ⟨video, pps, sps⟩ := x
  obtain ⟨-, hred, href⟩ := hx
  refine (ends_secondHalf_sets video pps sps).mono fun g s₂ hg hrec => ⟨fun hp => ?_, href⟩
  obtain ⟨l0, m, x, y, filter, cycle, rfl⟩ := hg
  exact (hrec.redundant_pic_cnt hp).symm.trans hred

/-- An identification of 65535 does not come back. -/
theorem ends_idr
    (ha : Active decvid d v) (hl : LegalSlice d v)
    (hb : Baseline v.currSeqParams v.currPicParams) (hi : v.nal_unit_type = AVC_NALTYPE_IDR)
    (hid : v.sliceHdr.idr_pic_id = 65535)
    (hred : v.currPicParams.redundant_pic_cnt_present_flag ≠ 0 →
      v.sliceHdr.redundant_pic_cnt = 0) (hlen : 2 ≤ l.length)
    (h : Sees r s (callsBits (firstCalls v) ++ (callsBits (secondHalf v) ++ l))) :
    (Dec.DecodeSliceHeader configure decvid d).Ends s fun g s' => HeaderRecovered v g →
      Counted r s' (8 * r.length - l.length + 2) := by
  obtain ⟨n, h1, h30, hn⟩ := hl.soon hi hred l
  unfold Dec.DecodeSliceHeader
  refine .bind ((ends_firstHalf_idr ha hl hb hi hid (by rw [length_append]; omega) h1 h30 hn
    h).mono fun x s₁ hx => ?_)
  obtain ⟨video, pps, sps⟩ := x
  obtain ⟨hsets, htype, hnal, hidc, hbehind⟩ := hx
  obtain ⟨rfl, rfl⟩ := Prod.mk.inj hsets
  refine ((ends_secondHalf_sets video _ _).and (.imp fun hb' : Behind r s₁ _ =>
    hb'.ends_secondHalf ha hl hb hi video htype hnal hidc hlen)).mono fun g s₂ hg hrec => ?_
  obtain ⟨⟨l0, m, x, y, filter, cycle, rfl⟩, hg⟩ := hg
  exact hg (hbehind hrec.pic_order_cnt_lsb hrec.delta_pic_order_cnt_1 hrec.redundant_pic_cnt) hrec

/-- Of what comes back, the decoder is past the encoder by what is missing. -/
theorem ends_missing
    (ha : Active decvid d v) (hl : LegalSlice d v)
    (hb : Baseline v.currSeqParams v.currPicParams)
    (hidr : v.nal_unit_type = AVC_NALTYPE_IDR → v.sliceHdr.idr_pic_id < 65535)
    (hred : v.currPicParams.redundant_pic_cnt_present_flag ≠ 0 → v.sliceHdr.redundant_pic_cnt = 0)
    (href : v.slice_type = AVC_I_SLICE → v.currPicParams.num_ref_idx_l0_active_minus1 ≤ 15)
    (h : Sees r s (callsBits (firstCalls v) ++ (callsBits (secondHalf v) ++ l))) :
    (Dec.DecodeSliceHeader configure decvid d).Ends s fun g s' => HeaderRecovered v g →
      Counted r s' (8 * r.length - l.length + v.missing) := by
  have hfits := h.fits
  simp only [length_append] at hfits
  unfold Dec.DecodeSliceHeader
  refine .bind ((((carries_firstHalf ha hl hb hidr hred href).gives r).ends h).mono
    fun x s₁ hx => ?_)
  obtain ⟨rfl, h₁⟩ := hx
  refine (ends_secondHalf ha hl hb (receivedHalf d v) rfl ha.nal_unit_type ha.nal_ref_idc
    h₁.past).mono fun g s₂ hg hrec => (hg hrec).mono ?_
  rw [length_append]
  omega

/-- **A header comes back exactly when it is plain.** -/
theorem header_comes_back_iff (configure : DecVideo → AVCSeqParamSet → Option Stop)
    {decvid : AVCDecObject} {d : DecVideo} {v : EncVideo} (ha : Active decvid d v)
    (hl : LegalSlice d v) (hb : Baseline v.currSeqParams v.currPicParams) :
    ComesBack configure decvid d v ↔ Plain v := by
  refine ⟨fun hback => ?_, header_arrives ha hl hb⟩
  have hcalls : callsBits (Enc.EncodeSliceHeader v).1 =
      callsBits (firstCalls v) ++ callsBits (secondHalf v) := by
    rw [encode_calls hl hb fun _ => hl.success, callsBits_append]
    rfl
  obtain ⟨w, hw⟩ : ∃ w, callsBits (Enc.EncodeSliceHeader v).1 = w := ⟨_, rfl⟩
  -- enough bits follow
  obtain ⟨rest, hrest⟩ : ∃ rest, rest = List.replicate (16 - w.length % 8) false := ⟨_, rfl⟩
  have hlen : rest.length = 16 - w.length % 8 := by rw [hrest, length_replicate]
  obtain ⟨r, hr⟩ := exists_bits (l := w ++ rest) (n := w.length / 8 + 2) (by
    rw [length_append, hlen]
    omega)
  obtain ⟨g, s, hexec, hcnt, hrec⟩ := hback w ⟨by rw [hw], fun _ => hw.symm⟩ r rest hr
  have hbits : 8 * r.length = w.length + rest.length := by
    rw [← bits_length, hr, length_append]
  rw [hcalls] at hw
  rw [← hw, append_assoc] at hr
  have hsees := Sees.opened hr
  obtain ⟨hred, href⟩ := ends_checks ha hl hsees g s hexec hrec
  have hidr : v.nal_unit_type = AVC_NALTYPE_IDR → v.sliceHdr.idr_pic_id < 65535 := by
    intro hi
    by_contra hge
    have hid : v.sliceHdr.idr_pic_id = 65535 := by
      have := hl.idr_pic_id
      omega
    have hend := ends_idr ha hl hb hi hid hred (by omega) hsees g s hexec hrec
    rcases hend with h | h <;> omega
  have hend := ends_missing ha hl hb hidr hred href hsees g s hexec hrec
  have hmissing : v.missing = 0 := by
    rcases hend with h | h <;> omega
  unfold EncVideo.missing at hmissing
  have hreorder : ¬ (v.slice_type = AVC_P_SLICE ∧
      v.sliceHdr.l0.ref_pic_list_reordering_flag ≠ 0) := fun hc => by
    rw [if_pos hc] at hmissing
    omega
  have hoperates : ¬ v.Operates := fun hc => by
    rw [if_pos hc] at hmissing
    omega
  have hevolves : ¬ v.Evolves := fun hc => by
    rw [if_pos hc] at hmissing
    omega
  refine ⟨fun ht => ?_, fun hn hi => ?_, hevolves, hidr, hred, href⟩
  · by_contra hf
    exact hreorder ⟨ht, hf⟩
  · by_contra hf
    obtain ⟨h1, h2⟩ := not_or.mp hf
    exact hoperates ⟨hn, hi, h1, h2⟩

end Shifted

/-- The header of an IDR picture that is one I slice, in two slice groups. -/
def sampleHeader (pps : AVCPicParamSet) : EncVideo where
  sliceHdr := { AVCSliceHeader.zero with slice_type := AVC_I_SLICE }
  currSeqParams := sampleSps
  currPicParams := pps
  slice_type := AVC_I_SLICE
  mbNum := 0
  nal_unit_type := AVC_NALTYPE_IDR
  nal_ref_idc := 1
  PicSizeInMapUnits := 99
  SliceGroupChangeRate := 1

/-- A decoder that has the two parameter sets in use. -/
def sampleDecoder (pps : AVCPicParamSet) : AVCDecObject where
  seqParams i := if i = 0 then some sampleSps else none
  picParams i := if i = 0 then some pps else none
  lastSPS := some 0
  currPicParams := some 0

def sampleState : DecVideo where
  sliceHdr := .zero
  slice_type := 0
  seq_parameter_set_id := 0
  nal_unit_type := AVC_NALTYPE_IDR
  nal_ref_idc := 1
  currFS := false
  prevFrameNum := 0
  PrevRefFrameNum := 0
  MaxLongTermFrameIdx := 0
  LongTermFrameIdx := 0

/-- `samplePps` with slice groups of the box-out type. -/
def evolvingPps : AVCPicParamSet := { samplePps with slice_group_map_type := 3 }

theorem sampleHeader_legal {pps : AVCPicParamSet} (h : pps = samplePps ∨ pps = evolvingPps) :
    LegalSlice sampleState (sampleHeader pps) := by
  rcases h with rfl | rfl
  all_goals
    constructor
    case activeRefs => exact fun h => absurd h (by decide)
    case reordering => exact fun h => absurd h (by decide)
    case marking => exact fun h => absurd rfl h
    all_goals decide

/-- The plain header. -/
theorem sampleHeader_comes_back :
    ComesBack (fun _ _ => none) (sampleDecoder samplePps) sampleState (sampleHeader samplePps) ↔
      Plain (sampleHeader samplePps) :=
  header_comes_back_iff _ ⟨rfl, rfl, rfl, rfl, rfl, rfl, rfl⟩ (sampleHeader_legal (.inl rfl))
    (by constructor <;> decide)

/-- With slice groups that change, the decoder takes 7 bits for the 6 of the last field. -/
theorem change_cycle_too_wide :
    Active (sampleDecoder evolvingPps) sampleState (sampleHeader evolvingPps) ∧
      LegalSlice sampleState (sampleHeader evolvingPps) ∧ Baseline sampleSps evolvingPps ∧
      ¬ ComesBack (fun _ _ => none) (sampleDecoder evolvingPps) sampleState
        (sampleHeader evolvingPps) := by
  refine ⟨⟨rfl, rfl, rfl, rfl, rfl, rfl, rfl⟩, sampleHeader_legal (.inr rfl), by constructor <;> decide, ?_⟩
  intro hback
  obtain ⟨g, s, hexec, hcnt, -⟩ := hback (callsBits (Enc.EncodeSliceHeader
    (sampleHeader evolvingPps)).1) ⟨rfl, fun _ => rfl⟩ [184, 79, 0] [false, false]
    (by decide +kernel)
  have hdec : ((Dec.DecodeSliceHeader (fun _ _ => none) (sampleDecoder evolvingPps)
      sampleState).exec (.opened [184, 79, 0] 3)).2.bitcnt = 23 := by decide +kernel
  rw [show ([184, 79, 0] : List UInt8).length = 3 from rfl] at hexec
  rw [hexec] at hdec
  have hlen : (callsBits (Enc.EncodeSliceHeader (sampleHeader evolvingPps)).1).length = 22 := by
    decide +kernel
  rw [hlen] at hcnt
  exact absurd (hcnt.symm.trans hdec) (by decide)

end OpenCore.Avc
