/-
  File:      OpenCore/H223/Level0Parse.lean
  Subject:   THE LEVEL 0 PARSER over whole streams: what it indicates, and what noise leaves behind.

  At a flag the parser has the bits since the last one; with at least one octet of them it removes
  the inserted 0s and indicates a PDU. Fewer than eight bits stay where they are and stand in
  front of the next frame (`Rx.line` keeps them), and bits behind the last octet of a PDU stay in
  the register of the removal (`carry`).

  **Main result** `parse_session`.
-/
import OpenCore.H223.Level0

namespace OpenCore.H223.Level0

open Bits ZeroBits List

/-! ## 1. Behind the removal -/

open Sent (contents frames pdu)

variable {l : List Bool}

/-- A bit into a register of eight bits. -/
theorem register_snoc (h : l.length ≤ 7) (b : Bool) :
    (val l ||| (b.toNat <<< l.length)) % 256 = val (l ++ [b]) := by
  have hlt := val_lt (l ++ [b])
  have hpow : 2 ^ (l ++ [b]).length ≤ 2 ^ 8 := Nat.pow_le_pow_right (by decide) (by simp; omega)
  rw [show b.toNat = val [b] by simp, or_shiftLeft]
  exact Nat.mod_eq_of_lt (lt_of_lt_of_le hlt hpow)

/-- The octets written for the bits `d`; what an earlier PDU has left in the register, `z`, is in
    the first of them. -/
def merge (z : Nat) (d : List Bool) : List UInt8 :=
  match packed d with
  | [] => []
  | first :: more => UInt8.ofNat (first.toNat ||| z) :: more

/-- The register behind the bits `d`. -/
def carry (z : Nat) (d : List Bool) : Nat :=
  if d.length < 8 then val d ||| z else val (rest d)

/-- The parser inside `Remove0`: `w` is not yet removed from, `d` is written. -/
def Rx.removing (rx : Rx) (w d : List Bool) (z : Nat) : Rx :=
  { rx with
    iRecvByte0 := val w
    iRecvByte0Pos := w.length
    iZeroBitRemovedOutput := carry z d
    iZeroBitRemovedOutputPos := (rest d).length
    zeroRemoved := merge z d }

variable {z : Nat} {d : List Bool}

theorem merge_of_lt (h : d.length < 8) : merge z d = [] := by
  simp [merge, packed_of_lt h]

/-- Bits behind the first octet are written as they are. -/
theorem merge_append (h : 8 ≤ d.length) (l : List Bool) :
    merge z (d ++ l) = merge z d ++ packed (rest d ++ l) := by
  unfold merge
  rw [packed_append, packed_cons h]
  rfl

theorem writeRemoved_of_lt {fuel : Nat} {rx : Rx} (h : rx.iZeroBitRemovedOutputPos < 8) :
    writeRemoved fuel rx = rx := by
  cases fuel with
  | zero => rfl
  | succ fuel => rw [writeRemoved, if_neg (by omega)]

theorem writeRemoved_of_ge {fuel : Nat} {rx : Rx} (h : 8 ≤ rx.iZeroBitRemovedOutputPos)
    (h16 : rx.iZeroBitRemovedOutputPos < 16) : writeRemoved (fuel + 1) rx = { rx with
      zeroRemoved := rx.zeroRemoved ++ [UInt8.ofNat rx.iZeroBitRemovedOutput]
      iZeroBitRemovedOutput := rx.iZeroBitRemovedOutput >>> 8
      iZeroBitRemovedOutputPos := rx.iZeroBitRemovedOutputPos - 8 } := by
  rw [writeRemoved, if_pos h]
  refine writeRemoved_of_lt ?_
  show rx.iZeroBitRemovedOutputPos - 8 < 8
  omega

/-- The first octet with what was left in the register. -/
theorem ofNat_val_or (l : List Bool) :
    UInt8.ofNat (val l ||| z) = UInt8.ofNat ((octet l).toNat ||| z) := by
  have hoct : (octet l).toNat = val l % 256 := by
    rw [← ofNat_val, UInt8.toNat_ofNat']
  refine UInt8.toNat_inj.mp ?_
  rw [UInt8.toNat_ofNat', UInt8.toNat_ofNat', hoct, Nat.or_mod_two_pow, Nat.or_mod_two_pow]
  simp

/-- **Bits behind the removal.** -/
theorem AppendBits0_eq (rx : Rx) (w d : List Bool) (hz : z < 256)
    (hl : l.length ≤ 8) :
    AppendBits0 l.length (val l) (rx.removing w d z) = rx.removing w (d ++ l) z := by
  have hq := rest_length_lt d
  unfold AppendBits0
  by_cases hd : d.length < 8
  · have hreg : carry z d ||| (val l <<< d.length) = val (d ++ l) ||| z := by
      rw [carry, if_pos hd, Nat.or_right_comm, or_shiftLeft]
    simp only [Rx.removing, rest_of_lt hd, hreg]
    by_cases hdl : (d ++ l).length < 8
    · rw [writeRemoved_of_lt (by simpa using hdl)]
      rw [carry, if_pos hdl, rest_of_lt hdl, merge_of_lt hd, merge_of_lt hdl, length_append]
    · -- the first octet is full: what was left in the register goes out with it
      have hlen : d.length + l.length = (d.length + l.length - 1) + 1 := by simp at hdl; omega
      have hz8 : z >>> 8 = 0 := by
        rw [Nat.shiftRight_eq_div_pow]
        exact Nat.div_eq_of_lt hz
      have hdrop : ((d ++ l).drop 8).length < 8 := by simp; omega
      have hrest : rest (d ++ l) = (d ++ l).drop 8 := by
        rw [← rest_drop (by omega), rest_of_lt hdrop]
      have hmerge : merge z (d ++ l) = [UInt8.ofNat (val (d ++ l) ||| z)] := by
        rw [merge, packed_cons (by omega), packed_of_lt hdrop, ofNat_val_or]
      rw [hlen, writeRemoved_of_ge (by simp at hdl ⊢; omega) (by simp; omega)]
      simp only [merge_of_lt hd, nil_append, hmerge, carry, if_neg hdl, hrest,
        Nat.shiftRight_or_distrib, hz8, Nat.or_zero, val_shiftRight]
      congr 1
      rw [length_drop, length_append]
      omega
  · have hreg : carry z d ||| (val l <<< (rest d).length) = val (rest d ++ l) := by
      rw [carry, if_neg hd, or_shiftLeft]
    have hdl : ¬ (d ++ l).length < 8 := by simp; omega
    simp only [Rx.removing, hreg, merge_append (by omega : 8 ≤ d.length)]
    rw [carry, if_neg hdl, rest_append d l]
    by_cases hql : (rest d ++ l).length < 8
    · rw [writeRemoved_of_lt (by simpa using hql)]
      simp [rest_of_lt hql, packed_of_lt hql]
    · have hlen : (rest d).length + l.length = ((rest d).length + l.length - 1) + 1 := by
        simp at hql; omega
      have hdrop : ((rest d ++ l).drop 8).length < 8 := by simp; omega
      have hrest : rest (rest d ++ l) = (rest d ++ l).drop 8 := by
        rw [← rest_drop (by omega), rest_of_lt hdrop]
      rw [hlen, writeRemoved_of_ge (by simp at hql ⊢; omega) (by simp; omega)]
      simp only [packed_cons (by omega : 8 ≤ (rest d ++ l).length), packed_of_lt hdrop, hrest,
        ofNat_val, val_shiftRight]
      congr 1
      rw [length_drop, length_append]
      omega

/-! ## 2. The removal -/

variable {w : List Bool}

/-- **One bit through the removal**: what is written and what is not yet removed from are, with the
    inserted 0s removed, what they were. -/
theorem removeBit_eq (rx : Rx) (hz : z < 256) (hw : w.length ≤ 5)
    (b : Bool) : ∃ w' d', removeBit b.toNat (rx.removing w d z) = rx.removing w' d' z ∧
      w'.length ≤ 5 ∧ ∀ m, d' ++ remove0 (w' ++ m) = d ++ remove0 (w ++ b :: m) := by
  have hreg := register_snoc (l := w) (by omega) b
  have hlen : (w ++ [b]).length = w.length + 1 := by simp
  have hstep : ∀ m, w ++ b :: m = (w ++ [b]) ++ m := fun m => by simp
  by_cases h6 : w.length + 1 = 6
  · obtain ⟨c, v, hcv⟩ := exists_cons_of_length_pos (l := w ++ [b]) (by omega)
    have hv : v.length = 5 := by
      have := congrArg length hcv
      rw [hlen, length_cons] at this
      omega
    by_cases hones : (w ++ [b]).take 5 = ones
    · -- five 1s; the bit behind them is left out
      obtain ⟨x, hx⟩ : ∃ x, (w ++ [b]).drop 5 = [x] :=
        length_eq_one_iff.mp (by rw [length_drop, hlen]; omega)
      refine ⟨[], d ++ ones, ?_, by simp, fun m => ?_⟩
      · unfold removeBit
        simp only [Rx.removing, hreg, h6, if_true,
          (val_and_ones (w := w ++ [b]) (by omega)).mpr hones]
        have happ := AppendBits0_eq rx (w ++ [b]) d hz (l := ones) (by decide)
        simp only [Rx.removing, hlen, h6] at happ
        rw [show (5 : Nat) = ones.length from rfl, show (31 : Nat) = val ones from rfl, happ]
        rfl
      · have hall : w ++ b :: m = ones ++ x :: m := by
          rw [hstep, ← take_append_drop 5 (w ++ [b]), hones, hx, append_assoc,
            singleton_append]
        rw [hall, remove0_ones, append_assoc]
        rfl
    · refine ⟨v, d ++ [c], ?_, by omega, fun m => ?_⟩
      · unfold removeBit
        simp only [Rx.removing, hreg, h6, if_true]
        rw [if_neg fun hmask => hones ((val_and_ones (by omega)).mp hmask)]
        have hbit : val (w ++ [b]) &&& 1 = val [c] := by
          rw [hcv]
          exact val_and 1 (c :: v)
        have hshift : val (w ++ [b]) >>> 1 = val v := by
          rw [hcv]
          exact val_shiftRight 1 (c :: v)
        have happ := AppendBits0_eq rx (w ++ [b]) d hz (l := [c]) (by simp)
        simp only [Rx.removing, hlen, h6, length_singleton] at happ
        rw [hbit, happ, hshift, hv]
      · have hp : ¬ (ones <+: c :: (v ++ m) ∧ 5 ≤ (v ++ m).length) := by
          rintro ⟨⟨t, ht⟩, -⟩
          refine hones ?_
          have htake := congrArg (take 5) ht
          rw [take_left' (by rfl), ← cons_append, ← hcv,
            take_append_of_le_length (by omega)] at htake
          exact htake.symm
        rw [hstep, hcv, cons_append, remove0_cons hp, append_assoc, singleton_append]
  · refine ⟨w ++ [b], d, ?_, by omega, fun m => by rw [hstep m]⟩
    unfold removeBit
    simp only [Rx.removing, hreg, h6, if_false, hlen]

/-- The lowest bits of an octet through the removal. -/
theorem Remove0Octet_eq (rx : Rx) (hz : z < 256)
    (hw : w.length ≤ 5) : ∃ w' d', Remove0Octet (val l) l.length (rx.removing w d z)
        = rx.removing w' d' z ∧ w'.length ≤ 5 ∧
      ∀ m, d' ++ remove0 (w' ++ m) = d ++ remove0 (w ++ (l ++ m)) := by
  induction l generalizing w d with
  | nil => exact ⟨w, d, rfl, hw, fun _ => rfl⟩
  | cons b l ih =>
    obtain ⟨w₁, d₁, h₁, hw₁, hm₁⟩ := removeBit_eq rx hz hw b
    obtain ⟨w₂, d₂, h₂, hw₂, hm₂⟩ := ih (d := d₁) hw₁
    refine ⟨w₂, d₂, ?_, hw₂, fun m => ?_⟩
    · have hbit : val (b :: l) &&& 1 = b.toNat := by
        rw [show (1 : Nat) = 2 ^ 1 - 1 from rfl, val_and]
        simp
      have hshift : val (b :: l) >>> 1 = val l := val_shiftRight 1 (b :: l)
      rw [length_cons, Remove0Octet, hbit, hshift, h₁, h₂]
    · rw [hm₂, hm₁, cons_append]

theorem removeOctets_eq (rx : Rx) (hz : z < 256) (hw : w.length ≤ 5)
    (octets : List UInt8) : ∃ w' d',
      octets.foldl (fun rx octet => Remove0Octet octet.toNat 8 rx) (rx.removing w d z)
        = rx.removing w' d' z ∧ w'.length ≤ 5 ∧
      ∀ m, d' ++ remove0 (w' ++ m) = d ++ remove0 (w ++ (bits octets ++ m)) := by
  induction octets generalizing w d with
  | nil => exact ⟨w, d, rfl, hw, fun _ => rfl⟩
  | cons octet octets ih =>
    obtain ⟨w₁, d₁, h₁, hw₁, hm₁⟩ := Remove0Octet_eq rx (l := octetBits octet) (d := d) hz hw
    obtain ⟨w₂, d₂, h₂, hw₂, hm₂⟩ := ih (d := d₁) hw₁
    refine ⟨w₂, d₂, ?_, hw₂, fun m => ?_⟩
    · rw [octetBits_length, val_octetBits] at h₁
      rw [foldl_cons, h₁, h₂]
    · rw [hm₂, hm₁, bits_cons, append_assoc]

/-! ## 3. Between two bits -/

/-- The parser between two bits: `win` in the window, the octets `iPdu` and the bits `t` since the
    last flag, `z` in the register of the removal. -/
def Rx.holding (win t : List Bool) (iPdu : List UInt8) (z : Nat) (zeroRemoved : List UInt8)
    (indicated : List Indication) : Rx :=
  ⟨val win, win.length, val t, t.length, 0, 0, z, 0, iPdu, zeroRemoved, indicated⟩

/-- What is indicated for the bits `d`, without inserted 0s. -/
def told (z : Nat) (d : List Bool) (iPdu : List UInt8) : Indication :=
  let octet := (firstOctet (merge z d) iPdu).toNat
  ⟨(merge z d).drop 1, ((merge z d).length + 65535) % 65536, decide (octet &&& 1 = 1),
    (octet >>> 1) &&& 0xf⟩

/-- **A PDU.** The bits since the last flag are removed from and indicated. -/
theorem Remove0_eq (win t : List Bool) (ht : t.length ≤ 8) (iPdu : List UInt8)
    (hz : z < 256) (zeroRemoved : List UInt8) (indicated : List Indication) :
    Remove0 (Rx.holding win t iPdu z zeroRemoved indicated)
      = Rx.holding win [] [] (carry z (remove0 (bits iPdu ++ t)))
          (merge z (remove0 (bits iPdu ++ t)))
          (indicated ++ [told z (remove0 (bits iPdu ++ t)) iPdu]) := by
  have hstart : { Rx.holding win t iPdu z zeroRemoved indicated with zeroRemoved := [] }
      = (Rx.holding win t iPdu z [] indicated).removing [] [] z := by
    simp [Rx.holding, Rx.removing, carry, merge, packed_of_lt, rest_of_lt]
  obtain ⟨w₁, d₁, h₁, hw₁, hm₁⟩ := removeOctets_eq (Rx.holding win t iPdu z [] indicated)
    (w := []) (d := []) hz (by simp) iPdu
  obtain ⟨w₂, d₂, h₂, hw₂, hm₂⟩ := Remove0Octet_eq (Rx.holding win t iPdu z [] indicated)
    (l := t) (d := d₁) hz hw₁
  have htail : val t % 256 = val t :=
    Nat.mod_eq_of_lt (lt_of_lt_of_le (val_lt t) (Nat.pow_le_pow_right (by decide) ht))
  have hd : d₂ ++ w₂ = remove0 (bits iPdu ++ t) := by
    have h := hm₂ []
    rw [append_nil, append_nil, remove0_of_lt (by omega), hm₁] at h
    exact h
  unfold Remove0
  rw [hstart]
  have hpdu : ((Rx.holding win t iPdu z [] indicated).removing [] [] z).iPdu = iPdu := rfl
  simp only [hpdu, h₁]
  -- the bits behind the last octet
  have hrest : (if ((Rx.holding win t iPdu z [] indicated).removing w₁ d₁ z).iRecvBytePos ≠ 0 then
      { Remove0Octet (((Rx.holding win t iPdu z [] indicated).removing w₁ d₁ z).iRecvByte % 256)
          ((Rx.holding win t iPdu z [] indicated).removing w₁ d₁ z).iRecvBytePos
          ((Rx.holding win t iPdu z [] indicated).removing w₁ d₁ z) with
        iRecvBytePos := 0, iRecvByte := 0 }
      else (Rx.holding win t iPdu z [] indicated).removing w₁ d₁ z)
      = (Rx.holding win [] iPdu z [] indicated).removing w₂ d₂ z := by
    have hbyte : ((Rx.holding win t iPdu z [] indicated).removing w₁ d₁ z).iRecvByte = val t := rfl
    have hbpos : ((Rx.holding win t iPdu z [] indicated).removing w₁ d₁ z).iRecvBytePos
      = t.length := rfl
    rw [hbyte, hbpos, htail, h₂]
    by_cases ht0 : t = []
    · subst ht0
      rw [if_neg (by simp)]
      exact h₂
    · rw [if_pos fun h0 => ht0 (eq_nil_of_length_eq_zero h0)]
      rfl
  rw [hrest]
  -- the bits that could not yet be removed from
  have hflush : (if ((Rx.holding win [] iPdu z [] indicated).removing w₂ d₂ z).iRecvByte0Pos ≠ 0 then
      { AppendBits0 ((Rx.holding win [] iPdu z [] indicated).removing w₂ d₂ z).iRecvByte0Pos
          ((Rx.holding win [] iPdu z [] indicated).removing w₂ d₂ z).iRecvByte0
          ((Rx.holding win [] iPdu z [] indicated).removing w₂ d₂ z) with
        iRecvByte0Pos := 0, iRecvByte0 := 0 }
      else (Rx.holding win [] iPdu z [] indicated).removing w₂ d₂ z)
      = (Rx.holding win [] iPdu z [] indicated).removing [] (remove0 (bits iPdu ++ t)) z := by
    have hbyte : ((Rx.holding win [] iPdu z [] indicated).removing w₂ d₂ z).iRecvByte0 = val w₂ := rfl
    have hbpos : ((Rx.holding win [] iPdu z [] indicated).removing w₂ d₂ z).iRecvByte0Pos
      = w₂.length := rfl
    rw [hbyte, hbpos, AppendBits0_eq _ _ _ hz (by omega), hd]
    by_cases hw0 : w₂ = []
    · subst hw0
      rw [if_neg (by simp), ← hd, append_nil]
    · rw [if_pos fun h0 => hw0 (eq_nil_of_length_eq_zero h0)]
      rfl
  rw [hflush]
  split
  · rfl
  · next hpos =>
    have hpos0 : (rest (remove0 (bits iPdu ++ t))).length = 0 := by simpa [Rx.removing] using hpos
    simp only [Rx.removing, hpos0]
    rfl

/-! ## 4. Bit by bit -/

/-- The parser between two bits: `win` in the window, the bits `raw` since the last flag. -/
def Rx.line (win raw : List Bool) (z : Nat) (zeroRemoved : List UInt8)
    (indicated : List Indication) : Rx :=
  Rx.holding win (rest raw) (packed raw) z zeroRemoved indicated

/-- The bits that `iPdu` holds without its last octet. -/
def maxBits : Nat := 8 * H223_MAX_DEMUX_PDU_SIZE

theorem AppendBit_eq (win : List Bool) {raw : List Bool} (hraw : raw.length + 1 < maxBits) (z : Nat)
    (zeroRemoved : List UInt8) (indicated : List Indication) (b : Bool) :
    AppendBit b.toNat (Rx.line win raw z zeroRemoved indicated)
      = Rx.line win (raw ++ [b]) z zeroRemoved indicated := by
  have hlt := rest_length_lt raw
  have hpacked : packed (raw ++ [b]) = packed raw ++ packed (rest raw ++ [b]) := packed_append raw [b]
  have hrest : rest (raw ++ [b]) = rest (rest raw ++ [b]) := rest_append raw [b]
  have hbyte : val (rest raw) ||| (b.toNat <<< (rest raw).length) = val (rest raw ++ [b]) := by
    rw [show b.toNat = val [b] by simp, or_shiftLeft]
  unfold AppendBit
  simp only [Rx.line, Rx.holding, hbyte, hpacked, hrest]
  by_cases h8 : (rest raw).length + 1 = 8
  · have hlen : (packed raw).length ≠ H223_MAX_DEMUX_PDU_SIZE - 1 := by
      have := rest_length raw
      rw [packed_length]
      simp only [maxBits, H223_MAX_DEMUX_PDU_SIZE] at hraw ⊢
      omega
    have hfull : 8 ≤ (rest raw ++ [b]).length := by simp; omega
    have hnone : (rest raw ++ [b]).drop 8 = [] := drop_eq_nil_of_le (by simp; omega)
    rw [if_pos h8, if_neg hlen, packed_cons hfull, ← rest_drop hfull, hnone, ofNat_val]
    rfl
  · have hpart : (rest raw ++ [b]).length < 8 := by simp; omega
    rw [if_neg h8, packed_of_lt hpart, rest_of_lt hpart]
    simp

theorem mask_iff (h : w.length = 8) : val w &&& HDLC = HDLC ↔ FlagAt w := by
  have hall : ∀ b₀ b₁ b₂ b₃ b₄ b₅ b₆ b₇ : Bool,
      val [b₀, b₁, b₂, b₃, b₄, b₅, b₆, b₇] &&& HDLC = HDLC
        ↔ FlagAt [b₀, b₁, b₂, b₃, b₄, b₅, b₆, b₇] := by decide
  match w, h with
  | [b₀, b₁, b₂, b₃, b₄, b₅, b₆, b₇], _ => exact hall b₀ b₁ b₂ b₃ b₄ b₅ b₆ b₇

theorem searchBit_window {win : List Bool} (raw : List Bool) (z : Nat) (zeroRemoved : List UInt8)
    (indicated : List Indication) (b : Bool) (h : win.length < 7) :
    searchBit b.toNat (Rx.line win raw z zeroRemoved indicated)
      = Rx.line (win ++ [b]) raw z zeroRemoved indicated := by
  have hreg := register_snoc (l := win) (by omega) b
  unfold searchBit
  simp only [Rx.line, Rx.holding, hreg]
  rw [if_neg (by omega), length_append, length_singleton]

/-- The eight bits in the window are no flag: the first of them goes to `iPdu`. -/
theorem searchBit_slide {b₀ : Bool} {win raw : List Bool} (hraw : raw.length + 1 < maxBits) (z : Nat)
    (zeroRemoved : List UInt8) (indicated : List Indication) (b : Bool) (h : win.length = 6)
    (hno : ¬ FlagAt (b₀ :: win ++ [b])) :
    searchBit b.toNat (Rx.line (b₀ :: win) raw z zeroRemoved indicated)
      = Rx.line (win ++ [b]) (raw ++ [b₀]) z zeroRemoved indicated := by
  have hlen : (b₀ :: win ++ [b]).length = 8 := by simp; omega
  have hreg := register_snoc (l := b₀ :: win) (by simp; omega) b
  have happ := AppendBit_eq (b₀ :: win ++ [b]) hraw z zeroRemoved indicated b₀
  have hbit : val (b₀ :: win ++ [b]) &&& 1 = b₀.toNat := by
    rw [show (1 : Nat) = 2 ^ 1 - 1 from rfl, val_and]
    simp
  have hshift : val (b₀ :: win ++ [b]) >>> 1 = val (win ++ [b]) := val_shiftRight 1 (b₀ :: win ++ [b])
  have hnum : (b₀ :: win).length + 1 = (b₀ :: win ++ [b]).length := by simp
  unfold searchBit
  simp only [Rx.line, Rx.holding, hreg, hnum] at happ ⊢
  rw [if_pos hlen, if_neg (fun hmask => hno ((mask_iff hlen).mp hmask)), hbit, happ, hshift]
  rfl

/-- The eight bits in the window are a flag: a PDU is indicated if there is an octet. -/
theorem searchBit_flag {b₀ : Bool} {win : List Bool} (raw : List Bool) {z : Nat} (hz : z < 256)
    (zeroRemoved : List UInt8) (indicated : List Indication) (b : Bool) (h : win.length = 6)
    (hflag : FlagAt (b₀ :: win ++ [b])) :
    searchBit b.toNat (Rx.line (b₀ :: win) raw z zeroRemoved indicated)
      = if 8 ≤ raw.length then
          Rx.line [] [] (carry z (remove0 raw)) (merge z (remove0 raw))
            (indicated ++ [told z (remove0 raw) (packed raw)])
        else Rx.line [] raw z zeroRemoved indicated := by
  have hlen : (b₀ :: win ++ [b]).length = 8 := by simp; omega
  have hreg := register_snoc (l := b₀ :: win) (by simp; omega) b
  have hremove := Remove0_eq (b₀ :: win ++ [b]) (rest raw) (Nat.le_of_lt (rest_length_lt raw))
    (packed raw) hz zeroRemoved indicated
  have hnum : (b₀ :: win).length + 1 = (b₀ :: win ++ [b]).length := by simp
  rw [bits_packed] at hremove
  unfold searchBit
  simp only [Rx.line, Rx.holding, hreg, hnum] at hremove ⊢
  rw [if_pos hlen, if_pos ((mask_iff hlen).mpr hflag)]
  by_cases h8 : 8 ≤ raw.length
  · have hsize : (packed raw).length ≠ 0 := by
      rw [packed_length]
      omega
    rw [if_pos hsize, if_pos h8, hremove]
    simp [packed_of_lt, rest_of_lt]
  · have hsize : ¬ (packed raw).length ≠ 0 := by
      rw [packed_length]
      omega
    rw [if_neg hsize, if_neg h8]
    rfl

/-- The bits of the stream. -/
def searchBits (l : List Bool) (rx : Rx) : Rx := l.foldl (fun rx b => searchBit b.toNat rx) rx

theorem searchBits_append (l m : List Bool) (rx : Rx) :
    searchBits (l ++ m) rx = searchBits m (searchBits l rx) := foldl_append

theorem searchOctet_eq (l : List Bool) (rx : Rx) :
    searchOctet (val l) l.length rx = searchBits l rx := by
  induction l generalizing rx with
  | nil => rfl
  | cons b l ih =>
    have hbit : val (b :: l) &&& 1 = b.toNat := by
      rw [show (1 : Nat) = 2 ^ 1 - 1 from rfl, val_and]
      simp
    have hshift : val (b :: l) >>> 1 = val l := val_shiftRight 1 (b :: l)
    rw [length_cons, searchOctet, hbit, hshift, ih]
    rfl

/-- `Parse` reads the bits of its buffer. -/
theorem Parse_eq (bsbuf : List UInt8) (rx : Rx) : Parse rx bsbuf = searchBits (bits bsbuf) rx := by
  unfold Parse
  induction bsbuf generalizing rx with
  | nil => rfl
  | cons octet bsbuf ih =>
    have h := searchOctet_eq (octetBits octet) rx
    rw [octetBits_length, val_octetBits] at h
    rw [foldl_cons, h, ih, bits_cons, searchBits_append]

/-- Buffers are read one behind another. -/
theorem foldl_Parse_eq (bufs : List (List UInt8)) (rx : Rx) :
    bufs.foldl Parse rx = searchBits (bits bufs.flatten) rx := by
  induction bufs generalizing rx with
  | nil => rfl
  | cons buf bufs ih =>
    rw [foldl_cons, ih, Parse_eq, flatten_cons, bits_append, searchBits_append]

/-! ## 5. Frames -/

open Rx (init line)

/-- Bits without a flag: all but the last seven go to `iPdu`. -/
theorem searchBits_noFlag {win raw : List Bool} (z : Nat) (zeroRemoved : List UInt8)
    (indicated : List Indication) (hwin : win.length ≤ 7)
    (hraw : raw.length + (win ++ l).length < maxBits)
    (hno : ∀ i, i + 8 ≤ (win ++ l).length → ¬ FlagAt ((win ++ l).drop i)) :
    searchBits l (line win raw z zeroRemoved indicated)
      = line ((win ++ l).drop ((win ++ l).length - 7))
          (raw ++ (win ++ l).take ((win ++ l).length - 7)) z zeroRemoved indicated := by
  induction l generalizing win raw with
  | nil =>
    have h0 : (win ++ []).length - 7 = 0 := by simp; omega
    rw [h0]
    simp [searchBits]
  | cons b l ih =>
    have hcons : searchBits (b :: l) (line win raw z zeroRemoved indicated)
        = searchBits l (searchBit b.toNat (line win raw z zeroRemoved indicated)) := rfl
    have hassoc : win ++ b :: l = (win ++ [b]) ++ l := by simp
    rw [hcons]
    by_cases h7 : win.length < 7
    · rw [searchBit_window raw z zeroRemoved indicated b h7, hassoc]
      rw [hassoc] at hraw hno
      exact ih (by simp; omega) hraw hno
    · obtain ⟨b₀, win, rfl⟩ := exists_cons_of_length_pos (l := win) (by omega)
      have hwin6 : win.length = 6 := by simp at hwin h7; omega
      have hfirst : ¬ FlagAt (b₀ :: win ++ [b]) := by
        intro hf
        refine hno 0 (by simp; omega) ?_
        have htake : (b₀ :: win ++ b :: l) = (b₀ :: win ++ [b]) ++ l := by simp
        rw [drop_zero, htake]
        unfold FlagAt at hf ⊢
        rw [drop_append_of_le_length (by simp), take_append_of_le_length (by simp; omega)]
        exact hf
      have hnext : searchBits l (line (win ++ [b]) (raw ++ [b₀]) z zeroRemoved indicated)
          = line ((win ++ [b] ++ l).drop ((win ++ [b] ++ l).length - 7))
            (raw ++ [b₀] ++ (win ++ [b] ++ l).take ((win ++ [b] ++ l).length - 7)) z zeroRemoved
            indicated := ih (by simp; omega)
        (by simp at hraw ⊢; omega) fun i hi => by
          have := hno (i + 1) (by simp at hi ⊢; omega)
          rw [hassoc] at this
          simpa using this
      have hlen : (b₀ :: win ++ b :: l).length - 7 = (win ++ [b] ++ l).length - 7 + 1 := by
        simp
        omega
      rw [searchBit_slide (by simp at hraw; omega) z zeroRemoved indicated b hwin6 hfirst, hnext,
        hlen]
      simp

variable {frame : List Bool}

/-- Bits of a frame before the last bit of its flag: nothing is indicated. -/
theorem searchBits_prefix (hno : NoFlag frame) (z : Nat)
    (zeroRemoved : List UInt8) (indicated : List Indication) (hl : l <+: frame ++ flag)
    (hlt : l.length < (frame ++ flag).length) (hsize : frame.length + 8 < maxBits) :
    searchBits l (line [] [] z zeroRemoved indicated)
      = line (l.drop (l.length - 7)) (l.take (l.length - 7)) z zeroRemoved indicated := by
  have hflag : flag.length = 8 := rfl
  rw [length_append, hflag] at hlt
  have hno' : ∀ i, i + 8 ≤ l.length → ¬ FlagAt (l.drop i) := by
    intro i hi hf
    obtain ⟨m, hm⟩ := hl
    refine hno i (by omega) ?_
    rw [← hm, drop_append_of_le_length (by omega)]
    unfold FlagAt at hf ⊢
    rw [drop_append_of_le_length (by simp; omega),
      take_append_of_le_length (by simp; omega)]
    exact hf
  have h : searchBits l (line [] [] z zeroRemoved indicated)
      = line (([] ++ l).drop (([] ++ l).length - 7))
        ([] ++ ([] ++ l).take (([] ++ l).length - 7)) z zeroRemoved indicated :=
    searchBits_noFlag z zeroRemoved indicated (by simp) (by simp; omega) hno'
  simpa using h

/-- **A frame and its flag.** -/
theorem searchBits_frame (hno : NoFlag frame) (hz : z < 256)
    (zeroRemoved : List UInt8) (indicated : List Indication) (hsize : frame.length + 8 < maxBits) :
    searchBits (frame ++ flag) (line [] [] z zeroRemoved indicated)
      = if 8 ≤ frame.length then
          line [] [] (carry z (remove0 frame)) (merge z (remove0 frame))
            (indicated ++ [told z (remove0 frame) (packed frame)])
        else line [] frame z zeroRemoved indicated := by
  have hsplit : frame ++ flag = (frame ++ flag.dropLast) ++ [false] := by simp [flag]
  have hlen : (frame ++ flag.dropLast).length - 7 = frame.length := by simp [flag]
  have hpre := searchBits_prefix (l := frame ++ flag.dropLast) hno z zeroRemoved indicated
    ⟨[false], hsplit.symm⟩ (by simp [flag]) hsize
  rw [hsplit, searchBits_append, hpre, hlen, drop_left, take_left]
  exact @searchBit_flag false (replicate 6 true) frame z hz zeroRemoved indicated false rfl rfl

/-! ## 6. What a frame leaves behind -/

/-- The register of the removal holds no bit that the parser reads from a header octet. -/
def Harmless (z : Nat) : Prop := z < 128 ∧ z % 32 = 0

/-- A frame with noise in it that leaves nothing behind: no flag in it, at least one octet, fewer
    bits than the buffer holds, and among the bits behind its last octet the five lowest are 0. -/
def LeavesNothing (frame : List Bool) : Prop :=
  NoFlag frame ∧ 8 ≤ frame.length ∧ frame.length + 8 < maxBits ∧
    ∀ b ∈ (rest (remove0 frame)).take 5, b = false

theorem val_eq_zero (h : ∀ b ∈ l, b = false) : val l = 0 := by
  induction l with
  | nil => rfl
  | cons b l ih =>
    rw [val_cons, h b mem_cons_self, ih fun c hc => h c (mem_cons_of_mem b hc)]
    rfl

/-- The register behind a frame whose leftover bits are 0 where they are read. -/
theorem harmless_carry (hz : Harmless z)
    (h : ∀ b ∈ (rest d).take 5, b = false) : Harmless (carry z d) := by
  have hlow : val (rest d) % 32 = 0 := by
    rw [show (32 : Nat) = 2 ^ 5 from rfl, val_mod, val_eq_zero h]
  have hlt : val (rest d) < 128 := lt_of_lt_of_le (val_lt (rest d))
    (Nat.pow_le_pow_right (by decide) (Nat.le_of_lt_succ (rest_length_lt d)))
  unfold carry
  split
  · next hd =>
    rw [rest_of_lt hd] at hlow hlt
    refine ⟨Nat.or_lt_two_pow (n := 7) hlt hz.1, ?_⟩
    rw [show (32 : Nat) = 2 ^ 5 from rfl, Nat.or_mod_two_pow, show (2 : Nat) ^ 5 = 32 from rfl, hlow,
      hz.2, Nat.or_zero]
  · exact ⟨hlt, hlow⟩

/-- What is to be indicated for a content: nothing, or the octets behind the header octet with its
    closing flag and multiplex code. -/
def tell : List UInt8 → List Indication
  | [] => []
  | hdr :: payload =>
    [⟨payload, payload.length, decide (hdr.toNat &&& 1 = 1), (hdr.toNat >>> 1) &&& 0xf⟩]

/-- A harmless register changes none of the bits that are read from a header octet. -/
theorem header_or (hz : Harmless z) (hdr : UInt8) :
    (UInt8.ofNat (hdr.toNat ||| z)).toNat &&& 1 = hdr.toNat &&& 1 ∧
      ((UInt8.ofNat (hdr.toNat ||| z)).toNat >>> 1) &&& 0xf = (hdr.toNat >>> 1) &&& 0xf := by
  have hall : ∀ k < 4, ∀ n < 256, ((n ||| (32 * k)) % 256) &&& 1 = n &&& 1 ∧
      (((n ||| (32 * k)) % 256) >>> 1) &&& 0xf = (n >>> 1) &&& 0xf := by decide +kernel
  obtain ⟨hlt, hmod⟩ := hz
  have hk : z = 32 * (z / 32) := by omega
  have h := hall (z / 32) (by omega) hdr.toNat hdr.toNat_lt
  rw [← hk] at h
  rw [UInt8.toNat_ofNat']
  exact h

/-- **A content is indicated as it was sent.** -/
theorem told_eq (hz : Harmless z) {hdr : UInt8} {payload : List UInt8}
    (hsize : payload.length < 65536) (iPdu : List UInt8) :
    [told z (bits (hdr :: payload)) iPdu] = tell (hdr :: payload) := by
  have hmerge : merge z (bits (hdr :: payload)) = UInt8.ofNat (hdr.toNat ||| z) :: payload := by
    unfold merge
    rw [packed_bits]
  obtain ⟨hclosing, hmux⟩ := header_or hz hdr
  have hlen : ((UInt8.ofNat (hdr.toNat ||| z) :: payload).length + 65535) % 65536
      = payload.length := by
    rw [length_cons]
    omega
  simp only [told, hmerge, hlen, firstOctet, hclosing, hmux, tell, drop_succ_cons,
    drop_zero]

/-- A frame as it was sent: its content is indicated, and nothing is left behind. -/
theorem searchBits_content (content : List UInt8) (hsize : (frameOf content).length + 8 < maxBits)
    (hz : Harmless z) (zeroRemoved : List UInt8) (indicated : List Indication) :
    ∃ z' zeroRemoved', Harmless z' ∧
      searchBits (frameOf content ++ flag) (line [] [] z zeroRemoved indicated)
        = line [] [] z' zeroRemoved' (indicated ++ tell content) := by
  have hz256 : z < 256 := by
    have := hz.1
    omega
  have hframe := searchBits_frame (noFlag_insert0 (bits content)) hz256 zeroRemoved indicated hsize
  rcases content with _ | ⟨hdr, payload⟩
  · refine ⟨z, zeroRemoved, hz, ?_⟩
    rw [tell, append_nil]
    exact hframe
  · have hlen := length_remove0 (insert0 (bits (hdr :: payload)))
    rw [remove0_insert0, bits_length, length_cons] at hlen
    rw [if_pos (by omega), remove0_insert0] at hframe
    have hpayload : payload.length < 65536 := by
      unfold frameOf maxBits H223_MAX_DEMUX_PDU_SIZE at hsize
      omega
    rw [told_eq hz hpayload] at hframe
    refine ⟨_, _, harmless_carry hz ?_, hframe⟩
    rw [rest_bits]
    simp

/-- A frame that leaves nothing behind: one PDU is indicated for it. -/
theorem searchBits_leavesNothing (h : LeavesNothing frame)
    (hz : Harmless z) (zeroRemoved : List UInt8) (indicated : List Indication) :
    ∃ z' zeroRemoved' t, Harmless z' ∧
      searchBits (frame ++ flag) (line [] [] z zeroRemoved indicated)
        = line [] [] z' zeroRemoved' (indicated ++ [t]) := by
  obtain ⟨hno, h8, hsize, hleft⟩ := h
  have hz256 : z < 256 := by
    have := hz.1
    omega
  have hframe := searchBits_frame hno hz256 zeroRemoved indicated hsize
  rw [if_pos h8] at hframe
  exact ⟨_, _, _, harmless_carry hz hleft, hframe⟩

/-! ## 7. A session -/

/-- A content and the noise in front of its flag, on the line. -/
def noisyFrame (h : List UInt8 × List Bool) : List Bool := frameOf h.1 ++ h.2

/-- The line with noise: every frame, the noise, its flag. -/
def noisyLine (hits : List (List UInt8 × List Bool)) : List Bool := lineOf (hits.map noisyFrame)

/-- What the parser may make of a content: what was sent where there is no noise, and one PDU at
    most. -/
def Indicates (h : List UInt8 × List Bool) (t : List Indication) : Prop :=
  (h.2 = [] → t = tell h.1) ∧ t.length ≤ 1

/-- A frame that the buffer holds, without noise or leaving nothing behind. -/
def Good (h : List UInt8 × List Bool) : Prop :=
  (frameOf h.1).length + 8 < maxBits ∧ (h.2 = [] ∨ LeavesNothing (noisyFrame h))

theorem tell_length (content : List UInt8) : (tell content).length ≤ 1 := by
  cases content <;> simp [tell]

theorem searchBits_good {h : List UInt8 × List Bool} (hgood : Good h) (hz : Harmless z)
    (zeroRemoved : List UInt8) (indicated : List Indication) :
    ∃ z' zeroRemoved' t, Harmless z' ∧ Indicates h t ∧
      searchBits (noisyFrame h ++ flag) (line [] [] z zeroRemoved indicated)
        = line [] [] z' zeroRemoved' (indicated ++ t) := by
  obtain ⟨hsize, hleaves⟩ := hgood
  by_cases hnoise : h.2 = []
  · obtain ⟨z', zr', hz', hrun⟩ := searchBits_content h.1 hsize hz zeroRemoved indicated
    refine ⟨z', zr', tell h.1, hz', ⟨fun _ => rfl, tell_length h.1⟩, ?_⟩
    rw [noisyFrame, hnoise, append_nil]
    exact hrun
  · obtain ⟨z', zr', t, hz', hrun⟩ :=
      searchBits_leavesNothing (hleaves.resolve_left hnoise) hz zeroRemoved indicated
    exact ⟨z', zr', [t], hz', ⟨fun h0 => absurd h0 hnoise, Nat.le_refl 1⟩, hrun⟩

variable {hits : List (List UInt8 × List Bool)}

/-- **Frames one after another.** -/
theorem searchBits_hits (hgood : ∀ h ∈ hits, Good h)
    (hz : Harmless z) (zeroRemoved : List UInt8) (indicated : List Indication) :
    ∃ z' zeroRemoved' told, Harmless z' ∧ Forall₂ Indicates hits told ∧
      searchBits (noisyLine hits) (line [] [] z zeroRemoved indicated)
        = line [] [] z' zeroRemoved' (indicated ++ told.flatten) := by
  induction hits generalizing z zeroRemoved indicated with
  | nil => exact ⟨z, zeroRemoved, [], hz, Forall₂.nil, by simp [noisyLine, searchBits]⟩
  | cons h hits ih =>
    obtain ⟨z₁, zr₁, t, hz₁, ht, h₁⟩ :=
      searchBits_good (hgood h mem_cons_self) hz zeroRemoved indicated
    obtain ⟨z₂, zr₂, told, hz₂, htold, h₂⟩ :=
      ih (fun h' hh => hgood h' (mem_cons_of_mem h hh)) hz₁ zr₁ (indicated ++ t)
    refine ⟨z₂, zr₂, t :: told, hz₂, Forall₂.cons ht htold, ?_⟩
    rw [noisyLine, map_cons, lineOf_cons, searchBits_append, h₁]
    rw [noisyLine] at h₂
    rw [h₂, flatten_cons, append_assoc]

/-- The full octets of a line end inside the flag of its last frame; that frame, without a content,
    may be indicated or not. -/
theorem searchBits_packed {h : List UInt8 × List Bool}
    (hgood : ∀ h' ∈ hits ++ [h], Good h') (hlast : h.1 = []) :
    ∃ told, Forall₂ Indicates (hits ++ [h]) told ∧
      (searchBits (bits (packed (noisyLine (hits ++ [h])))) init).indicated = told.flatten := by
  have hinit : init = line [] [] 0 [] [] := by decide
  obtain ⟨z, zr, told, hz, htold, hrun⟩ := searchBits_hits
    (fun h' hh => hgood h' (mem_append_left _ hh)) (z := 0) ⟨by decide, by decide⟩ [] []
  have hline : noisyLine (hits ++ [h]) = noisyLine hits ++ (noisyFrame h ++ flag) := by
    simp [noisyLine]
  -- what is read behind the frames before the last one
  have hsplit := bits_packed (noisyLine (hits ++ [h]))
  have hcut := rest_length_lt (noisyLine (hits ++ [h]))
  have hflag : (noisyFrame h ++ flag).length = (noisyFrame h).length + 8 := by
    rw [length_append]
    rfl
  have hlen := congrArg length hsplit
  rw [length_append, hline, length_append, hflag, ← hline] at hlen
  obtain ⟨l, hl⟩ : ∃ l, bits (packed (noisyLine (hits ++ [h]))) = noisyLine hits ++ l := by
    have hpre : noisyLine hits <+: bits (packed (noisyLine (hits ++ [h]))) := by
      have hfront : noisyLine hits <+: noisyLine (hits ++ [h]) := ⟨_, hline.symm⟩
      have hoctets : bits (packed (noisyLine (hits ++ [h]))) <+: noisyLine (hits ++ [h]) :=
        ⟨_, hsplit⟩
      exact prefix_of_prefix_length_le hfront hoctets (by omega)
    obtain ⟨l, hl⟩ := hpre
    exact ⟨l, hl.symm⟩
  have hltotal : l ++ rest (noisyLine (hits ++ [h])) = noisyFrame h ++ flag := by
    rw [hl, hline, append_assoc] at hsplit
    rw [hline]
    exact append_cancel_left hsplit
  rw [hl, searchBits_append, hinit, hrun, nil_append]
  have hlastGood := hgood h (mem_append_right _ (mem_singleton_self h))
  by_cases hfull : rest (noisyLine (hits ++ [h])) = []
  · -- the last flag is complete
    rw [hfull, append_nil] at hltotal
    obtain ⟨z', zr', t, hz', ht, hrun'⟩ := searchBits_good hlastGood hz zr told.flatten
    refine ⟨told ++ [t], rel_append htold (Forall₂.cons ht Forall₂.nil), ?_⟩
    rw [hltotal, hrun']
    simp [line, Rx.holding]
  · have hno : NoFlag (noisyFrame h) := by
      rcases hlastGood.2 with h0 | hleaves
      · rw [noisyFrame, h0, append_nil]
        exact noFlag_insert0 _
      · exact hleaves.1
    have hshort : (noisyFrame h).length + 8 < maxBits := by
      rcases hlastGood.2 with h0 | hleaves
      · rw [noisyFrame, h0, append_nil]
        exact hlastGood.1
      · exact hleaves.2.2.1
    have hrestpos := length_pos_of_ne_nil hfull
    have hllen := congrArg length hltotal
    rw [length_append] at hllen
    have hrun' := searchBits_prefix hno z zr told.flatten ⟨_, hltotal⟩ (by omega) hshort
    refine ⟨told ++ [[]], rel_append htold (Forall₂.cons ?_ Forall₂.nil), ?_⟩
    · refine ⟨fun _ => ?_, by simp⟩
      rw [hlast]
      rfl
    · rw [hrun']
      simp [line, Rx.holding]

/-! ## 8. The main result -/

/-- What is to be indicated: the PDU with its multiplex code, and behind one with the packet marker
    an empty PDU with the closing flag and the multiplex code 0. -/
def Sent.indications : Sent → List Indication
  | .pdu payload MuxTblNum pm =>
    ⟨payload.flatten, payload.flatten.length, false, MuxTblNum⟩ ::
      if pm then [⟨[], 0, true, 0⟩] else []
  | .stuffing _ => []

theorem tell_contents {s : Sent} (hs : s.WellFormed) :
    (s.contents.map tell).flatten = s.indications := by
  cases s with
  | pdu payload MuxTblNum pm =>
    have hheader : ∀ mt < 16, ((header mt).getD 0).toNat &&& 1 = 0 ∧
        (((header mt).getD 0).toNat >>> 1) &&& 0xf = mt := by decide
    obtain ⟨hclosing, hmux⟩ := hheader MuxTblNum hs.1
    cases pm <;> simp [contents, Sent.indications, tell, hclosing, hmux]
  | stuffing n => simp [contents, Sent.indications, tell]

variable {sent : List Sent}

/-- All that is sent ends with a flag that nothing stands in front of. -/
theorem contents_getLast {init : List (List UInt8)} {content : List UInt8}
    (h : sent.flatMap contents = init ++ [content]) : content = [] := by
  have hone : ∀ s : Sent, ∀ c ∈ s.contents.getLast?, c = [] := by
    intro s c hc
    cases s with
    | pdu payload MuxTblNum pm =>
      rw [contents, getLast?_concat] at hc
      exact (Option.mem_some.mp hc).symm
    | stuffing n =>
      exact eq_of_mem_replicate (mem_of_getLast? hc)
  have hall : ∀ sent : List Sent, ∀ c ∈ (sent.flatMap contents).getLast?, c = [] := by
    intro sent
    induction sent with
    | nil => simp
    | cons s sent ih =>
      intro c hc
      rw [flatMap_cons, getLast?_append, Option.mem_def, Option.or_eq_some_iff] at hc
      rcases hc with hc | ⟨-, hc⟩
      · exact ih c hc
      · exact hone s c hc
  refine hall sent content ?_
  rw [h, getLast?_concat]
  rfl

/-- The buffer of the parser holds every frame that the buffer of the sender holds. -/
theorem frame_length (hsent : ∀ s ∈ sent, s.WellFormed) {content : List UInt8}
    (h : content ∈ sent.flatMap contents) : (frameOf content).length + 8 < maxBits := by
  obtain ⟨s, hs, hc⟩ := mem_flatMap.mp h
  have hwf := hsent s hs
  cases s with
  | pdu payload MuxTblNum pm =>
    have hin : ∀ {frames : List (List Bool)} {frame : List Bool}, frame ∈ frames →
        frame.length ≤ (lineOf frames).length := by
      intro frames frame hmem
      obtain ⟨a, b, rfl⟩ := append_of_mem hmem
      simp
      omega
    have hle := hin (mem_map_of_mem (f := frameOf) hc)
    have hmax := hwf.2
    unfold frames at hmax
    unfold H223_MAX_MUX_PDU_SIZE at hmax
    unfold maxBits H223_MAX_DEMUX_PDU_SIZE
    omega
  | stuffing n =>
    rw [eq_of_mem_replicate hc]
    decide

/-- The parser over the octets of a line with noise. -/
theorem parse_hits (hsent : ∀ s ∈ sent, s.WellFormed)
    (hhits : hits.map Prod.fst = sent.flatMap contents)
    (hnoise : ∀ h ∈ hits, h.2 = [] ∨ LeavesNothing (noisyFrame h)) {bufs : List (List UInt8)}
    (hbufs : bufs.flatten = packed (noisyLine hits)) :
    ∃ told, Forall₂ Indicates hits told ∧
      (bufs.foldl Parse init).indicated = told.flatten := by
  rw [foldl_Parse_eq, hbufs]
  rcases eq_nil_or_concat hits with rfl | ⟨hits, h, rfl⟩
  · exact ⟨[], Forall₂.nil, rfl⟩
  · rw [concat_eq_append] at hhits hnoise ⊢
    have hgood : ∀ h' ∈ hits ++ [h], Good h' := by
      intro h' hh
      refine ⟨frame_length hsent ?_, hnoise h' hh⟩
      rw [← hhits]
      exact mem_map_of_mem hh
    rw [map_append, map_singleton] at hhits
    exact searchBits_packed hgood (contents_getLast hhits.symm)

/-- **A session.** The sender completes any PDUs and stuffing; divided into buffers in any way,
    what it sends is indicated PDU by PDU. With noise in front of any of the flags, each frame that
    is hit makes one PDU at most and every other one is indicated as it was sent, as long as the
    frames that are hit leave nothing behind. -/
theorem parse_hdlc_session {sent : List Sent} (hsent : ∀ s ∈ sent, s.WellFormed) :
    ∃ octets tx, sendAll sent Tx.init = some (octets, tx) ∧
      (∀ bufs : List (List UInt8), bufs.flatten = octets →
        (bufs.foldl Parse init).indicated = (sent.map Sent.indications).flatten) ∧
      (∀ hits : List (List UInt8 × List Bool), hits.map Prod.fst = sent.flatMap contents →
        (∀ h ∈ hits, h.2 = [] ∨ LeavesNothing (noisyFrame h)) →
        ∀ bufs : List (List UInt8), bufs.flatten = packed (noisyLine hits) →
          ∃ told, List.Forall₂ Indicates hits told ∧
            (bufs.foldl Parse init).indicated = told.flatten) := by
  obtain ⟨tx, hsend⟩ := sendAll_line ready_init hsent
  refine ⟨_, tx, hsend, fun bufs hbufs => ?_, fun hits hhits hnoise bufs hbufs =>
    parse_hits hsent hhits hnoise hbufs⟩
  -- without noise
  have hclean : noisyLine ((sent.flatMap contents).map fun c => (c, []))
      = lineOf (sent.flatMap frames) := by
    have hframes : sent.flatMap frames = (sent.flatMap contents).map frameOf := by
      rw [map_flatMap]
      rfl
    rw [hframes, noisyLine, List.map_map]
    congr 1
    refine map_congr_left fun c _ => ?_
    rw [Function.comp_apply, noisyFrame, append_nil]
  have hfst : ((sent.flatMap contents).map fun c => (c, ([] : List Bool))).map Prod.fst
      = sent.flatMap contents := by
    rw [List.map_map]
    exact List.map_id _
  obtain ⟨told, htold, hparse⟩ := parse_hits hsent hfst
    (by intro h hh; obtain ⟨c, -, rfl⟩ := List.mem_map.mp hh; exact Or.inl rfl)
    (by rw [hbufs, hclean, nil_append])
  have htell : ∀ {contents : List (List UInt8)} {told : List (List Indication)},
      List.Forall₂ Indicates (contents.map fun c => (c, [])) told → told = contents.map tell := by
    intro contents
    induction contents with
    | nil =>
      intro told h
      cases h
      rfl
    | cons c contents ih =>
      intro told h
      rcases h with _ | ⟨hc, hrest⟩
      rw [hc.1 rfl, ih hrest]
      rfl
  rw [hparse, htell htold]
  clear hsend hbufs hclean hfst hparse htold
  induction sent with
  | nil => rfl
  | cons s sent ih =>
    rw [flatMap_cons, map_append, flatten_append, map_cons, flatten_cons,
      tell_contents (hsent s mem_cons_self), ih fun t ht => hsent t (mem_cons_of_mem s ht)]

/-- A PDU of two octets, octet by octet, and with nine bits of noise between its first two flags. -/
theorem parse_hdlc_session_noise :
    (([126, 126, 70, 1, 2, 126, 126].map fun octet => [octet]).foldl Parse init).indicated
      = [⟨[1, 2], 2, false, 3⟩] ∧
    ∃ told, List.Forall₂ Indicates
        [([], []), ([], List.replicate 9 false), ([70, 1, 2], []), ([], [])] told ∧
      ([packed (noisyLine
        [([], []), ([], List.replicate 9 false), ([70, 1, 2], []), ([], [])])].foldl Parse
          init).indicated = told.flatten := by
  have hwf : ∀ s ∈ [pdu [[1, 2]] 3 false], s.WellFormed := by
    intro s hs
    obtain rfl := mem_singleton.mp hs
    exact ⟨by decide, by decide⟩
  obtain ⟨octets, tx, hsend, hclean, hnoisy⟩ := parse_hdlc_session hwf
  have hoctets : (sendAll [pdu [[1, 2]] 3 false] Tx.init).map Prod.fst
      = some [126, 126, 70, 1, 2, 126, 126] := by decide +kernel
  rw [hsend] at hoctets
  cases hoctets
  refine ⟨hclean _ rfl, hnoisy _ (by decide +kernel) ?_ _ (append_nil _)⟩
  intro h hh
  simp only [mem_cons, not_mem_nil, or_false] at hh
  rcases hh with rfl | rfl | rfl | rfl
  · exact Or.inl rfl
  · exact Or.inr ⟨by decide +kernel, by decide +kernel, by decide +kernel, by decide +kernel⟩
  · exact Or.inl rfl
  · exact Or.inl rfl

/-- A PDU with the packet marker is indicated as two, the second one empty and with the multiplex
    code 0; and noise between two flags alters the PDU behind it: three bits, too few for an octet,
    stand in front of its header, and a ninth bit gives it the closing flag. -/
theorem parse_marker_and_leftover_bits :
    ((sendAll [pdu [[1]] 2 true] Tx.init).map fun sent => (Parse init sent.1).indicated)
      = some [⟨[1], 1, false, 2⟩, ⟨[], 0, true, 0⟩] ∧
    (Parse init (packed (noisyLine
      [([], []), ([], [false, false, false]), ([70, 1, 2], []), ([], [])]))).indicated
      = [⟨[10, 16], 2, false, 8⟩] ∧
    (Parse init (packed (noisyLine
      [([], []), ([], List.replicate 8 false ++ [true]), ([70, 1, 2], []), ([], [])]))).indicated
      = [⟨[], 0, false, 0⟩, ⟨[1, 2], 2, true, 3⟩] := by
  decide +kernel

end OpenCore.H223.Level0
