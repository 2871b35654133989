/-
  File:      OpenCore/H223/Level0.lean
  Subject:   LEVEL 0: MUX-PDUS IN HDLC FRAMES, the sender and the parser bit by bit.

  The sender writes flag, flag, header, payload, flag, flag as a stream of bits, lowest bit first,
  with a 0 inserted after five 1s between the flags; it carries the bits of an unfinished octet and
  the bits that may still need a 0 behind them from one PDU to the next. The parser slides a window
  of eight bits over what it receives, collects the bits in front of a flag and removes the
  inserted 0s when the flag has come.

  **Main result**: `CompletePdu_line`.
-/
import OpenCore.Lib.Bits
import OpenCore.Lib.ZeroBits

namespace OpenCore.H223.Level0

open Bits ZeroBits List

/-! ## 1. The sender -/

/-- `HDLC`: the flag. -/
def HDLC : Nat := 0x7e

/-- `H223_MAX_MUX_PDU_SIZE`: the size of the buffer the frame of a PDU is written to. -/
def H223_MAX_MUX_PDU_SIZE : Nat := 512

def iHecCrc : List Nat :=
  [0x00, 0x05, 0x07, 0x02, 0x03, 0x06, 0x04, 0x01,
   0x06, 0x03, 0x01, 0x04, 0x05, 0x00, 0x02, 0x07]

/-- The sending half of `Level0PduParcom`: the unfinished octet, the bits not yet checked for five
    1s, and the octets written from the start of the buffer. -/
structure Tx where
  iTxByte0 : Nat
  iTxByte0Pos : Nat
  iTxCheck0 : Nat
  iTxCheck0Pos : Nat
  out : List UInt8
  deriving DecidableEq, Repr

/-- A new sender. -/
def Tx.init : Tx := ⟨0, 0, 0, 0, []⟩

/-- The loop of `AppendTxBits0`: the full octets are written out. -/
def writeOctets : Nat → Tx → Tx
  | 0, tx => tx
  | fuel + 1, tx =>
    if 8 ≤ tx.iTxByte0Pos then
      writeOctets fuel
        { tx with
          out := tx.out ++ [UInt8.ofNat tx.iTxByte0]
          iTxByte0 := tx.iTxByte0 >>> 8
          iTxByte0Pos := tx.iTxByte0Pos - 8 }
    else tx

/-- `AppendTxBits0`: bits to the output. -/
def AppendTxBits0 (num_bits bits : Nat) (tx : Tx) : Tx :=
  let tx := { tx with iTxByte0 := tx.iTxByte0 ||| (bits <<< tx.iTxByte0Pos) }
  let tx := { tx with iTxByte0Pos := tx.iTxByte0Pos + num_bits }
  writeOctets tx.iTxByte0Pos tx

/-- `AppendTxOctet`: an octet without a check, behind the bits still to be checked. -/
def AppendTxOctet (octet : Nat) (tx : Tx) : Tx :=
  let tx :=
    if tx.iTxCheck0Pos ≠ 0 then
      { AppendTxBits0 tx.iTxCheck0Pos tx.iTxCheck0 tx with iTxCheck0Pos := 0, iTxCheck0 := 0 }
    else tx
  AppendTxBits0 8 octet tx

/-- The loop of `Insert0Octet`: while five bits are there, five 1s and a 0, or one bit. -/
def insertLoop : Nat → Tx → Tx
  | 0, tx => tx
  | fuel + 1, tx =>
    if 5 ≤ tx.iTxCheck0Pos then
      if tx.iTxCheck0 &&& 0x1F = 0x1F then
        let tx := AppendTxBits0 1 0 (AppendTxBits0 5 (tx.iTxCheck0 &&& 0x1F) tx)
        insertLoop fuel
          { tx with iTxCheck0 := tx.iTxCheck0 >>> 5, iTxCheck0Pos := tx.iTxCheck0Pos - 5 }
      else
        let tx := AppendTxBits0 1 (tx.iTxCheck0 &&& 1) tx
        insertLoop fuel
          { tx with iTxCheck0 := tx.iTxCheck0 >>> 1, iTxCheck0Pos := tx.iTxCheck0Pos - 1 }
    else tx

/-- `Insert0Octet`: an octet through the check. -/
def Insert0Octet (octet num_bits_from_octet : Nat) (tx : Tx) : Tx :=
  let tx := { tx with iTxCheck0 := tx.iTxCheck0 ||| (octet <<< tx.iTxCheck0Pos) }
  let tx := { tx with iTxCheck0Pos := tx.iTxCheck0Pos + num_bits_from_octet }
  insertLoop tx.iTxCheck0Pos tx

/-- `Insert0`: a chunk of octets through the check. -/
def Insert0 (chunk : List UInt8) (tx : Tx) : Tx :=
  chunk.foldl (fun tx octet => Insert0Octet octet.toNat 8 tx) tx

/-- The header octet: the check bits and the multiplex code. -/
def header (MuxTblNum : Nat) : Option UInt8 := do
  let hec ← iHecCrc[MuxTblNum]?
  some (UInt8.ofNat ((hec <<< 5) ||| (MuxTblNum <<< 1)))

/-- The octets written, and the sender with the buffer handed over; more than the buffer holds are
    written outside it. -/
def handOver (tx : Tx) : Option (List UInt8 × Tx) :=
  if tx.out.length ≤ H223_MAX_MUX_PDU_SIZE then some (tx.out, { tx with out := [] }) else none

/-- `CompletePdu` of a payload in fragments: what it appends to the stream, and the sender after
    it. The packet marker goes into a frame of its own. -/
def CompletePdu (payload : List (List UInt8)) (MuxTblNum : Nat) (pm : Bool) (tx : Tx) :
    Option (List UInt8 × Tx) := do
  let hdr ← header MuxTblNum
  let tx := AppendTxOctet HDLC (AppendTxOctet HDLC tx)
  let tx := Insert0Octet hdr.toNat 8 tx
  let tx := payload.foldl (fun tx frag => Insert0 frag tx) tx
  let tx := AppendTxOctet HDLC tx
  let tx := if pm then AppendTxOctet HDLC (Insert0Octet 1 8 tx) else tx
  handOver (AppendTxOctet HDLC tx)

/-- `GetStuffing`: flags, one for each octet of the buffer. -/
def GetStuffing (max_size : Nat) (tx : Tx) : List UInt8 × Tx :=
  let tx := (List.range max_size).foldl (fun tx _ => AppendTxOctet HDLC tx) tx
  (tx.out, { tx with out := [] })

/-! ## 2. The parser -/

/-- `H223_MAX_DEMUX_PDU_SIZE`: the size of `iPdu`; `iPduEndPos` is its last octet. -/
def H223_MAX_DEMUX_PDU_SIZE : Nat := 1024

/-- A call of `MuxPduIndicate`: the octets behind the header octet, their number as `uint16`, the
    closing flag and the multiplex code. -/
structure Indication where
  payload : List UInt8
  size : Nat
  fClosing : Bool
  muxCode : Nat
  deriving DecidableEq, Repr

/-- The receiving half of `Level0PduParcom`: the window, the unfinished octet received, the window
    of the removal, the unfinished octet behind the removal, `iPdu` up to `iPduPos` and the octets
    written by the removal; and the PDUs indicated so far. -/
structure Rx where
  iRecvBits : Nat
  iNumRecvBits : Nat
  iRecvByte : Nat
  iRecvBytePos : Nat
  iRecvByte0 : Nat
  iRecvByte0Pos : Nat
  iZeroBitRemovedOutput : Nat
  iZeroBitRemovedOutputPos : Nat
  iPdu : List UInt8
  zeroRemoved : List UInt8
  indicated : List Indication
  deriving DecidableEq, Repr

/-- A new parser. -/
def Rx.init : Rx := ⟨0, 0, 0, 0, 0, 0, 0, 0, [], [], []⟩

/-- The loop of `AppendBits0`: the full octets are written. -/
def writeRemoved : Nat → Rx → Rx
  | 0, rx => rx
  | fuel + 1, rx =>
    if 8 ≤ rx.iZeroBitRemovedOutputPos then
      writeRemoved fuel
        { rx with
          zeroRemoved := rx.zeroRemoved ++ [UInt8.ofNat rx.iZeroBitRemovedOutput]
          iZeroBitRemovedOutput := rx.iZeroBitRemovedOutput >>> 8
          iZeroBitRemovedOutputPos := rx.iZeroBitRemovedOutputPos - 8 }
    else rx

/-- `AppendBits0`: bits behind the removal. -/
def AppendBits0 (num_bits bits : Nat) (rx : Rx) : Rx :=
  let rx := { rx with
    iZeroBitRemovedOutput :=
      rx.iZeroBitRemovedOutput ||| (bits <<< rx.iZeroBitRemovedOutputPos) }
  let rx := { rx with iZeroBitRemovedOutputPos := rx.iZeroBitRemovedOutputPos + num_bits }
  writeRemoved rx.iZeroBitRemovedOutputPos rx

/-- One bit through the removal: with six bits, five 1s without the bit behind them, or one bit. -/
def removeBit (cur_bit : Nat) (rx : Rx) : Rx :=
  let rx := { rx with
    iRecvByte0 := (rx.iRecvByte0 ||| (cur_bit <<< rx.iRecvByte0Pos)) % 256
    iRecvByte0Pos := rx.iRecvByte0Pos + 1 }
  if rx.iRecvByte0Pos = 6 then
    if rx.iRecvByte0 &&& 0x1F = 0x1F then
      { AppendBits0 5 0x1F rx with iRecvByte0Pos := 0, iRecvByte0 := 0 }
    else
      { AppendBits0 1 (rx.iRecvByte0 &&& 1) rx with
        iRecvByte0Pos := rx.iRecvByte0Pos - 1
        iRecvByte0 := rx.iRecvByte0 >>> 1 }
  else rx

/-- `Remove0Octet`: the lowest bits of an octet through the removal. -/
def Remove0Octet : Nat → Nat → Rx → Rx
  | _, 0, rx => rx
  | cur_byte, num_bits + 1, rx =>
    Remove0Octet (cur_byte >>> 1) num_bits (removeBit (cur_byte &&& 1) rx)

/-- The first octet of `iPdu` after the removal, which writes into the same buffer. -/
def firstOctet (zeroRemoved iPdu : List UInt8) : UInt8 :=
  match zeroRemoved, iPdu with
  | octet :: _, _ => octet
  | [], octet :: _ => octet
  | [], [] => 0

/-- The end of `Remove0`: the PDU is indicated, the buffer is empty. -/
def indicatePdu (rx : Rx) : Rx :=
  let octet := (firstOctet rx.zeroRemoved rx.iPdu).toNat
  { rx with
    indicated := rx.indicated ++
      [⟨rx.zeroRemoved.drop 1, (rx.zeroRemoved.length + 65535) % 65536, decide (octet &&& 1 = 1),
        (octet >>> 1) &&& 0xf⟩]
    iPdu := [] }

/-- `Remove0`: the bits received since the last flag without the inserted 0s. Bits that do not fill
    an octet are dropped, but not cleared. -/
def Remove0 (rx : Rx) : Rx :=
  let rx := { rx with zeroRemoved := [] }
  let rx : Rx := rx.iPdu.foldl (fun rx octet => Remove0Octet octet.toNat 8 rx) rx
  let rx : Rx :=
    if rx.iRecvBytePos ≠ 0 then
      { Remove0Octet (rx.iRecvByte % 256) rx.iRecvBytePos rx with iRecvBytePos := 0, iRecvByte := 0 }
    else rx
  let rx : Rx :=
    if rx.iRecvByte0Pos ≠ 0 then
      { AppendBits0 rx.iRecvByte0Pos rx.iRecvByte0 rx with iRecvByte0Pos := 0, iRecvByte0 := 0 }
    else rx
  let rx := if rx.iZeroBitRemovedOutputPos ≠ 0 then { rx with iZeroBitRemovedOutputPos := 0 } else rx
  indicatePdu rx

/-- `AppendBit`: a bit to `iPdu`; where the last octet of the buffer is reached, what is there is
    indicated. -/
def AppendBit (c : Nat) (rx : Rx) : Rx :=
  let rx := { rx with
    iRecvByte := rx.iRecvByte ||| (c <<< rx.iRecvBytePos)
    iRecvBytePos := rx.iRecvBytePos + 1 }
  if rx.iRecvBytePos = 8 then
    let rx := if rx.iPdu.length = H223_MAX_DEMUX_PDU_SIZE - 1 then Remove0 rx else rx
    { rx with
      iPdu := rx.iPdu ++ [UInt8.ofNat rx.iRecvByte]
      iRecvByte := 0
      iRecvBytePos := 0 }
  else rx

/-- The inner loop of `SearchForHdlcFlag`: one bit into the window. -/
def searchBit (cur_bit : Nat) (rx : Rx) : Rx :=
  let rx := { rx with
    iRecvBits := (rx.iRecvBits ||| (cur_bit <<< rx.iNumRecvBits)) % 256
    iNumRecvBits := rx.iNumRecvBits + 1 }
  if rx.iNumRecvBits = 8 then
    if rx.iRecvBits &&& HDLC = HDLC then
      let rx := if rx.iPdu.length ≠ 0 then Remove0 rx else rx
      { rx with iNumRecvBits := 0, iRecvBits := 0 }
    else
      let rx := AppendBit (rx.iRecvBits &&& 1) rx
      { rx with iRecvBits := rx.iRecvBits >>> 1, iNumRecvBits := rx.iNumRecvBits - 1 }
  else rx

/-- The bits of an octet, lowest first. -/
def searchOctet : Nat → Nat → Rx → Rx
  | _, 0, rx => rx
  | cur_byte, num_bits + 1, rx => searchOctet (cur_byte >>> 1) num_bits (searchBit (cur_byte &&& 1) rx)

/-- `Parse`: `SearchForHdlcFlag` in a buffer. -/
def Parse (rx : Rx) (bsbuf : List UInt8) : Rx :=
  bsbuf.foldl (fun rx octet => searchOctet octet.toNat 8 rx) rx

/-! ## 3. The sender's stream -/

/-- The bits written since the buffer was begun, `line`, and those not yet checked, `w`. -/
structure Tx.Line (tx : Tx) (line w : List Bool) : Prop where
  pending : ∃ q : List Bool, q.length < 8 ∧ tx.iTxByte0 = val q ∧ tx.iTxByte0Pos = q.length ∧
    bits tx.out ++ q = line
  check : tx.iTxCheck0 = val w
  checkPos : tx.iTxCheck0Pos = w.length

theorem ofNat_val (l : List Bool) : UInt8.ofNat (val l) = octet l := by
  refine UInt8.toNat_inj.mp ?_
  rw [octet, ← val_mod, UInt8.toNat_ofNat', UInt8.toNat_ofNat', Nat.mod_mod]

variable {tx : Tx}

/-- The full octets of the register are written. -/
theorem writeOctets_eq {fuel : Nat} {l : List Bool} (hfuel : l.length ≤ fuel)
    (hval : tx.iTxByte0 = val l) (hpos : tx.iTxByte0Pos = l.length) :
    writeOctets fuel tx = { tx with
      out := tx.out ++ packed l
      iTxByte0 := val (rest l)
      iTxByte0Pos := (rest l).length } := by
  induction fuel generalizing tx l with
  | zero =>
    obtain rfl : l = [] := eq_nil_of_length_eq_zero (by omega)
    rcases tx with ⟨b, p, c, cp, out⟩
    simp only at hval hpos
    simp [writeOctets, packed_of_lt, rest_of_lt, hval, hpos]
  | succ fuel ih =>
    rw [writeOctets]
    by_cases h8 : 8 ≤ l.length
    · rw [if_pos (by omega), ih (l := l.drop 8) (by simp; omega)
        (by simp [hval, val_shiftRight]) (by simp [hpos])]
      simp [hval, ofNat_val, packed_cons h8, rest_drop h8]
    · rw [if_neg (by omega)]
      rcases tx with ⟨b, p, c, cp, out⟩
      simp only at hval hpos
      simp [packed_of_lt (by omega : l.length < 8), rest_of_lt (by omega : l.length < 8), hval, hpos]

variable {line : List Bool}

variable {w : List Bool}

theorem line_AppendTxBits0 (h : tx.Line line w) (l : List Bool) :
    (AppendTxBits0 l.length (val l) tx).Line (line ++ l) w := by
  obtain ⟨⟨q, hq, hval, hpos, hline⟩, hcheck, hcheckPos⟩ := h
  unfold AppendTxBits0
  rw [writeOctets_eq (l := q ++ l) (by simp [hpos]) (by simp [hval, hpos, or_shiftLeft])
    (by simp [hpos])]
  refine ⟨⟨rest (q ++ l), rest_length_lt _, rfl, rfl, ?_⟩, hcheck, hcheckPos⟩
  simp only [bits_append, append_assoc]
  rw [bits_packed, ← hline, append_assoc]

/-- The flag, behind the bits that were to be checked. -/
theorem line_flag (h : tx.Line line w) :
    (AppendTxOctet HDLC tx).Line (line ++ w ++ flag) [] := by
  have hflag : ∀ {tx : Tx} {line : List Bool}, tx.Line line [] →
      (AppendTxBits0 8 HDLC tx).Line (line ++ flag) [] := fun hl => line_AppendTxBits0 hl flag
  unfold AppendTxOctet
  by_cases hw : w = []
  · subst hw
    rw [if_neg (by rw [h.checkPos]; decide), append_nil]
    exact hflag h
  · have hpos : tx.iTxCheck0Pos ≠ 0 := by
      rw [h.checkPos]
      exact fun h0 => hw (eq_nil_of_length_eq_zero h0)
    rw [if_pos hpos, h.check, h.checkPos]
    have hl := line_AppendTxBits0 h w
    exact hflag ⟨hl.pending, rfl, rfl⟩

theorem val_and_ones (h : 5 ≤ w.length) :
    val w &&& 0x1F = 0x1F ↔ w.take 5 = ones := by
  rw [show (0x1F : Nat) = 2 ^ 5 - 1 from rfl, val_and]
  refine ⟨fun hv => val_inj (by simp [ones, h]) (hv.trans (by decide)), fun hw => ?_⟩
  rw [hw]
  decide

/-- Bits that have been checked are shifted out. -/
theorem line_consume (h : tx.Line line w) (n : Nat) :
    { tx with iTxCheck0 := tx.iTxCheck0 >>> n, iTxCheck0Pos := tx.iTxCheck0Pos - n }.Line line
      (w.drop n) :=
  ⟨h.pending, by rw [← val_shiftRight, ← h.check], by rw [length_drop, ← h.checkPos]⟩

/-- **The check**: what is written and what is still to be checked are, stuffed, what they were. -/
theorem line_insertLoop {fuel : Nat} (hfuel : w.length ≤ fuel)
    (h : tx.Line line w) : ∃ line' w', (insertLoop fuel tx).Line line' w' ∧ w'.length < 5 ∧
      ∀ m, line' ++ insert0 (w' ++ m) = line ++ insert0 (w ++ m) := by
  induction fuel generalizing tx line w with
  | zero => exact ⟨line, w, h, by omega, fun _ => rfl⟩
  | succ fuel ih =>
    rw [insertLoop]
    by_cases h5 : 5 ≤ w.length
    · rw [if_pos (by rw [h.checkPos]; exact h5), h.check]
      by_cases hones : w.take 5 = ones
      · -- five 1s and a 0
        have hmask : val w &&& 0x1F = val ones := (val_and_ones h5).mpr hones
        rw [if_pos ((val_and_ones h5).mpr hones), hmask]
        have h₁ := line_AppendTxBits0 (line_AppendTxBits0 h ones) [false]
        have hw : w = ones ++ w.drop 5 := by
          rw [← hones, take_append_drop]
        obtain ⟨line', w', hl, hlt, hm⟩ := ih (by simp; omega) (line_consume h₁ 5)
        refine ⟨line', w', hl, hlt, fun m => ?_⟩
        rw [hm]
        conv_rhs => rw [hw]
        simp [insert0_ones]
      · -- one bit
        rw [if_neg (fun hmask => hones ((val_and_ones h5).mp hmask))]
        obtain ⟨b, w₀, rfl⟩ := exists_cons_of_length_pos (l := w) (by omega)
        have hbit : val (b :: w₀) &&& 1 = val [b] := val_and 1 (b :: w₀)
        rw [hbit]
        have h₁ := line_AppendTxBits0 h [b]
        obtain ⟨line', w', hl, hlt, hm⟩ := ih (by simp at hfuel ⊢; omega) (line_consume h₁ 1)
        refine ⟨line', w', hl, hlt, fun m => ?_⟩
        have hp : ¬ ones <+: b :: (w₀ ++ m) := by
          rintro ⟨t, ht⟩
          refine hones ?_
          have htake := congrArg (take 5) ht
          rw [take_left' (by rfl), ← cons_append, take_append_of_le_length h5] at htake
          exact htake.symm
        rw [hm, cons_append, insert0_cons hp, append_assoc, singleton_append]
        rfl
    · rw [if_neg (by rw [h.checkPos]; exact h5)]
      exact ⟨line, w, h, by omega, fun _ => rfl⟩

theorem line_Insert0Octet (h : tx.Line line w) (octet : UInt8) :
    ∃ line' w', (Insert0Octet octet.toNat 8 tx).Line line' w' ∧ w'.length < 5 ∧
      ∀ m, line' ++ insert0 (w' ++ m) = line ++ insert0 (w ++ (octetBits octet ++ m)) := by
  have hbits : (w ++ octetBits octet).length = w.length + 8 := by simp
  have hstart : { tx with
      iTxCheck0 := tx.iTxCheck0 ||| (octet.toNat <<< tx.iTxCheck0Pos)
      iTxCheck0Pos := tx.iTxCheck0Pos + 8 }.Line line (w ++ octetBits octet) :=
    ⟨h.pending, by rw [← or_shiftLeft, val_octetBits, ← h.check, ← h.checkPos],
      by rw [hbits, h.checkPos]⟩
  have hfuel : (w ++ octetBits octet).length ≤ tx.iTxCheck0Pos + 8 := by rw [hbits, h.checkPos]
  obtain ⟨line', w', hl, hlt, hm⟩ := line_insertLoop hfuel hstart
  refine ⟨line', w', hl, hlt, fun m => ?_⟩
  rw [hm, append_assoc]

/-- A chunk of octets through the check. -/
theorem line_Insert0 (h : tx.Line line w) (hw : w.length < 5)
    (chunk : List UInt8) : ∃ line' w', (Insert0 chunk tx).Line line' w' ∧ w'.length < 5 ∧
      ∀ m, line' ++ insert0 (w' ++ m) = line ++ insert0 (w ++ (bits chunk ++ m)) := by
  unfold Insert0
  induction chunk generalizing tx line w with
  | nil => exact ⟨line, w, h, hw, fun _ => rfl⟩
  | cons octet chunk ih =>
    obtain ⟨line₁, w₁, h₁, hw₁, hm₁⟩ := line_Insert0Octet h octet
    obtain ⟨line₂, w₂, h₂, hw₂, hm₂⟩ := ih h₁ hw₁
    refine ⟨line₂, w₂, h₂, hw₂, fun m => ?_⟩
    rw [hm₂, hm₁, bits_cons, append_assoc]

/-- The fragments of a payload through the check. -/
theorem line_payload (h : tx.Line line w) (hw : w.length < 5)
    (payload : List (List UInt8)) :
    ∃ line' w', (payload.foldl (fun tx frag => Insert0 frag tx) tx).Line line' w' ∧
      w'.length < 5 ∧
      ∀ m, line' ++ insert0 (w' ++ m) = line ++ insert0 (w ++ (bits payload.flatten ++ m)) := by
  induction payload generalizing tx line w with
  | nil => exact ⟨line, w, h, hw, fun _ => rfl⟩
  | cons frag payload ih =>
    obtain ⟨line₁, w₁, h₁, hw₁, hm₁⟩ := line_Insert0 h hw frag
    obtain ⟨line₂, w₂, h₂, hw₂, hm₂⟩ := ih h₁ hw₁
    refine ⟨line₂, w₂, h₂, hw₂, fun m => ?_⟩
    rw [hm₂, hm₁, flatten_cons, bits_append, append_assoc]

/-- What was checked bit by bit stands, stuffed, in front of the flag. -/
theorem line_flag_of_check {line' w' : List Bool} (line content : List Bool)
    (h : tx.Line line' w')
    (hw : w'.length < 5) (hm : ∀ m, line' ++ insert0 (w' ++ m) = line ++ insert0 (content ++ m)) :
    (AppendTxOctet HDLC tx).Line (line ++ insert0 content ++ flag) [] := by
  have hnil := hm []
  rw [append_nil, append_nil, insert0_of_lt hw] at hnil
  rw [← hnil]
  exact line_flag h

/-! ## 4. What is completed -/

/-- What is sent: a PDU, or stuffing into a buffer of some size. -/
inductive Sent where
  | pdu (payload : List (List UInt8)) (MuxTblNum : Nat) (pm : Bool)
  | stuffing (max_size : Nat)

/-- The octets of what is sent, and the sender after it. -/
def Sent.run : Sent → Tx → Option (List UInt8 × Tx)
  | .pdu payload MuxTblNum pm, tx => CompletePdu payload MuxTblNum pm tx
  | .stuffing max_size, tx => some (GetStuffing max_size tx)

/-- What stands in front of each of its flags: nothing, header and payload, or the octet with the
    packet marker. -/
def Sent.contents : Sent → List (List UInt8)
  | .pdu payload MuxTblNum pm =>
    [[], [], (header MuxTblNum).getD 0 :: payload.flatten] ++ (if pm then [[1]] else []) ++ [[]]
  | .stuffing max_size => List.replicate max_size []

/-- A content on the line. -/
def frameOf (content : List UInt8) : List Bool := insert0 (bits content)

/-- What stands on the line in front of each of its flags. -/
def Sent.frames (s : Sent) : List (List Bool) := s.contents.map frameOf

/-- Frames on the line, each with a flag behind it. -/
def lineOf (frames : List (List Bool)) : List Bool := frames.flatMap (· ++ flag)

@[simp] theorem lineOf_nil : lineOf [] = [] := rfl

@[simp] theorem lineOf_cons (frame : List Bool) (frames : List (List Bool)) :
    lineOf (frame :: frames) = frame ++ flag ++ lineOf frames := rfl

@[simp] theorem lineOf_append (frames more : List (List Bool)) :
    lineOf (frames ++ more) = lineOf frames ++ lineOf more := by
  simp [lineOf]

/-- A multiplex code of four bits, and a frame that the buffer holds. -/
def Sent.WellFormed : Sent → Prop
  | .pdu payload MuxTblNum pm =>
    MuxTblNum < 16 ∧
      (lineOf (Sent.pdu payload MuxTblNum pm).frames).length ≤ 8 * H223_MAX_MUX_PDU_SIZE
  | .stuffing _ => True

theorem header_isSome {MuxTblNum : Nat} (h : MuxTblNum < 16) :
    header MuxTblNum = some ((header MuxTblNum).getD 0) := by
  revert MuxTblNum
  decide

/-- Between two calls: nothing written, nothing to be checked, `q` pending. -/
def Tx.Ready (tx : Tx) (q : List Bool) : Prop := tx.Line q [] ∧ tx.out = []

theorem ready_init : Tx.init.Ready [] := ⟨⟨⟨[], by decide, rfl, rfl, rfl⟩, rfl, rfl⟩, rfl⟩

variable {q : List Bool}

theorem Tx.Ready.length_lt (h : tx.Ready q) : q.length < 8 := by
  obtain ⟨⟨⟨q', hlt, -, -, hq⟩, -, -⟩, hout⟩ := h
  rw [hout, bits_nil, nil_append] at hq
  rwa [← hq]

/-- What is handed over: the full octets; the rest is pending. -/
theorem handOver_eq (h : tx.Line line []) :
    tx.out = packed line ∧ { tx with out := [] }.Ready (rest line) := by
  obtain ⟨⟨q, hq, hval, hpos, hline⟩, hcheck, hcheckPos⟩ := h
  have hrest : rest line = q := by
    rw [← hline, rest_bits_append, rest_of_lt hq]
  have hout : tx.out = packed line := by
    rw [← hline, packed_bits_append, packed_of_lt hq, append_nil]
  refine ⟨hout, ⟨⟨rest line, rest_length_lt line, ?_, ?_, rfl⟩, hcheck, hcheckPos⟩, rfl⟩
  · rw [hrest]
    exact hval
  · rw [hrest]
    exact hpos

theorem line_stuffing (h : tx.Line line []) (n : Nat) :
    ((range n).foldl (fun tx _ => AppendTxOctet HDLC tx) tx).Line
      (line ++ lineOf (replicate n [])) [] := by
  induction n with
  | zero => simpa using h
  | succ n ih =>
    rw [range_succ, foldl_append, replicate_succ', lineOf_append, ← append_assoc]
    have hflag := line_flag ih
    rw [append_nil] at hflag
    simpa using hflag

/-- **What a call appends to the stream**: the octets that its frames fill, behind the bits that
    were pending, and the bits left over are pending again. -/
theorem CompletePdu_line (h : tx.Ready q) {s : Sent}
    (hs : s.WellFormed) : ∃ octets tx', s.run tx = some (octets, tx') ∧
      octets = packed (q ++ lineOf s.frames) ∧ tx'.Ready (rest (q ++ lineOf s.frames)) := by
  cases s with
  | pdu payload MuxTblNum pm =>
    obtain ⟨hmt, hsize⟩ := hs
    -- two flags, the header, the payload and a flag
    have h₂ := line_flag (line_flag h.1)
    simp only [append_nil] at h₂
    obtain ⟨line₃, w₃, h₃, hw₃, hm₃⟩ := line_Insert0Octet h₂ ((header MuxTblNum).getD 0)
    obtain ⟨line₄, w₄, h₄, hw₄, hm₄⟩ := line_payload h₃ hw₃ payload
    have h₅ := line_flag_of_check (q ++ flag ++ flag)
      (octetBits ((header MuxTblNum).getD 0) ++ bits payload.flatten) h₄ hw₄ fun m => by
        rw [hm₄, hm₃, nil_append, append_assoc (octetBits _)]
    -- the packet marker in a frame of its own
    obtain ⟨tx₆, htx₆, h₆⟩ : ∃ tx₆ : Tx, tx₆ = (if pm then
        AppendTxOctet HDLC (Insert0Octet 1 8 (AppendTxOctet HDLC
          (payload.foldl (fun tx frag => Insert0 frag tx) (Insert0Octet
            ((header MuxTblNum).getD 0).toNat 8 (AppendTxOctet HDLC (AppendTxOctet HDLC tx))))))
      else AppendTxOctet HDLC
          (payload.foldl (fun tx frag => Insert0 frag tx) (Insert0Octet
            ((header MuxTblNum).getD 0).toNat 8 (AppendTxOctet HDLC (AppendTxOctet HDLC tx))))) ∧
      tx₆.Line (q ++ lineOf ([[], [],
        insert0 (octetBits ((header MuxTblNum).getD 0) ++ bits payload.flatten)]
          ++ (if pm then [insert0 (octetBits 1)] else []))) [] := by
      refine ⟨_, rfl, ?_⟩
      cases pm with
      | false => simpa using h₅
      | true =>
        obtain ⟨line₆, w₆, h₆, hw₆, hm₆⟩ := line_Insert0Octet h₅ 1
        have h₇ := line_flag_of_check _ (octetBits 1) h₆ hw₆ fun m => by
          rw [hm₆, nil_append]
        simpa using h₇
    have h₇ := line_flag h₆
    rw [append_nil] at h₇
    have hline : q ++ lineOf ([[], [],
        insert0 (octetBits ((header MuxTblNum).getD 0) ++ bits payload.flatten)]
          ++ (if pm then [insert0 (octetBits 1)] else [])) ++ flag
        = q ++ lineOf (Sent.pdu payload MuxTblNum pm).frames := by
      cases pm <;> simp [Sent.frames, Sent.contents, frameOf, insert0]
    rw [hline] at h₇
    obtain ⟨hout, hready⟩ := handOver_eq h₇
    refine ⟨_, _, ?_, hout, hready⟩
    have hfits : (AppendTxOctet HDLC tx₆).out.length ≤ H223_MAX_MUX_PDU_SIZE := by
      have hq := h.length_lt
      rw [hout, packed_length, length_append]
      simp only [H223_MAX_MUX_PDU_SIZE] at hsize ⊢
      omega
    rw [Sent.run, CompletePdu, header_isSome hmt]
    simp only [Option.bind_eq_bind, Option.bind_some, ← htx₆, handOver, if_pos hfits]
  | stuffing n =>
    have hframes : (Sent.stuffing n).frames = replicate n [] := by
      simp [Sent.frames, Sent.contents, frameOf, insert0]
    obtain ⟨hout, hready⟩ := handOver_eq (line_stuffing h.1 n)
    rw [hframes]
    exact ⟨_, _, rfl, hout, hready⟩

/-- All that is sent, one after another. -/
def sendAll : List Sent → Tx → Option (List UInt8 × Tx)
  | [], tx => some ([], tx)
  | s :: sent, tx => do
    let (octets, tx) ← s.run tx
    let (more, tx) ← sendAll sent tx
    some (octets ++ more, tx)

/-- **The whole stream**: the octets that all frames fill. -/
theorem sendAll_line (h : tx.Ready q) {sent : List Sent}
    (hsent : ∀ s ∈ sent, s.WellFormed) : ∃ tx', sendAll sent tx
      = some (packed (q ++ lineOf (sent.flatMap Sent.frames)), tx') := by
  induction sent generalizing tx q with
  | nil =>
    refine ⟨tx, ?_⟩
    simp [sendAll, packed_of_lt h.length_lt]
  | cons s sent ih =>
    obtain ⟨octets, tx', hrun, rfl, hready⟩ := CompletePdu_line h (hsent s mem_cons_self)
    obtain ⟨tx'', hall⟩ := ih hready fun t ht => hsent t (mem_cons_of_mem s ht)
    refine ⟨tx'', ?_⟩
    rw [sendAll, hrun]
    simp only [Option.bind_eq_bind, Option.bind_some, hall, flatMap_cons, lineOf_append]
    rw [← append_assoc q, packed_append (q ++ lineOf s.frames)]

end OpenCore.H223.Level0
