/-
  File:      OpenCore/H223/Level2.lean
  Subject:   H.223 LEVEL 2 FRAMING: MUX-PDUs with a Golay-coded header that counts the payload.

  Every PDU and every piece of stuffing starts with a flag and a header of three bytes (four with
  the optional header). The packet marker of a PDU is told by the flag of what is sent next: that
  flag is complemented. The parser indicates a PDU when it finds the next flag.

  The Golay tables are a parameter: the encoder's table gives 24-bit codes, and the decoder gives
  an uncorrupted code back without errors.

  **Main result**: `parse_header_session`.
-/
import OpenCore.Lib.Run

namespace OpenCore.H223.Level2

open List

variable (iEncTab : Nat → Nat) (GolayDec : Nat → Nat × Nat)

/-! ## 1. The sender -/

/-- `iHecCrc`: the error code of a multiplex code in the optional header. -/
def iHecCrc (muxCode : Nat) : Nat :=
  [0x00, 0x05, 0x07, 0x02, 0x03, 0x06, 0x04, 0x01,
   0x06, 0x03, 0x01, 0x04, 0x05, 0x00, 0x02, 0x07].getD muxCode 0

/-- The flag, or the complemented flag. -/
def flag (closing : Bool) : List UInt8 := if closing then [0x1e, 0xb2] else [0xe1, 0x4d]

/-- The three bytes of a Golay code. -/
def codeBytes (code : Nat) : List UInt8 :=
  [UInt8.ofNat (code / 4096 % 256),
   UInt8.ofNat (code / 1048576 % 16 + code % 16 * 16),
   UInt8.ofNat (code / 16 % 256)]

/-- The sender's state. -/
structure Sender where
  iOh : Bool
  iClosingNext : Bool
  iPrevMuxTblNum : Nat
  iPrevPm : Bool
  deriving DecidableEq, Repr

/-- The constructor, as far as the sender is concerned. -/
def Sender.init (iOh : Bool) : Sender where
  iOh := iOh
  iClosingNext := false
  iPrevMuxTblNum := 0
  iPrevPm := false

/-- The size of flag and header. -/
def headerSz (iOh : Bool) : Nat := if iOh then 6 else 5

/-- The optional header: the multiplex code and the packet marker of what was sent before. -/
def Sender.optionalHeader (s : Sender) : List UInt8 :=
  if s.iOh then
    [UInt8.ofNat (iHecCrc s.iPrevMuxTblNum <<< 1 ||| s.iPrevMuxTblNum <<< 4 ||| s.iPrevPm.toNat)]
  else []

/-- `CompletePdu`: flag, header and payload, and the sender's state behind it. -/
def CompletePdu (s : Sender) (payload : List UInt8) (MuxTblNum : Nat) (pm : Bool) :
    List UInt8 × Sender :=
  (flag s.iClosingNext ++ codeBytes (iEncTab (payload.length * 16 + MuxTblNum))
      ++ s.optionalHeader ++ payload,
    { s with
      iClosingNext := pm
      iPrevMuxTblNum := if s.iOh then MuxTblNum else s.iPrevMuxTblNum
      iPrevPm := if s.iOh then pm else s.iPrevPm })

/-- One turn of `GetStuffing`: a flag and a header without payload. -/
def stuffingTurn (s : Sender) (mux_code : Nat) : List UInt8 × Sender :=
  (flag s.iClosingNext ++ codeBytes (iEncTab mux_code) ++ s.optionalHeader,
    { s with
      iClosingNext := false
      iPrevMuxTblNum := if s.iOh then mux_code else s.iPrevMuxTblNum
      iPrevPm := if s.iOh then false else s.iPrevPm })

/-- The turns of `GetStuffing`. -/
def stuffingTurns (mux_code : Nat) : Nat → Sender → List UInt8 × Sender
  | 0, s => ([], s)
  | n + 1, s =>
    let r := stuffingTurn iEncTab s mux_code
    let q := stuffingTurns mux_code n r.2
    (r.1 ++ q.1, q.2)

/-- `GetStuffing`: as many as the buffer holds. -/
def GetStuffing (s : Sender) (max_size mux_code : Nat) : List UInt8 × Sender :=
  stuffingTurns iEncTab mux_code (max_size / headerSz s.iOh) s

/-! ## 2. The parser -/

inductive EOperationId where
  | ECopyHdr
  | ECopyData
  deriving DecidableEq, Repr

/-- What the observer is told. -/
inductive Indication where
  | muxPdu (pdu : List UInt8) (fClosing : Bool) (muxCode : Int)
  | EHeaderErr
  deriving DecidableEq, Repr

/-- The parser's state; `iPduHdr` and `iPdu` hold the bytes before their write positions. -/
structure Parcom where
  iOh : Bool
  iThreshold : Nat
  iUseOh : Bool
  iClosingCur : Bool
  iClosingNextRx : Bool
  iMpl : Nat
  iMplRemaining : Nat
  iMuxCode : Int
  iPduHdr : List UInt8
  iPdu : List UInt8
  iCurrentOp : EOperationId
  iNumFlagsRx : Nat
  iNumSyncLossRx : Nat
  told : List Indication
  deriving DecidableEq, Repr

/-- `LEVEL2_THRESHOLD_SYNC` and `LEVEL2_THRESHOLD_DATA`. -/
def LEVEL2_THRESHOLD_SYNC : Nat := 15

def LEVEL2_THRESHOLD_DATA : Nat := 13

/-- The constructor. -/
def Parcom.init (iOh closing_cur : Bool) : Parcom where
  iOh := iOh
  iThreshold := LEVEL2_THRESHOLD_SYNC
  iUseOh := false
  iClosingCur := closing_cur
  iClosingNextRx := false
  iMpl := 0
  iMplRemaining := 0
  iMuxCode := -1
  iPduHdr := []
  iPdu := []
  iCurrentOp := .ECopyHdr
  iNumFlagsRx := 0
  iNumSyncLossRx := 0
  told := []

def iNumOnes (n : Nat) : Nat := (List.range 8).countP fun i => n.testBit i

/-- `CheckFlag`: whether the two bytes are a flag up to the threshold, and which. -/
def CheckFlag (b0 b1 : UInt8) (trsld : Nat) : Option Bool :=
  let match_cnt := iNumOnes (b0 ^^^ 0xE1).toNat + iNumOnes (b1 ^^^ 0x4D).toNat
  if trsld ≤ match_cnt then some true
  else if match_cnt ≤ 16 - trsld then some false
  else none

/-- `IndicatePdu`: what was received since the last flag, and the reset. -/
def IndicatePdu (p : Parcom) : Parcom :=
  { p with
    told := p.told ++
      if p.iMpl ≠ 0 ∨ 0 < p.iMuxCode ∨ p.iClosingCur = true then
        [.muxPdu (p.iPdu.take p.iMpl) p.iClosingCur p.iMuxCode]
      else []
    iPdu := []
    iMpl := 0
    iMplRemaining := 0
    iMuxCode := -1
    iClosingCur := p.iClosingNextRx
    iUseOh := false }

/-- `ParseHdr`: the payload's size and the multiplex code, and the errors corrected. -/
def ParseHdr (iPduHdr : List UInt8) : Nat × Int × Nat :=
  let b2 := (iPduHdr.getD 2 0).toNat
  let b3 := (iPduHdr.getD 3 0).toNat
  let b4 := (iPduHdr.getD 4 0).toNat
  let r := GolayDec (b2 * 4096 + b3 % 16 * 1048576 + b4 * 16 + b3 / 16)
  if 255 ≤ r.1 / 16 then (0, -1, r.2) else (r.1 / 16, (r.1 % 16 : Nat), r.2)

/-- The first two bytes of a header: a flag ends what came before it; other bytes end it too, and
    the search goes on from the second. -/
def lookForFlag (p : Parcom) : Parcom :=
  match CheckFlag (p.iPduHdr.getD 0 0) (p.iPduHdr.getD 1 0) p.iThreshold with
  | some closing =>
    IndicatePdu { p with
      told := p.told ++ if 160 < p.iNumSyncLossRx then [.EHeaderErr] else []
      iNumFlagsRx := p.iNumFlagsRx + 1
      iNumSyncLossRx := 0
      iClosingNextRx := closing
      iThreshold := LEVEL2_THRESHOLD_DATA }
  | none =>
    let p' := IndicatePdu { p with
      iNumSyncLossRx := p.iNumSyncLossRx + if p.iNumFlagsRx = 0 then 0 else 1
      iClosingNextRx := false
      iThreshold := LEVEL2_THRESHOLD_SYNC }
    { p' with iPduHdr := [p.iPduHdr.getD 1 0] }

/-- What a parsed header sets: up to three errors are corrected, four are left to the optional
    header, more drop the PDU. -/
def useHeader (p : Parcom) (mpl : Nat) (muxCode : Int) (num_errors : Nat) : Parcom :=
  if num_errors < 4 then { p with iMpl := mpl, iMuxCode := muxCode }
  else if num_errors = 4 then { p with iUseOh := true }
  else { p with iMpl := 0, iMuxCode := -1 }

/-- A whole header. -/
def takeHeader (p : Parcom) : Parcom :=
  let r := ParseHdr GolayDec p.iPduHdr
  let p : Parcom := { useHeader p r.1 r.2.1 r.2.2 with iPduHdr := [] }
  if 0 < p.iMpl then
    { p with
      iThreshold := LEVEL2_THRESHOLD_DATA
      iCurrentOp := .ECopyData
      iMplRemaining := p.iMpl }
  else p

/-- A byte stored as a header's; the second is looked at with the first. -/
def storeHdr (p : Parcom) (b : UInt8) : Parcom :=
  if p.iPduHdr.length + 1 = 2 then lookForFlag { p with iPduHdr := p.iPduHdr ++ [b] }
  else { p with iPduHdr := p.iPduHdr ++ [b] }

/-- The branch `ECopyHdr`: one byte. -/
def copyHdr (p : Parcom) (b : UInt8) : Parcom :=
  let p := storeHdr p b
  if p.iPduHdr.length = headerSz p.iOh then takeHeader GolayDec p else p

/-- The branch `ECopyData`: the bytes of the payload that are there. -/
def copyData (p : Parcom) (bytes : List UInt8) : Parcom :=
  { p with
    iPdu := p.iPdu ++ bytes
    iMplRemaining := p.iMplRemaining - bytes.length
    iCurrentOp := if p.iMplRemaining - bytes.length = 0 then .ECopyHdr else p.iCurrentOp }

/-- The loop of `Parse`, for at most `fuel` turns. -/
def parseLoop : Nat → Parcom → List UInt8 → Parcom
  | 0, p, _ => p
  | _, p, [] => p
  | fuel + 1, p, b :: bs =>
    match p.iCurrentOp with
    | .ECopyHdr => parseLoop fuel (copyHdr GolayDec p b) bs
    | .ECopyData =>
      parseLoop fuel (copyData p ((b :: bs).take p.iMplRemaining))
        ((b :: bs).drop p.iMplRemaining)

/-- `Parse`: one buffer. -/
def Parse (p : Parcom) (buf : List UInt8) : Parcom := parseLoop GolayDec (2 * buf.length) p buf

/-! ## 3. Byte by byte -/

/-- One byte of the stream. -/
def parseByte (p : Parcom) (b : UInt8) : Parcom :=
  match p.iCurrentOp with
  | .ECopyHdr => copyHdr GolayDec p b
  | .ECopyData => copyData p [b]

/-- Inside a payload there are bytes to come. -/
def Parcom.Steady (p : Parcom) : Prop := p.iCurrentOp = .ECopyData → 0 < p.iMplRemaining

variable {iEncTab GolayDec}

@[simp] theorem lookForFlag_op (p : Parcom) : (lookForFlag p).iCurrentOp = p.iCurrentOp := by
  unfold lookForFlag
  split <;> rfl

@[simp] theorem useHeader_op (p : Parcom) (mpl : Nat) (muxCode : Int) (n : Nat) :
    (useHeader p mpl muxCode n).iCurrentOp = p.iCurrentOp := by
  unfold useHeader
  split
  · rfl
  · split <;> rfl

variable {p : Parcom}

theorem takeHeader_steady (h : p.iCurrentOp = .ECopyHdr) :
    (takeHeader GolayDec p).Steady := by
  intro hop
  unfold takeHeader at hop ⊢
  dsimp only at hop ⊢
  split at hop
  · rename_i hpos
    rw [if_pos hpos]
    exact hpos
  · simp [h] at hop

@[simp] theorem storeHdr_op (p : Parcom) (b : UInt8) :
    (storeHdr p b).iCurrentOp = p.iCurrentOp := by
  unfold storeHdr
  split
  · exact lookForFlag_op _
  · rfl

theorem parseByte_steady (b : UInt8) : (parseByte GolayDec p b).Steady := by
  unfold parseByte
  cases hop : p.iCurrentOp with
  | ECopyHdr =>
    have hop' : (storeHdr p b).iCurrentOp = .ECopyHdr := (storeHdr_op p b).trans hop
    dsimp only
    unfold copyHdr
    dsimp only
    split
    · exact takeHeader_steady hop'
    · exact fun h => absurd (hop'.symm.trans h) (by decide)
  | ECopyData =>
    intro h
    simp only [copyData, length_singleton] at h ⊢
    split at h
    · exact absurd h (by decide)
    · omega

/-- Bytes of a payload one by one, or all together. -/
theorem foldl_copyData (hop : p.iCurrentOp = .ECopyData) (q : List UInt8)
    (hne : q ≠ []) (hq : q.length ≤ p.iMplRemaining) :
    q.foldl (parseByte GolayDec) p = copyData p q := by
  induction q using reverseRecOn with
  | nil => exact absurd rfl hne
  | append_singleton q b ih =>
    rw [length_append, length_singleton] at hq
    rw [foldl_append, foldl_cons, foldl_nil]
    rcases eq_or_ne q [] with rfl | hq0
    · simp [parseByte, hop]
    · rw [ih hq0 (by omega)]
      have hop' : (copyData p q).iCurrentOp = .ECopyData := by
        simp only [copyData]
        rw [if_neg (by omega), hop]
      simp only [parseByte, hop']
      simp only [copyData, length_append, length_singleton, append_assoc,
        Nat.sub_sub]
      rw [if_neg (by omega : ¬ p.iMplRemaining - q.length = 0)]

/-- **Copying in pieces is copying byte by byte.** -/
theorem parseLoop_eq (fuel : Nat) (p : Parcom) (buf : List UInt8) (hp : p.Steady)
    (hfuel : buf.length ≤ fuel) :
    parseLoop GolayDec fuel p buf = buf.foldl (parseByte GolayDec) p := by
  induction fuel generalizing p buf with
  | zero =>
    obtain rfl : buf = [] := length_eq_zero_iff.mp (by omega)
    rfl
  | succ fuel ih =>
    cases buf with
    | nil => rfl
    | cons b bs =>
      rw [length_cons] at hfuel
      simp only [parseLoop]
      cases hop : p.iCurrentOp with
      | ECopyHdr =>
        have hone : parseByte GolayDec p b = copyHdr GolayDec p b := by simp only [parseByte, hop]
        dsimp only
        rw [foldl_cons, ← hone]
        exact ih _ _ (parseByte_steady b) (by omega)
      | ECopyData =>
        have hpos := hp hop
        have htake : (b :: bs).take p.iMplRemaining ≠ [] := by
          cases hk : p.iMplRemaining with
          | zero => omega
          | succ k => simp
        have hcopy : ((b :: bs).take p.iMplRemaining).foldl (parseByte GolayDec) p
            = copyData p ((b :: bs).take p.iMplRemaining) := foldl_copyData hop _ htake (by
          rw [length_take]; omega)
        have hsteady : (copyData p ((b :: bs).take p.iMplRemaining)).Steady := by
          intro h
          simp only [copyData] at h ⊢
          split at h
          · exact absurd h (by decide)
          · omega
        dsimp only
        rw [ih _ _ hsteady (by rw [length_drop, length_cons]; omega), ← hcopy,
          ← foldl_append, take_append_drop]

/-- The division into buffers does not matter. -/
theorem foldl_Parse (hp : p.Steady) (bufs : List (List UInt8)) :
    bufs.foldl (Parse GolayDec) p = bufs.flatten.foldl (parseByte GolayDec) p := by
  have hsteady : ∀ (buf : List UInt8) (p : Parcom), p.Steady →
      (buf.foldl (parseByte GolayDec) p).Steady := by
    intro buf
    induction buf with
    | nil => exact fun p hp => hp
    | cons b bs ih => exact fun p _ => ih _ (parseByte_steady b)
  induction bufs generalizing p with
  | nil => rfl
  | cons buf bufs ih =>
    have hone : Parse GolayDec p buf = buf.foldl (parseByte GolayDec) p :=
      parseLoop_eq _ p buf hp (by omega)
    rw [foldl_cons, flatten_cons, foldl_append, hone]
    exact ih (hsteady buf p hp)

/-! ## 4. One unit: a flag, a header and a payload -/

/-- The optional header's bytes are looked at by nobody. -/
def unitBytes (closing : Bool) (code : Nat) (optional payload : List UInt8) : List UInt8 :=
  flag closing ++ codeBytes code ++ optional ++ payload

/-- What is indicated of what was received since a flag. -/
def indication (pdu : List UInt8) (closing : Bool) (muxCode : Int) : List Indication :=
  if pdu ≠ [] ∨ 0 < muxCode ∨ closing = true then [.muxPdu pdu closing muxCode] else []

/-- The parser at the start of a flag, with a PDU received since the last one. -/
structure Between (p : Parcom) (pdu : List UInt8) (closing : Bool) (muxCode : Int) : Prop where
  op : p.iCurrentOp = .ECopyHdr
  hdr_nil : p.iPduHdr = []
  pdu_eq : p.iPdu = pdu
  mpl : p.iMpl = pdu.length
  closing_eq : p.iClosingCur = closing
  muxCode_eq : p.iMuxCode = muxCode
  threshold : p.iThreshold = LEVEL2_THRESHOLD_SYNC ∨ p.iThreshold = LEVEL2_THRESHOLD_DATA
  sync : p.iNumSyncLossRx ≤ 160

/-- The parser inside a header. -/
structure InHeader (p : Parcom) (hdr : List UInt8) (closing : Bool) : Prop where
  op : p.iCurrentOp = .ECopyHdr
  hdr_eq : p.iPduHdr = hdr
  pdu_nil : p.iPdu = []
  closing_eq : p.iClosingCur = closing
  threshold : p.iThreshold = LEVEL2_THRESHOLD_DATA
  sync : p.iNumSyncLossRx ≤ 160

/-- A flag without errors is seen under either threshold. -/
theorem CheckFlag_flag {trsld : Nat}
    (h : trsld = LEVEL2_THRESHOLD_SYNC ∨ trsld = LEVEL2_THRESHOLD_DATA) (closing : Bool) :
    CheckFlag ((flag closing).getD 0 0) ((flag closing).getD 1 0) trsld = some closing := by
  rcases h with rfl | rfl <;> cases closing <;> decide

theorem two_lt_headerSz (iOh : Bool) : 2 < headerSz iOh := by
  cases iOh <;> decide

theorem parseByte_store {b : UInt8} (hop : p.iCurrentOp = .ECopyHdr)
    (htwo : p.iPduHdr.length + 1 ≠ 2) (hsz : p.iPduHdr.length + 1 ≠ headerSz p.iOh) :
    parseByte GolayDec p b = { p with iPduHdr := p.iPduHdr ++ [b] } := by
  have hstore : storeHdr p b = { p with iPduHdr := p.iPduHdr ++ [b] } := if_neg htwo
  have hlen : ({ p with iPduHdr := p.iPduHdr ++ [b] } : Parcom).iPduHdr.length
      ≠ headerSz p.iOh := by
    rw [length_append, length_singleton]
    exact hsz
  simp only [parseByte, hop, copyHdr, hstore, if_neg hlen]

variable (GolayDec) in
/-- **The flag** ends what was received before it. -/
theorem parse_flag {pdu : List UInt8} {cur : Bool} {muxCode : Int}
    (hp : Between p pdu cur muxCode) (closing : Bool) :
    ∃ q, (flag closing).foldl (parseByte GolayDec) p = q ∧ q.iOh = p.iOh ∧
      q.told = p.told ++ indication pdu cur muxCode ∧ InHeader q (flag closing) closing := by
  have hsz := two_lt_headerSz p.iOh
  obtain ⟨b0, b1, hf⟩ : ∃ b0 b1, flag closing = [b0, b1] := by
    cases closing <;> exact ⟨_, _, rfl⟩
  have hcheck := CheckFlag_flag hp.threshold closing
  rw [hf, getD_cons_zero, getD_cons_succ, getD_cons_zero] at hcheck
  -- the first byte is stored, the second completes the flag
  have hone : parseByte GolayDec p b0 = { p with iPduHdr := [b0] } := by
    rw [parseByte_store hp.op (by rw [hp.hdr_nil]; decide) (by rw [hp.hdr_nil]; simp; omega),
      hp.hdr_nil, nil_append]
  have htwo : parseByte GolayDec { p with iPduHdr := [b0] } b1
      = lookForFlag { p with iPduHdr := [b0, b1] } := by
    have hstore : storeHdr { p with iPduHdr := [b0] } b1
        = lookForFlag { p with iPduHdr := [b0, b1] } := rfl
    have hlen : (lookForFlag { p with iPduHdr := [b0, b1] }).iPduHdr.length
        ≠ headerSz (lookForFlag { p with iPduHdr := [b0, b1] }).iOh := by
      simp only [lookForFlag, getD_cons_zero, getD_cons_succ, hcheck, IndicatePdu]
      simp only [length_cons, length_nil]
      omega
    simp only [parseByte, hp.op, copyHdr]
    rw [← hp.op, hstore, if_neg hlen]
  refine ⟨_, rfl, ?_⟩
  rw [hf, foldl_cons, foldl_cons, foldl_nil, hone, htwo]
  have hsync : ¬ 160 < p.iNumSyncLossRx := by have := hp.sync; omega
  simp only [lookForFlag, getD_cons_zero, getD_cons_succ, hcheck, IndicatePdu, hsync,
    if_false, append_nil, hp.mpl, hp.pdu_eq, hp.closing_eq, hp.muxCode_eq, take_length]
  refine ⟨trivial, ?_, hp.op, rfl, rfl, rfl, rfl, Nat.zero_le _⟩
  simp only [indication, ne_eq, length_eq_zero_iff]

/-- **The header round trip.** -/
theorem ParseHdr_eq {code c : Nat} (closing : Bool) (optional : List UInt8)
    (hcode : code < 16777216) (hdec : GolayDec code = (c, 0)) (hc : c / 16 < 255) :
    ParseHdr GolayDec (flag closing ++ (codeBytes code ++ optional))
      = (c / 16, ((c % 16 : Nat) : Int), 0) := by
  obtain ⟨b0, b1, hf⟩ : ∃ b0 b1, flag closing = [b0, b1] := by
    cases closing <;> exact ⟨_, _, rfl⟩
  -- the middle byte holds the highest and the lowest four bits
  have hmid : (code / 1048576 % 16 + code % 16 * 16) % 256 = code / 1048576 % 16 + code % 16 * 16 :=
    Nat.mod_eq_of_lt (by omega)
  have hlow : (code / 1048576 % 16 + code % 16 * 16) % 16 = code / 1048576 := by omega
  have hhigh : (code / 1048576 % 16 + code % 16 * 16) / 16 = code % 16 := by omega
  have hbytes : code / 4096 % 256 * 4096
      + (code / 1048576 % 16 + code % 16 * 16) % 256 % 16 * 1048576
      + code / 16 % 256 * 16 + (code / 1048576 % 16 + code % 16 * 16) % 256 / 16 = code := by
    have h1 : code / 4096 / 256 = code / 1048576 := Nat.div_div_eq_div_mul code 4096 256
    have h2 : code / 16 / 256 = code / 4096 := Nat.div_div_eq_div_mul code 16 256
    rw [hmid, hlow, hhigh]
    omega
  rw [hf]
  simp only [ParseHdr, codeBytes, cons_append, nil_append, getD_cons_succ,
    getD_cons_zero, UInt8.toNat_ofNat', Nat.reducePow, Nat.mod_mod, hbytes, hdec]
  rw [if_neg (by omega)]

/-- Bytes of a header before its last. -/
theorem parse_store {q : Parcom} {hdr : List UInt8} {closing : Bool} (hq : InHeader q hdr closing)
    (htwo : 2 ≤ hdr.length) (bytes : List UInt8)
    (hlen : hdr.length + bytes.length < headerSz q.iOh) :
    bytes.foldl (parseByte GolayDec) q = { q with iPduHdr := hdr ++ bytes } := by
  induction bytes using reverseRecOn with
  | nil =>
    rw [append_nil, ← hq.hdr_eq]
    rfl
  | append_singleton bytes b ih =>
    rw [length_append, length_singleton] at hlen
    have hstep : parseByte GolayDec { q with iPduHdr := hdr ++ bytes } b
        = { q with iPduHdr := hdr ++ bytes ++ [b] } :=
      parseByte_store hq.op (by simp only [length_append]; omega)
        (by simp only [length_append]; omega)
    rw [foldl_append, ih (by omega), foldl_cons, foldl_nil, hstep,
      append_assoc]

/-- **A header** behind its flag: without a payload the parser is between PDUs again, else inside
    the payload. -/
theorem parse_header {q : Parcom} {closing : Bool} (hq : InHeader q (flag closing) closing)
    {code c : Nat} (optional : List UInt8) (hcode : code < 16777216)
    (hdec : GolayDec code = (c, 0)) (hc : c / 16 < 255)
    (hlen : 5 + optional.length = headerSz q.iOh) :
    ∃ r, (codeBytes code ++ optional).foldl (parseByte GolayDec) q = r ∧ r.iOh = q.iOh ∧
      r.told = q.told ∧ r.iPduHdr = [] ∧ r.iPdu = [] ∧ r.iMpl = c / 16 ∧ r.iClosingCur = closing ∧
      r.iMuxCode = (c % 16 : Nat) ∧ r.iThreshold = LEVEL2_THRESHOLD_DATA ∧
      r.iNumSyncLossRx ≤ 160 ∧
      (c / 16 = 0 → r.iCurrentOp = .ECopyHdr) ∧
      (0 < c / 16 → r.iCurrentOp = .ECopyData ∧ r.iMplRemaining = c / 16) := by
  have hflag : (flag closing).length = 2 := by cases closing <;> rfl
  have hcodelen : (codeBytes code).length = 3 := rfl
  obtain ⟨front, b, hsplit⟩ : ∃ front b, codeBytes code ++ optional = front ++ [b] := by
    have hne : codeBytes code ++ optional ≠ [] := cons_ne_nil _ _
    exact ⟨_, _, (dropLast_concat_getLast hne).symm⟩
  have hfront : front.length + 1 = 3 + optional.length := by
    have h := congrArg length hsplit
    rw [length_append, length_append, length_singleton, hcodelen] at h
    omega
  -- all bytes but the last are stored, the last completes the header
  have hlast : parseByte GolayDec { q with iPduHdr := flag closing ++ front } b
      = takeHeader GolayDec { q with iPduHdr := flag closing ++ (codeBytes code ++ optional) } := by
    have hstore : storeHdr { q with iPduHdr := flag closing ++ front } b
        = { q with iPduHdr := flag closing ++ (codeBytes code ++ optional) } := by
      rw [hsplit, ← append_assoc]
      exact if_neg (by simp only [length_append]; omega)
    have hfull : (flag closing ++ (codeBytes code ++ optional)).length = headerSz q.iOh := by
      simp only [length_append]
      omega
    simp only [parseByte, hq.op, copyHdr]
    rw [← hq.op, hstore, if_pos hfull]
  refine ⟨_, rfl, ?_⟩
  rw [hsplit, foldl_append, parse_store hq (by omega) front (by omega), foldl_cons,
    foldl_nil, hlast]
  simp only [takeHeader, ParseHdr_eq closing optional hcode hdec hc, useHeader, Nat.zero_lt_succ,
    if_true]
  split
  · rename_i hpos
    exact ⟨rfl, rfl, rfl, hq.pdu_nil, rfl, hq.closing_eq, rfl, rfl, hq.sync,
      fun h0 => absurd h0 (by omega), fun _ => ⟨rfl, rfl⟩⟩
  · rename_i hpos
    exact ⟨rfl, rfl, rfl, hq.pdu_nil, rfl, hq.closing_eq, rfl, hq.threshold, hq.sync,
      fun _ => hq.op, fun h1 => absurd h1 hpos⟩

/-- **A unit**: what came before it is indicated, its payload is received. -/
theorem parse_unit {pdu : List UInt8} {cur : Bool} {muxCode : Int}
    (hp : Between p pdu cur muxCode) (closing : Bool) {code mt : Nat}
    (optional payload : List UInt8) (hcode : code < 16777216)
    (hdec : GolayDec code = (payload.length * 16 + mt, 0)) (hmt : mt < 16)
    (hsize : payload.length < 255) (hlen : 5 + optional.length = headerSz p.iOh) :
    ∃ q, (unitBytes closing code optional payload).foldl (parseByte GolayDec) p = q ∧
      q.iOh = p.iOh ∧ q.told = p.told ++ indication pdu cur muxCode ∧
      Between q payload closing mt := by
  have hdiv : (payload.length * 16 + mt) / 16 = payload.length := by omega
  have hmod : (payload.length * 16 + mt) % 16 = mt := by omega
  obtain ⟨q, hq, hoh, htold, hin⟩ := parse_flag GolayDec hp closing
  obtain ⟨r, hr, hoh', htold', hhdr, hpdu, hmpl, hcl, hmux, hthr, hsync, hzero, hpos⟩ :=
    parse_header hin optional hcode hdec (by omega) (by rw [hoh]; exact hlen)
  rw [hdiv] at hmpl hzero hpos
  rw [hmod] at hmux
  have hbytes : (unitBytes closing code optional payload).foldl (parseByte GolayDec) p
      = payload.foldl (parseByte GolayDec) r := by
    rw [unitBytes, foldl_append, append_assoc, foldl_append, hq, hr]
  refine ⟨_, rfl, ?_⟩
  rw [hbytes]
  rcases eq_or_ne payload [] with rfl | hne
  · exact ⟨hoh'.trans hoh, htold'.trans htold, hzero rfl, hhdr, hpdu, hmpl, hcl, hmux,
      Or.inr hthr, hsync⟩
  · obtain ⟨hop, hrem⟩ := hpos (length_pos_iff.mpr hne)
    rw [foldl_copyData hop payload hne (by omega)]
    refine ⟨hoh'.trans hoh, htold'.trans htold, ?_, hhdr, ?_, hmpl, hcl, hmux, Or.inr hthr, hsync⟩
    · exact if_pos (by omega)
    · simp only [copyData, hpdu, nil_append]

/-! ## 5. A whole session -/

/-- What the sender puts on the line: a PDU, or stuffing into a buffer of some size. -/
inductive Sent where
  | pdu (payload : List UInt8) (mt : Nat) (pm : Bool)
  | stuffing (max_size mux_code : Nat)

variable (iEncTab) in
/-- The bytes of all that is sent, and the sender's state behind it. -/
def sendAll : Sender → List Sent → List UInt8 × Sender
  | s, [] => ([], s)
  | s, .pdu payload mt pm :: rest =>
    let r := CompletePdu iEncTab s payload mt pm
    let q := sendAll r.2 rest
    (r.1 ++ q.1, q.2)
  | s, .stuffing max_size mux_code :: rest =>
    let r := GetStuffing iEncTab s max_size mux_code
    let q := sendAll r.2 rest
    (r.1 ++ q.1, q.2)

/-- What stuffing is indicated as: an empty PDU where it carries the closing flag or a multiplex
    code. -/
def stuffingIndications (closing : Bool) (mux_code : Nat) : Nat → List Indication
  | 0 => []
  | n + 1 => indication [] closing mux_code ++ stuffingIndications false mux_code n

/-- What is to be indicated, where `closing` says that a PDU with the packet marker went before:
    each PDU with the closing flag of what was sent right before it. -/
def expected (iOh : Bool) : Bool → List Sent → List Indication
  | _, [] => []
  | closing, .pdu payload mt pm :: rest =>
    .muxPdu payload closing mt :: expected iOh pm rest
  | closing, .stuffing max_size mux_code :: rest =>
    stuffingIndications closing mux_code (max_size / headerSz iOh) ++
      expected iOh (if max_size / headerSz iOh = 0 then closing else false) rest

/-- A PDU of 1 to 254 payload bytes and multiplex codes of 4 bits. -/
def Sent.WellFormed : Sent → Prop
  | .pdu payload mt _ => 1 ≤ payload.length ∧ payload.length ≤ 254 ∧ mt < 16
  | .stuffing _ mux_code => mux_code < 16

variable (iEncTab GolayDec) in
/-- **The Golay code**: codes of 24 bits, given back by the decoder without errors. -/
def GolayInverse : Prop :=
  ∀ c < 4096, iEncTab c < 16777216 ∧ GolayDec (iEncTab c) = (c, 0)

theorem Sender.optionalHeader_length (s : Sender) :
    5 + s.optionalHeader.length = headerSz s.iOh := by
  cases h : s.iOh <;> simp [Sender.optionalHeader, headerSz, h]

/-- The parser between two units of a session: what was received and not yet indicated. -/
structure Follows (p : Parcom) (s : Sender) (pending : List Indication) : Prop where
  iOh : p.iOh = s.iOh
  between : ∃ pdu cur muxCode, Between p pdu cur muxCode ∧ pending = indication pdu cur muxCode

variable {s : Sender} {pending : List Indication}

section

variable (hgolay : GolayInverse iEncTab GolayDec)
include hgolay

theorem Follows.stuffing
    (hp : Follows p s pending) {mux_code : Nat} (hmux : mux_code < 16) :
    ∃ q, (stuffingTurn iEncTab s mux_code).1.foldl (parseByte GolayDec) p = q ∧
      q.told = p.told ++ pending ∧
      Follows q (stuffingTurn iEncTab s mux_code).2 (indication [] s.iClosingNext mux_code) := by
  obtain ⟨pdu, cur, muxCode, hbetween, rfl⟩ := hp.between
  obtain ⟨hcode, hdec⟩ := hgolay mux_code (by omega)
  obtain ⟨q, hq, hoh, htold, hb⟩ := parse_unit hbetween s.iClosingNext s.optionalHeader [] hcode
    (by simpa using hdec) hmux (by decide) (by rw [hp.iOh]; exact s.optionalHeader_length)
  refine ⟨q, ?_, htold, hoh.trans hp.iOh, [], s.iClosingNext, mux_code, hb, rfl⟩
  rw [← hq, stuffingTurn, unitBytes, append_nil]

theorem Follows.pdu
    (hp : Follows p s pending) {payload : List UInt8} {mt : Nat}
    (hlen : 1 ≤ payload.length) (hlen' : payload.length ≤ 254) (hmt : mt < 16) (pm : Bool) :
    ∃ q, (CompletePdu iEncTab s payload mt pm).1.foldl (parseByte GolayDec) p = q ∧
      q.told = p.told ++ pending ∧
      Follows q (CompletePdu iEncTab s payload mt pm).2 [.muxPdu payload s.iClosingNext mt] := by
  obtain ⟨pdu, cur, muxCode, hbetween, rfl⟩ := hp.between
  obtain ⟨hcode, hdec⟩ := hgolay (payload.length * 16 + mt) (by omega)
  obtain ⟨q, hq, hoh, htold, hb⟩ := parse_unit hbetween s.iClosingNext s.optionalHeader payload
    hcode hdec hmt (by omega) (by rw [hp.iOh]; exact s.optionalHeader_length)
  have hne : payload ≠ [] := length_pos_iff.mp hlen
  refine ⟨q, ?_, htold, hoh.trans hp.iOh, payload, s.iClosingNext, mt, hb, ?_⟩
  · rw [← hq, CompletePdu, unitBytes]
  · rw [indication, if_pos (Or.inl hne)]

/-- All the stuffing of a buffer: what was pending and what the turns indicate come out one turn
    late. -/
theorem Follows.stuffingTurns {mux_code : Nat}
    (hmux : mux_code < 16) (n : Nat)
    (hp : Follows p s pending) :
    ∃ q pending', (stuffingTurns iEncTab mux_code n s).1.foldl (parseByte GolayDec) p = q ∧
      q.told ++ pending'
        = p.told ++ pending ++ stuffingIndications s.iClosingNext mux_code n ∧
      Follows q (stuffingTurns iEncTab mux_code n s).2 pending' ∧
      (stuffingTurns iEncTab mux_code n s).2.iOh = s.iOh ∧
      (stuffingTurns iEncTab mux_code n s).2.iClosingNext
        = if n = 0 then s.iClosingNext else false := by
  induction n generalizing p s pending with
  | zero => exact ⟨p, pending, rfl, by simp [stuffingIndications], hp, rfl, rfl⟩
  | succ n ih =>
    obtain ⟨q₁, hq₁, htold₁, hf₁⟩ := hp.stuffing hgolay hmux
    obtain ⟨q, pending', hq, htold, hf, hoh, hcl⟩ := ih hf₁
    refine ⟨q, pending', ?_, ?_, hf, hoh, ?_⟩
    · simp only [stuffingTurns]
      rw [foldl_append, hq₁, hq]
    · rw [htold, htold₁]
      simp only [stuffingIndications, stuffingTurn, append_assoc]
    · simp only [stuffingTurns, hcl]
      simp [stuffingTurn]

theorem Follows.sendAll (sent : List Sent)
    (hsent : ∀ x ∈ sent, x.WellFormed)
    (hp : Follows p s pending) :
    ∃ q pending', (sendAll iEncTab s sent).1.foldl (parseByte GolayDec) p = q ∧
      q.told ++ pending' = p.told ++ pending ++ expected s.iOh s.iClosingNext sent ∧
      Follows q (sendAll iEncTab s sent).2 pending' := by
  induction sent generalizing p s pending with
  | nil => exact ⟨p, pending, rfl, by simp [expected], hp⟩
  | cons x sent ih =>
    have hrest : ∀ y ∈ sent, y.WellFormed := fun y hy => hsent y (mem_cons_of_mem x hy)
    have hx := hsent x mem_cons_self
    cases x with
    | pdu payload mt pm =>
      obtain ⟨q₁, hq₁, htold₁, hf₁⟩ := hp.pdu hgolay hx.1 hx.2.1 hx.2.2 pm
      obtain ⟨q, pending', hq, htold, hf⟩ := ih hrest hf₁
      refine ⟨q, pending', ?_, ?_, hf⟩
      · simp only [sendAll]
        rw [foldl_append, hq₁, hq]
      · rw [htold, htold₁]
        simp only [expected, CompletePdu, append_assoc, singleton_append]
    | stuffing max_size mux_code =>
      obtain ⟨q₁, pending₁, hq₁, htold₁, hf₁, hoh, hcl⟩ :=
        hp.stuffingTurns hgolay hx (max_size / headerSz s.iOh)
      obtain ⟨q, pending', hq, htold, hf⟩ := ih hrest hf₁
      refine ⟨q, pending', ?_, ?_, hf⟩
      · simp only [sendAll, GetStuffing]
        rw [foldl_append, hq₁, hq]
      · rw [htold, htold₁, hoh, hcl]
        simp only [expected, append_assoc]

end

/-- A PDU as it was sent, of what was sent. -/
def Sent.data : Sent → List (List UInt8 × Int)
  | .pdu payload mt _ => [(payload, mt)]
  | .stuffing _ _ => []

/-- The payload and the multiplex code of an indicated PDU with a payload. -/
def Indication.data : Indication → List (List UInt8 × Int)
  | .muxPdu pdu _ muxCode => if pdu = [] then [] else [(pdu, muxCode)]
  | .EHeaderErr => []

theorem stuffingIndications_data (closing : Bool) (mux_code n : Nat) :
    (stuffingIndications closing mux_code n).flatMap Indication.data = [] := by
  induction n generalizing closing with
  | zero => rfl
  | succ n ih =>
    rw [stuffingIndications, flatMap_append, ih, append_nil, indication]
    split <;> simp [Indication.data]

/-- The payloads to be indicated are those sent, with their multiplex codes and in their order. -/
theorem expected_data (iOh closing : Bool) (sent : List Sent) (hsent : ∀ x ∈ sent, x.WellFormed) :
    (expected iOh closing sent).flatMap Indication.data = sent.flatMap Sent.data := by
  induction sent generalizing closing with
  | nil => rfl
  | cons x sent ih =>
    have hrest : ∀ y ∈ sent, y.WellFormed := fun y hy => hsent y (mem_cons_of_mem x hy)
    have hx := hsent x mem_cons_self
    cases x with
    | pdu payload mt pm =>
      have hne : payload ≠ [] := length_pos_iff.mp hx.1
      rw [expected, flatMap_cons, ih pm hrest, flatMap_cons]
      simp only [Indication.data, if_neg hne, Sent.data]
    | stuffing max_size mux_code =>
      rw [expected, flatMap_append, stuffingIndications_data, ih _ hrest, flatMap_cons]
      rfl

variable (iEncTab GolayDec) in
/-- **A session.** Any sequence of PDUs and stuffing, with the next flag behind it and divided into
    buffers in any way, is indicated PDU by PDU: the payloads in order with their multiplex codes,
    each with the closing flag where a PDU with the packet marker was sent right before it.
    Stuffing is indicated (as an empty PDU) only where it is sent right behind such a PDU, which
    takes the closing flag, or carries a multiplex code. -/
theorem parse_header_session (hgolay : GolayInverse iEncTab GolayDec) (iOh : Bool) (sent : List Sent)
    (hsent : ∀ x ∈ sent, x.WellFormed) (bufs : List (List UInt8))
    (hbufs : bufs.flatten = (sendAll iEncTab (.init iOh) sent).1
      ++ flag (sendAll iEncTab (.init iOh) sent).2.iClosingNext) :
    (bufs.foldl (Parse GolayDec) (.init iOh false)).told = expected iOh false sent ∧
    (bufs.foldl (Parse GolayDec) (.init iOh false)).told.flatMap Indication.data
      = sent.flatMap Sent.data := by
  have hstart : Follows (.init iOh false) (.init iOh) [] :=
    ⟨rfl, [], false, -1, ⟨rfl, rfl, rfl, rfl, rfl, rfl, Or.inl rfl, Nat.zero_le _⟩, rfl⟩
  obtain ⟨q, pending, hq, htold, hf⟩ := hstart.sendAll hgolay sent hsent
  obtain ⟨pdu, cur, muxCode, hbetween, rfl⟩ := hf.between
  obtain ⟨r, hr, -, htold', -⟩ :=
    parse_flag GolayDec hbetween (sendAll iEncTab (.init iOh) sent).2.iClosingNext
  have hsteady : (Parcom.init iOh false).Steady := fun h => absurd h (by simp [Parcom.init])
  have hall : (bufs.foldl (Parse GolayDec) (.init iOh false)).told = expected iOh false sent := by
    rw [foldl_Parse hsteady, hbufs, foldl_append, hq, hr, htold', htold]
    rfl
  exact ⟨hall, by rw [hall, expected_data iOh false sent hsent]⟩

/-! ## 6. The Golay code of the tables -/

/-- The check bits of `enc_tab` at the powers of two; the table is linear. -/
def checkBits : List Nat :=
  [0xc75, 0x49f, 0xd4b, 0x6e3, 0x9b3, 0xb66, 0xecc, 0x1ed, 0x3da, 0x7b4, 0xb1d, 0xe3a]

/-- An entry of `enc_tab`: twelve bits and their check bits. -/
def encTab (c : Nat) : Nat :=
  c * 4096 + ((List.range 12).map fun i => if c.testBit i then checkBits.getD i 0 else 0).foldl
    (· ^^^ ·) 0

/-- A decoder that gives codes without errors back and refuses all others. -/
def decodeExact (code : Nat) : Nat × Nat :=
  if encTab (code / 4096) = code then (code / 4096, 0) else (code / 4096, 24)

/-- The tables' code meets the assumption. -/
theorem golayInverse_encTab : GolayInverse encTab decodeExact := by
  intro c hc
  have hfold : ∀ (l : List Nat) (a : Nat), a < 2 ^ 12 → (∀ x ∈ l, x < 2 ^ 12) →
      l.foldl (· ^^^ ·) a < 2 ^ 12 := by
    intro l
    induction l with
    | nil => exact fun a ha _ => ha
    | cons x l ih =>
      exact fun a ha hl => ih _ (Nat.xor_lt_two_pow ha (hl x mem_cons_self))
        fun y hy => hl y (mem_cons_of_mem x hy)
  have hcheck := hfold ((range 12).map fun i => if c.testBit i then checkBits.getD i 0 else 0)
    0 (by decide) (by
      intro x hx
      obtain ⟨i, hi, rfl⟩ := mem_map.mp hx
      have hbits : ∀ i ∈ range 12, checkBits.getD i 0 < 2 ^ 12 := by decide
      split
      · exact hbits i hi
      · decide)
  have hdiv : encTab c / 4096 = c := by
    unfold encTab
    omega
  refine ⟨?_, ?_⟩
  · unfold encTab
    omega
  · rw [decodeExact, hdiv, if_pos rfl]

/-- Two PDUs, the first with the packet marker, and stuffing, byte by byte. -/
theorem parse_session_marked :
    ((((sendAll encTab (.init false) [.pdu [1, 2] 3 true, .pdu [4] 5 false, .stuffing 10 0]).1
      ++ flag false).map ([·])).foldl (Parse decodeExact) (.init false false)).told
      = [.muxPdu [1, 2] false 3, .muxPdu [4] true 5] := by
  refine (parse_header_session encTab decodeExact golayInverse_encTab false
    [.pdu [1, 2] 3 true, .pdu [4] 5 false, .stuffing 10 0] ?_ _ (by decide +kernel)).1.trans
    (by decide +kernel)
  intro x hx
  fin_cases hx
  · exact ⟨by decide, by decide, by decide⟩
  · exact ⟨by decide, by decide, by decide⟩
  · show 0 < 16
    decide

/-- With stuffing behind a PDU with the packet marker, the closing flag is indicated with an empty
    PDU, and the next PDU comes without it. -/
theorem parse_stuffing_takes_closing :
    (Parse decodeExact (.init false false)
      ((sendAll encTab (.init false) [.pdu [1, 2] 3 true, .stuffing 5 0, .pdu [4] 5 false]).1
        ++ flag false)).told
      = [.muxPdu [1, 2] false 3, .muxPdu [] true 0, .muxPdu [4] false 5] := by
  decide +kernel

end OpenCore.H223.Level2
