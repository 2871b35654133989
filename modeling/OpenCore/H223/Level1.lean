/-
  File:      OpenCore/H223/Level1.lean
  Subject:   H.223 LEVEL 1 FRAMING: MUX-PDUs between 16-bit flags, single or doubled.

  The sender puts a flag and a header byte in front of each PDU; a PDU with the packet marker is
  followed by an empty PDU whose header carries the closing bit. The parser looks at the stream
  byte by byte through a 32-bit window: between PDUs it takes the bytes in steps of a flag's size,
  inside a PDU it looks for the flag at every byte and cuts it off what it has stored.

  **Main result**: `parse_flagged_session`.
-/
import OpenCore.Lib.Run

namespace OpenCore.H223.Level1

open List

/-! ## 1. The sender -/

/-- `iHecCrc`: the header error code of a multiplex code. -/
def iHecCrc (muxCode : Nat) : Nat :=
  [0x00, 0x05, 0x07, 0x02, 0x03, 0x06, 0x04, 0x01,
   0x06, 0x03, 0x01, 0x04, 0x05, 0x00, 0x02, 0x07].getD muxCode 0

/-- The flag: twice in double-flag mode. -/
def flag (iDf : Bool) : List UInt8 := if iDf then [0xe1, 0x4d, 0xe1, 0x4d] else [0xe1, 0x4d]

def FLAG_SZ (iDf : Bool) : Nat := if iDf then 4 else 2

/-- `FLAG`, as the bits of the window. -/
def FLAG (iDf : Bool) : Nat := if iDf then 0xE14DE14D else 0xE14D

/-- The header byte, with the closing bit of the trailer. -/
def header (mt : Nat) (closing : Bool) : UInt8 :=
  UInt8.ofNat (iHecCrc mt <<< 5 ||| mt <<< 1 ||| closing.toNat)

/-- `CompletePdu`: the flag and the header in front of the payload, and the trailer of a packet
    marker behind it. -/
def CompletePdu (iDf : Bool) (payload : List UInt8) (mt : Nat) (pm : Bool) : List UInt8 :=
  flag iDf ++ header mt false :: payload ++ if pm then flag iDf ++ [header mt true] else []

/-- `GetStuffing`: as many flags as the buffer holds. -/
def GetStuffing (iDf : Bool) (buf_size : Nat) : List UInt8 :=
  (List.replicate (buf_size / FLAG_SZ iDf) (flag iDf)).flatten

/-! ## 2. The parser -/

inductive EOperationId where
  | ELookForStartFlag
  | ESkipFlags
  | ELookForEndFlag
  deriving DecidableEq, Repr

/-- What the observer is told. -/
inductive Indication where
  | muxPdu (pdu : List UInt8) (fClosing : Bool) (muxCode : Nat)
  | EHeaderErr
  | ESizeErr
  deriving DecidableEq, Repr

/-- The parser's state; `iPdu` holds the bytes before `iPduPos`, none where that is NULL (the code
    sets it to the buffer's start before it writes). -/
structure Parcom where
  iDf : Bool
  iCurrentInt32 : Nat
  iSkipBytes : Nat
  iPdu : List UInt8
  iCurrentOp : EOperationId
  told : List Indication
  deriving DecidableEq, Repr

/-- The constructor. -/
def Parcom.init (iDf : Bool) : Parcom where
  iDf := iDf
  iCurrentInt32 := 0
  iSkipBytes := 0
  iPdu := []
  iCurrentOp := .ELookForStartFlag
  told := []

def H223_MAX_MUX_PDU_SIZE : Nat := 512

/-- `IndicatePdu`: the header is checked and taken off. -/
def IndicatePdu : List UInt8 → List Indication
  | [] => []
  | hdr :: payload =>
    let muxCode := (hdr.toNat >>> 1) % 16
    if iHecCrc muxCode ≠ hdr.toNat >>> 5 then [.EHeaderErr]
    else [.muxPdu payload (decide (hdr.toNat % 2 = 1)) muxCode]

/-- The window with a byte shifted in. -/
def shiftIn (iCurrentInt32 : Nat) (b : UInt8) : Nat :=
  (iCurrentInt32 * 256 + b.toNat) % 4294967296

/-- The lowest `n` bytes of the window, first byte first. -/
def copyFrom : Nat → Nat → List UInt8
  | 0, _ => []
  | n + 1, copy_from => copyFrom n (copy_from / 256) ++ [UInt8.ofNat copy_from]

/-- One byte of `Parse`. -/
def parseByte (p : Parcom) (b : UInt8) : Parcom :=
  let iCurrentInt32 := shiftIn p.iCurrentInt32 b
  let atFlag := decide (iCurrentInt32 % 256 ^ FLAG_SZ p.iDf = FLAG p.iDf)
  let p := { p with iCurrentInt32 := iCurrentInt32 }
  match p.iCurrentOp with
  | .ELookForStartFlag =>
    if atFlag then { p with iCurrentOp := .ESkipFlags, iPdu := [] } else p
  | .ESkipFlags =>
    if p.iSkipBytes + 1 = FLAG_SZ p.iDf then
      if atFlag then { p with iSkipBytes := 0 }
      else { p with
        iSkipBytes := 0
        iPdu := p.iPdu ++ copyFrom (FLAG_SZ p.iDf) iCurrentInt32
        iCurrentOp := .ELookForEndFlag }
    else { p with iSkipBytes := p.iSkipBytes + 1 }
  | .ELookForEndFlag =>
    if atFlag then
      { p with
        iPdu := []
        iCurrentOp := .ESkipFlags
        told := p.told ++ IndicatePdu (p.iPdu.take (p.iPdu.length - (FLAG_SZ p.iDf - 1))) }
    else if p.iPdu.length + 1 = H223_MAX_MUX_PDU_SIZE then
      { p with iPdu := [], iCurrentOp := .ELookForStartFlag, told := p.told ++ [.ESizeErr] }
    else { p with iPdu := p.iPdu ++ [b] }

/-- `Parse`: one buffer. -/
def Parse (p : Parcom) (bsbuf : List UInt8) : Parcom := bsbuf.foldl parseByte p

/-- The division into buffers does not matter. -/
theorem foldl_Parse (p : Parcom) (bufs : List (List UInt8)) :
    bufs.foldl Parse p = Parse p bufs.flatten := by
  induction bufs generalizing p with
  | nil => rfl
  | cons buf bufs ih =>
    rw [foldl_cons, ih, flatten_cons, Parse, Parse, Parse, foldl_append]

theorem Parse_append (p : Parcom) (a b : List UInt8) : Parse p (a ++ b) = Parse (Parse p a) b :=
  foldl_append

theorem Parse_concat (p : Parcom) (a : List UInt8) (b : UInt8) :
    Parse p (a ++ [b]) = parseByte (Parse p a) b := by
  rw [Parse_append]
  rfl

/-! ## 3. The window is the end of the stream -/

/-- The window after a stream. -/
def word (hist : List UInt8) : Nat := hist.foldl shiftIn 0

theorem word_concat (hist : List UInt8) (b : UInt8) :
    word (hist ++ [b]) = shiftIn (word hist) b := by
  simp [word]

theorem word_four (hist : List UInt8) (a b c d : UInt8) :
    word (hist ++ [a, b, c, d])
      = ((a.toNat * 256 + b.toNat) * 256 + c.toNat) * 256 + d.toNat := by
  have ha := a.toNat_lt
  have hb := b.toNat_lt
  have hc := c.toNat_lt
  have hd := d.toNat_lt
  simp only [word, foldl_append, foldl_cons, foldl_nil, shiftIn]
  omega

/-- The last four bytes of a stream that has as many. -/
theorem exists_last_four {hist : List UInt8} (h : 4 ≤ hist.length) :
    ∃ front a b c d, hist = front ++ [a, b, c, d] := by
  have hlen : (hist.drop (hist.length - 4)).length = 4 := by
    rw [length_drop]; omega
  obtain ⟨a, l, e1⟩ := exists_cons_of_length_eq_add_one hlen
  have h3 : l.length = 3 := by rw [e1, length_cons] at hlen; omega
  obtain ⟨b, c, d, rfl⟩ := length_eq_three.mp h3
  exact ⟨hist.take (hist.length - 4), a, b, c, d, by rw [← e1, take_append_drop]⟩

/-- What ends with four given bytes, in terms of its own last bytes. -/
theorem suffix_iff_of_last_four (front l : List UInt8) (a b c d : UInt8) (h : l.length ≤ 4) :
    l <:+ front ++ [a, b, c, d] ↔ l = [a, b, c, d].drop (4 - l.length) := by
  rw [suffix_iff_eq_drop, length_append, drop_append]
  have hfront : front.drop (front.length + [a, b, c, d].length - l.length) = [] :=
    drop_eq_nil_of_le (by simp only [length_cons, length_nil]; omega)
  have hnum : front.length + [a, b, c, d].length - l.length - front.length = 4 - l.length := by
    simp only [length_cons, length_nil]; omega
  rw [hfront, hnum, nil_append]

variable {iDf : Bool}

/-- **The flag is seen** exactly where the stream ends with it. -/
theorem atFlag_iff {hist : List UInt8} (h : 4 ≤ hist.length) :
    word hist % 256 ^ FLAG_SZ iDf = FLAG iDf ↔ flag iDf <:+ hist := by
  obtain ⟨front, a, b, c, d, rfl⟩ := exists_last_four h
  have ha := a.toNat_lt
  have hb := b.toNat_lt
  have hc := c.toNat_lt
  have hd := d.toNat_lt
  rw [word_four]
  cases iDf with
  | false =>
    rw [flag, suffix_iff_of_last_four _ _ _ _ _ _ (by decide)]
    show _ % 256 ^ 2 = 0xE14D ↔ [0xe1, 0x4d] = [c, d]
    simp only [cons.injEq, and_true, ← UInt8.toNat_inj, UInt8.reduceToNat]
    omega
  | true =>
    rw [flag, suffix_iff_of_last_four _ _ _ _ _ _ (by decide)]
    show _ % 256 ^ 4 = 0xE14DE14D ↔ [0xe1, 0x4d, 0xe1, 0x4d] = [a, b, c, d]
    simp only [cons.injEq, and_true, ← UInt8.toNat_inj, UInt8.reduceToNat]
    omega

/-- The lowest bytes do not depend on the higher ones. -/
theorem copyFrom_mod (n j w : Nat) (h : n ≤ j) : copyFrom n (w % 256 ^ j) = copyFrom n w := by
  induction n generalizing w j with
  | zero => rfl
  | succ n ih =>
    obtain ⟨j, rfl⟩ := Nat.exists_eq_add_of_le' (show 1 ≤ j by omega)
    have hlow : UInt8.ofNat (w % 256 ^ (j + 1)) = UInt8.ofNat w := by
      rw [← UInt8.toNat_inj, UInt8.toNat_ofNat', UInt8.toNat_ofNat']
      exact Nat.mod_mod_of_dvd w (Dvd.intro_left (256 ^ j) rfl)
    have hhigh : w % 256 ^ (j + 1) / 256 = w / 256 % 256 ^ j := by
      rw [pow_succ', Nat.mod_mul_right_div_self]
    rw [copyFrom, copyFrom, hlow, hhigh, ih j (w / 256) (by omega)]

/-- **The bytes copied out of the window** are the last ones of the stream. -/
theorem copyFrom_word (hist p : List UInt8) (h : p.length ≤ 4) :
    copyFrom p.length (word (hist ++ p)) = p := by
  induction p using reverseRecOn with
  | nil => rfl
  | append_singleton p b ih =>
    rw [length_append, length_singleton] at h ⊢
    have hb := b.toNat_lt
    have hlow : UInt8.ofNat (word (hist ++ p ++ [b])) = b := by
      rw [← UInt8.toNat_inj, UInt8.toNat_ofNat', word_concat, shiftIn]
      omega
    have hhigh : word (hist ++ p ++ [b]) / 256 = word (hist ++ p) % 256 ^ 3 := by
      rw [word_concat, shiftIn]
      omega
    rw [← append_assoc, copyFrom, hlow, hhigh, copyFrom_mod _ _ _ (by omega),
      ih (by omega)]

/-! ## 4. Between PDUs and inside a PDU -/

variable {p : Parcom} {hist : List UInt8}

/-- The parser between PDUs, at the start of a flag or of a PDU. -/
structure Ready (p : Parcom) (hist : List UInt8) : Prop where
  window : p.iCurrentInt32 = word hist
  long : 4 ≤ hist.length
  op : p.iCurrentOp = .ESkipFlags
  skip : p.iSkipBytes = 0
  pdu : p.iPdu = []

/-- The parser inside a PDU of which it has stored some bytes. -/
structure Inside (p : Parcom) (hist stored : List UInt8) : Prop where
  window : p.iCurrentInt32 = word hist
  long : 4 ≤ hist.length
  op : p.iCurrentOp = .ELookForEndFlag
  skip : p.iSkipBytes = 0
  pdu : p.iPdu = stored

@[simp] theorem flag_length (iDf : Bool) : (flag iDf).length = FLAG_SZ iDf := by
  cases iDf <;> rfl

theorem FLAG_SZ_pos (iDf : Bool) : 0 < FLAG_SZ iDf := by
  cases iDf <;> decide

theorem FLAG_SZ_le (iDf : Bool) : FLAG_SZ iDf ≤ 4 := by
  cases iDf <;> decide

/-- The flag without its last byte. -/
def flagFront (iDf : Bool) : List UInt8 := if iDf then [0xe1, 0x4d, 0xe1] else [0xe1]

theorem flag_eq (iDf : Bool) : flag iDf = flagFront iDf ++ [0x4d] := by
  cases iDf <;> rfl

theorem flagFront_length (iDf : Bool) : (flagFront iDf).length + 1 = FLAG_SZ iDf := by
  cases iDf <;> rfl

/-- A suffix that fits into the second part of a stream. -/
theorem suffix_append_iff {l a b : List UInt8} (h : l.length ≤ b.length) :
    l <:+ a ++ b ↔ l <:+ b :=
  ⟨fun hl => suffix_of_suffix_length_le hl (suffix_append a b) h,
   fun hl => hl.trans (suffix_append a b)⟩

/-- Fewer bytes than a flag has are counted only. -/
theorem Parse_skip (hp : Ready p hist) (q : List UInt8) (hq : q.length < FLAG_SZ p.iDf) :
    Parse p q = { p with iCurrentInt32 := word (hist ++ q), iSkipBytes := q.length } := by
  induction q using reverseRecOn with
  | nil =>
    rw [append_nil, ← hp.window, length_nil, ← hp.skip]
    rfl
  | append_singleton q b ih =>
    rw [length_append, length_singleton] at hq
    rw [Parse_concat, ih (by omega)]
    have hne : q.length + 1 ≠ FLAG_SZ p.iDf := by omega
    simp only [parseByte, hp.op, if_neg hne]
    rw [← append_assoc, word_concat, length_append, length_singleton]

/-- **A flag's worth of bytes between PDUs**: a flag is skipped, anything else starts a PDU. -/
theorem Parse_skip_full (hp : Ready p hist) (q : List UInt8) (hq : q.length = FLAG_SZ p.iDf) :
    (Parse p q).iDf = p.iDf ∧ (Parse p q).told = p.told ∧
      (q = flag p.iDf → Ready (Parse p q) (hist ++ q)) ∧
      (q ≠ flag p.iDf → Inside (Parse p q) (hist ++ q) q) := by
  have hpos := FLAG_SZ_pos p.iDf
  have hle := FLAG_SZ_le p.iDf
  have hlong : 4 ≤ (hist ++ q).length := by
    have := hp.long
    rw [length_append]; omega
  have hflag : word (hist ++ q) % 256 ^ FLAG_SZ p.iDf = FLAG p.iDf ↔ q = flag p.iDf := by
    rw [atFlag_iff hlong, suffix_append_iff (by rw [flag_length, hq])]
    constructor
    · intro h
      exact (h.eq_of_length (by rw [flag_length, hq])).symm
    · rintro rfl
      exact suffix_refl _
  obtain ⟨q', b, rfl⟩ : ∃ q' b, q = q' ++ [b] := by
    have hne : q ≠ [] := by
      rintro rfl
      rw [length_nil] at hq
      omega
    exact ⟨q.dropLast, q.getLast hne, (dropLast_concat_getLast hne).symm⟩
  have hlen : q'.length + 1 = FLAG_SZ p.iDf := by
    rw [← hq, length_append, length_singleton]
  rw [Parse_concat, Parse_skip hp q' (by omega)]
  simp only [parseByte, hp.op, if_pos hlen, ← word_concat, append_assoc]
  have hcopy : copyFrom (FLAG_SZ p.iDf) (word (hist ++ (q' ++ [b]))) = q' ++ [b] := by
    rw [← hq]
    exact copyFrom_word hist (q' ++ [b]) (by omega)
  by_cases h : q' ++ [b] = flag p.iDf
  · have hdec := hflag.mpr h
    simp only [hdec, decide_true, if_true]
    exact ⟨trivial, trivial, fun _ => ⟨rfl, hlong, rfl, rfl, hp.pdu⟩, fun hne => absurd h hne⟩
  · have hdec : ¬ word (hist ++ (q' ++ [b])) % 256 ^ FLAG_SZ p.iDf = FLAG p.iDf :=
      fun he => h (hflag.mp he)
    simp only [hdec, decide_false, Bool.false_eq_true, if_false, hcopy, hp.pdu, nil_append]
    exact ⟨trivial, trivial, fun he => absurd he h, fun _ => ⟨rfl, hlong, rfl, rfl, rfl⟩⟩

/-- Bytes of a PDU that do not complete a flag are stored. -/
theorem Parse_inside {stored : List UInt8} (hp : Inside p hist stored) (q : List UInt8)
    (hsize : stored.length + q.length < H223_MAX_MUX_PDU_SIZE)
    (hno : ∀ q', q' <+: q → q' ≠ [] → ¬ flag p.iDf <:+ hist ++ q') :
    (Parse p q).iDf = p.iDf ∧ (Parse p q).told = p.told ∧
      Inside (Parse p q) (hist ++ q) (stored ++ q) := by
  induction q using reverseRecOn with
  | nil =>
    refine ⟨rfl, rfl, ?_⟩
    rw [append_nil, append_nil]
    exact hp
  | append_singleton q b ih =>
    rw [length_append, length_singleton] at hsize
    obtain ⟨hdf, htold, hin⟩ := ih (by omega)
      fun q' hq' hne => hno q' (hq'.trans (prefix_append q [b])) hne
    have hlong : 4 ≤ (hist ++ q ++ [b]).length := by
      have := hp.long
      simp only [length_append]; omega
    have hflag : ¬ word (hist ++ q ++ [b]) % 256 ^ FLAG_SZ p.iDf = FLAG p.iDf := by
      rw [atFlag_iff hlong, append_assoc]
      exact hno (q ++ [b]) (prefix_refl _) (append_ne_nil_of_right_ne_nil q
        (cons_ne_nil b []))
    have hfull : ¬ (stored ++ q).length + 1 = H223_MAX_MUX_PDU_SIZE := by
      rw [length_append]; omega
    rw [Parse_concat]
    simp only [parseByte, hin.op, hin.window, ← word_concat, hdf, hflag, decide_false,
      Bool.false_eq_true, if_false, hin.pdu, hfull]
    exact ⟨trivial, htold, by simp, by simpa using hlong, rfl, hin.skip, by simp⟩

/-- The byte that completes a flag ends the PDU. -/
theorem parseByte_end {stored : List UInt8} (hp : Inside p hist stored) (b : UInt8)
    (hflag : flag p.iDf <:+ hist ++ [b]) :
    (parseByte p b).iDf = p.iDf ∧
      (parseByte p b).told
        = p.told ++ IndicatePdu (stored.take (stored.length - (FLAG_SZ p.iDf - 1))) ∧
      Ready (parseByte p b) (hist ++ [b]) := by
  have hlong : 4 ≤ (hist ++ [b]).length := by
    have := hp.long
    rw [length_append]; omega
  have hdec := (atFlag_iff hlong).mpr hflag
  simp only [parseByte, hp.op, hp.window, ← word_concat, hdec, decide_true, if_true, hp.pdu]
  exact ⟨trivial, trivial, rfl, hlong, rfl, hp.skip, rfl⟩

/-! ## 5. A whole session -/

/-- No flag shows in the content before the flag behind it does. -/
def Clean (iDf : Bool) (content : List UInt8) : Prop :=
  ∀ q, q <+: content ++ flagFront iDf → ¬ flag iDf <:+ q

/-- **A PDU and its end flag** between PDUs: the PDU is indicated. -/
theorem Parse_content (hp : Ready p hist) {content : List UInt8} (hne : content ≠ [])
    (hclean : Clean p.iDf content)
    (hsize : content.length + FLAG_SZ p.iDf ≤ H223_MAX_MUX_PDU_SIZE) :
    (Parse p (content ++ flag p.iDf)).iDf = p.iDf ∧
      (Parse p (content ++ flag p.iDf)).told = p.told ++ IndicatePdu content ∧
      Ready (Parse p (content ++ flag p.iDf)) (hist ++ (content ++ flag p.iDf)) := by
  have hfront := flagFront_length p.iDf
  have hpos : 0 < content.length := length_pos_iff.mpr hne
  -- the stream is a flag's worth of bytes, the bytes stored one by one, and the flag's last byte
  set m := content ++ flagFront p.iDf with hm
  have hmlen : m.length = content.length + FLAG_SZ p.iDf - 1 := by
    rw [hm, length_append]; omega
  have hstream : content ++ flag p.iDf
      = m.take (FLAG_SZ p.iDf) ++ (m.drop (FLAG_SZ p.iDf) ++ [0x4d]) := by
    rw [← append_assoc, take_append_drop, hm, flag_eq, append_assoc]
  have hqlen : (m.take (FLAG_SZ p.iDf)).length = FLAG_SZ p.iDf := by
    rw [length_take]; omega
  have hq : m.take (FLAG_SZ p.iDf) ≠ flag p.iDf := by
    intro he
    have hfirst := hclean _ ( take_prefix (FLAG_SZ p.iDf) m)
    rw [he] at hfirst
    exact hfirst (suffix_refl _)
  obtain ⟨hdf, htold, -, hstart⟩ := Parse_skip_full hp _ hqlen
  have hin := hstart hq
  have hseen : ∀ x, flag p.iDf <:+ hist ++ m.take (FLAG_SZ p.iDf) ++ x ↔
      flag p.iDf <:+ m.take (FLAG_SZ p.iDf) ++ x := fun x => by
    rw [append_assoc]
    exact suffix_append_iff (by rw [flag_length, length_append, hqlen]; omega)
  obtain ⟨hdf', htold', hin'⟩ := Parse_inside hin (m.drop (FLAG_SZ p.iDf))
    (by rw [hqlen, length_drop, hmlen]; unfold H223_MAX_MUX_PDU_SIZE at *; omega)
    (fun q' hq' _ => by
      rw [hdf, hseen]
      have hpre := (prefix_append_right_inj (m.take (FLAG_SZ p.iDf))).mpr hq'
      rw [take_append_drop] at hpre
      exact hclean _ hpre)
  rw [take_append_drop] at hin'
  have hend := parseByte_end hin' 0x4d (by
    rw [hdf', hdf, append_assoc, hseen, ← append_assoc, take_append_drop, hm,
      append_assoc, ← flag_eq]
    exact suffix_append _ _)
  obtain ⟨hdf'', htold'', hready⟩ := hend
  have hcut : m.take (m.length - (FLAG_SZ p.iDf - 1)) = content := by
    rw [hmlen, hm]
    exact take_left' (by omega)
  rw [hdf', hdf, hcut, htold', htold] at htold''
  rw [hstream, Parse_append, Parse_concat]
  refine ⟨hdf''.trans (hdf'.trans hdf), htold'', ?_⟩
  rw [← append_assoc, ← append_assoc]
  exact hready

/-- Contents, empty for stuffing, each with the flag behind it. -/
theorem Parse_contents (hp : Ready p hist) (contents : List (List UInt8))
    (hall : ∀ c ∈ contents, c = [] ∨
      Clean p.iDf c ∧ c.length + FLAG_SZ p.iDf ≤ H223_MAX_MUX_PDU_SIZE) :
    (Parse p (contents.map (· ++ flag p.iDf)).flatten).told
      = p.told ++ (contents.map IndicatePdu).flatten := by
  induction contents generalizing p hist with
  | nil => simp [Parse]
  | cons c contents ih =>
    have hone : (Parse p (c ++ flag p.iDf)).iDf = p.iDf ∧
        (Parse p (c ++ flag p.iDf)).told = p.told ++ IndicatePdu c ∧
        Ready (Parse p (c ++ flag p.iDf)) (hist ++ (c ++ flag p.iDf)) := by
      rcases eq_or_ne c [] with rfl | hne
      · obtain ⟨hdf, htold, hready, -⟩ := Parse_skip_full hp (flag p.iDf) (flag_length _)
        exact ⟨hdf, by simpa [IndicatePdu] using htold, hready rfl⟩
      · rcases hall c mem_cons_self with hnil | ⟨hclean, hsize⟩
        · exact absurd hnil hne
        · exact Parse_content hp hne hclean hsize
    obtain ⟨hdf, htold, hready⟩ := hone
    have hrest := ih hready fun c' hc' => by
      rw [hdf]
      exact hall c' (mem_cons_of_mem c hc')
    rw [hdf] at hrest
    rw [map_cons, flatten_cons, Parse_append, hrest, htold, map_cons,
      flatten_cons, append_assoc]

/-- What the sender puts on the line: a PDU, or stuffing into a buffer of some size. -/
inductive Sent where
  | pdu (payload : List UInt8) (mt : Nat) (pm : Bool)
  | stuffing (buf_size : Nat)

/-- Its bytes. -/
def Sent.bytes (iDf : Bool) : Sent → List UInt8
  | .pdu payload mt pm => CompletePdu iDf payload mt pm
  | .stuffing buf_size => GetStuffing iDf buf_size

/-- What stands between its flags. -/
def Sent.contents (iDf : Bool) : Sent → List (List UInt8)
  | .pdu payload mt pm =>
    (header mt false :: payload) :: if pm then [[header mt true]] else []
  | .stuffing buf_size => List.replicate (buf_size / FLAG_SZ iDf) []

/-- What is to be indicated: a PDU, and behind one with the packet marker an empty PDU of the same
    multiplex code that carries the closing flag. -/
def Sent.indications : Sent → List Indication
  | .pdu payload mt pm =>
    .muxPdu payload false mt :: if pm then [.muxPdu [] true mt] else []
  | .stuffing _ => []

/-- A PDU as the multiplexer makes it: a 4-bit multiplex code, flag, header and payload within the
    largest size, and no emulation of the flag: none in the payload and, where the flag is doubled,
    no half of it right before the next flag. -/
def Sent.WellFormed (iDf : Bool) : Sent → Prop
  | .pdu payload mt _ =>
    mt < 16 ∧ FLAG_SZ iDf + 1 + payload.length ≤ H223_MAX_MUX_PDU_SIZE ∧
      ¬ flag iDf <:+: payload ∧ (iDf = true → ¬ [0xe1, 0x4d] <:+ payload)
  | .stuffing _ => True

/-- A header byte never starts a flag. -/
theorem header_ne {mt : Nat} (hmt : mt < 16) (closing : Bool) : header mt closing ≠ 0xe1 := by
  revert mt closing
  decide

/-- **The header round trip.** -/
theorem IndicatePdu_header {mt : Nat} (hmt : mt < 16) (closing : Bool) (payload : List UInt8) :
    IndicatePdu (header mt closing :: payload) = [.muxPdu payload closing mt] := by
  have hfields : ∀ mt < 16, ∀ closing,
      ((header mt closing).toNat >>> 1) % 16 = mt ∧
      iHecCrc mt = (header mt closing).toNat >>> 5 ∧
      decide ((header mt closing).toNat % 2 = 1) = closing := by decide
  obtain ⟨hmux, hhec, hclosing⟩ := hfields mt hmt closing
  simp only [IndicatePdu, hmux, hhec, hclosing, ne_eq, not_true_eq_false, if_false]

/-- What ends with the flag ends with its last byte, and before that with the rest of it. -/
theorem of_flag_suffix {l : List UInt8} {b : UInt8} (h : flag iDf <:+ l ++ [b]) :
    b = 0x4d ∧ flagFront iDf <:+ l := by
  rw [flag_eq] at h
  rcases suffix_concat_iff.mp h with hnil | ⟨t, ht, hsuf⟩
  · exact absurd hnil (append_ne_nil_of_right_ne_nil _ (cons_ne_nil _ _))
  · obtain ⟨rfl, hb⟩ := append_inj' ht rfl
    exact ⟨(cons.inj hb).1.symm, hsuf⟩

/-- Without emulation of the flag a header and a payload are clean. -/
theorem clean_of_no_flag {hdr : UInt8} {payload : List UInt8} (hhdr : hdr ≠ 0xe1)
    (hno : ¬ flag iDf <:+: payload) (hhalf : iDf = true → ¬ [0xe1, 0x4d] <:+ payload) :
    Clean iDf (hdr :: payload) := by
  -- inside the content
  have hinside : ∀ q, q <+: hdr :: payload → ¬ flag iDf <:+ q := by
    intro q hq hsuf
    rcases infix_cons_iff.mp (hsuf.isInfix.trans hq.isInfix) with hpre | hin
    · cases iDf <;> exact hhdr (cons_prefix_cons.mp hpre).1.symm
    · exact hno hin
  intro q hq hsuf
  cases iDf with
  | false =>
    rcases prefix_concat_iff.mp hq with rfl | hq
    · exact absurd (of_flag_suffix hsuf).1 (by decide)
    · exact hinside q hq hsuf
  | true =>
    have hsplit : hdr :: payload ++ flagFront true
        = hdr :: payload ++ [0xe1] ++ [0x4d] ++ [0xe1] := by
      simp [flagFront]
    rw [hsplit] at hq
    rcases prefix_concat_iff.mp hq with rfl | hq
    · exact absurd (of_flag_suffix hsuf).1 (by decide)
    rcases prefix_concat_iff.mp hq with rfl | hq
    · -- half a flag at the end of the payload
      have hfront : [0xe1, 0x4d] ++ [0xe1] <:+ hdr :: payload ++ [0xe1] := (of_flag_suffix hsuf).2
      rcases suffix_concat_iff.mp hfront with hnil | ⟨t, ht, hpay⟩
      · exact absurd hnil (by simp)
      · obtain ⟨rfl, -⟩ := append_inj' ht rfl
        rcases suffix_cons_iff.mp hpay with heq | hpay
        · exact hhdr (cons.inj heq).1.symm
        · exact hhalf rfl hpay
    rcases prefix_concat_iff.mp hq with rfl | hq
    · exact absurd (of_flag_suffix hsuf).1 (by decide)
    · exact hinside q hq hsuf

/-- The flags of the pieces taken behind them instead of in front. -/
theorem flatten_rotate (f : List UInt8) (contents : List (List UInt8)) :
    (contents.map (f ++ ·)).flatten ++ f = f ++ (contents.map (· ++ f)).flatten := by
  induction contents with
  | nil => simp
  | cons c contents ih =>
    rw [map_cons, flatten_cons, append_assoc, ih]
    simp

/-- What is sent is its contents with a flag in front of each. -/
theorem Sent.bytes_eq (iDf : Bool) (s : Sent) :
    s.bytes iDf = ((s.contents iDf).map (flag iDf ++ ·)).flatten := by
  cases s with
  | pdu payload mt pm => cases pm <;> simp [bytes, contents, CompletePdu]
  | stuffing n => simp [bytes, contents, GetStuffing]

/-- What the contents are indicated as. -/
theorem Sent.indications_eq {s : Sent} (hs : s.WellFormed iDf) :
    ((s.contents iDf).map IndicatePdu).flatten = s.indications := by
  cases s with
  | pdu payload mt pm =>
    cases pm <;> simp [contents, indications, IndicatePdu_header hs.1]
  | stuffing n => simp [contents, indications, IndicatePdu]

/-- The contents of what is sent are clean and of a size the parser can hold. -/
theorem Sent.contents_clean {s : Sent} (hs : s.WellFormed iDf) :
    ∀ c ∈ s.contents iDf, c = [] ∨
      Clean iDf c ∧ c.length + FLAG_SZ iDf ≤ H223_MAX_MUX_PDU_SIZE := by
  intro c hc
  cases s with
  | pdu payload mt pm =>
    obtain ⟨hmt, hsize, hno, hhalf⟩ := hs
    rcases mem_cons.mp hc with rfl | hc
    · refine Or.inr ⟨clean_of_no_flag (header_ne hmt _) hno hhalf, ?_⟩
      rw [length_cons]; omega
    · have hempty : ∀ l : List UInt8, l ≠ [] → ¬ l <:+: ([] : List UInt8) := fun l hl h =>
        hl (infix_nil.mp h)
      cases pm with
      | false => exact absurd hc (by simp)
      | true =>
        obtain rfl : c = [header mt true] := by simpa using hc
        refine Or.inr ⟨clean_of_no_flag (header_ne hmt _)
          (hempty _ (by cases iDf <;> simp [flag])) fun _ h => hempty _ (by simp) h.isInfix, ?_⟩
        have := FLAG_SZ_le iDf
        simp only [length_singleton, H223_MAX_MUX_PDU_SIZE]; omega
  | stuffing n => exact Or.inl (eq_of_mem_replicate hc)

theorem bytes_flatMap (iDf : Bool) (sent : List Sent) :
    (sent.map (Sent.bytes iDf)).flatten
      = ((sent.flatMap (Sent.contents iDf)).map (flag iDf ++ ·)).flatten := by
  induction sent with
  | nil => rfl
  | cons s sent ih =>
    rw [map_cons, flatten_cons, ih, s.bytes_eq, flatMap_cons, map_append,
      flatten_append]

theorem indications_flatMap {sent : List Sent}
    (hsent : ∀ s ∈ sent, s.WellFormed iDf) :
    ((sent.flatMap (Sent.contents iDf)).map IndicatePdu).flatten
      = (sent.map Sent.indications).flatten := by
  induction sent with
  | nil => rfl
  | cons s sent ih =>
    rw [flatMap_cons, map_append, flatten_append,
      Sent.indications_eq (hsent s mem_cons_self),
      ih fun t ht => hsent t (mem_cons_of_mem s ht), map_cons, flatten_cons]

theorem ready_init (iDf : Bool) :
    let r := Parse (.init iDf) (flag iDf)
    r.iDf = iDf ∧ r.told = [] ∧ Ready r ([0, 0, 0, 0] ++ flag iDf) := by
  cases iDf <;> exact ⟨by decide, by decide, by decide, by decide, by decide, by decide, by decide⟩

/-- **A session.** Any sequence of PDUs and stuffing, with a flag behind it and divided into buffers
    in any way, is indicated PDU by PDU: payload, multiplex code and closing flag, nothing else. -/
theorem parse_flagged_session (iDf : Bool) (sent : List Sent) (hsent : ∀ s ∈ sent, s.WellFormed iDf)
    (bufs : List (List UInt8))
    (hbufs : bufs.flatten = (sent.map (Sent.bytes iDf)).flatten ++ flag iDf) :
    (bufs.foldl Parse (.init iDf)).told = (sent.map Sent.indications).flatten := by
  obtain ⟨hdf, htold, hready⟩ := ready_init iDf
  have hrun := Parse_contents hready (sent.flatMap (Sent.contents iDf)) (by
    rw [hdf]
    intro c hc
    obtain ⟨s, hs, hc⟩ := mem_flatMap.mp hc
    exact s.contents_clean (hsent s hs) c hc)
  rw [hdf, htold, nil_append, indications_flatMap hsent] at hrun
  rw [foldl_Parse, hbufs, bytes_flatMap, flatten_rotate, Parse_append]
  exact hrun

/-- A PDU shorter than the doubled flag, stuffing and a PDU with the packet marker, byte by byte. -/
theorem parse_session_short :
    ((((Sent.bytes true (.pdu [7] 2 false) ++ Sent.bytes true (.stuffing 9)
      ++ Sent.bytes true (.pdu [0xe1, 0x4d, 0xe1] 5 true) ++ flag true).map ([·])).foldl Parse
        (.init true)).told
      = [.muxPdu [7] false 2, .muxPdu [0xe1, 0x4d, 0xe1] false 5, .muxPdu [] true 5]) := by
  refine parse_flagged_session true [.pdu [7] 2 false, .stuffing 9, .pdu [0xe1, 0x4d, 0xe1] 5 true] ?_ _
    (by decide)
  intro s hs
  fin_cases hs
  · exact ⟨by decide, by decide, by decide, fun _ => by decide⟩
  · exact trivial
  · exact ⟨by decide, by decide, by decide, fun _ => by decide⟩

/-- A PDU sent with the packet marker is indicated without the closing flag, and an empty PDU with
    it is indicated too; and in double-flag mode a payload that ends with half a flag loses its
    end, although it holds no flag. -/
theorem parse_marker_and_half_flag :
    (Parse (.init false) (CompletePdu false [9] 3 true ++ flag false)).told
      = [.muxPdu [9] false 3, .muxPdu [] true 3] ∧
    ¬ flag true <:+: [header 3 false, 9, 0xe1, 0x4d] ∧
    (Parse (.init true) (CompletePdu true [9, 0xe1, 0x4d] 3 false ++ flag true)).told
      = [.muxPdu [9] false 3] := by
  refine ⟨by decide +kernel, by decide +kernel, by decide +kernel⟩

end OpenCore.H223.Level1
