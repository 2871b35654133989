/-
  File:      OpenCore/HttpParcom/ChunkedBody.lean
  Subject:   `HTTPParserCTEContentObject` (http_parser.cpp): a body in chunked transfer encoding,
             parsed as its fragments come in, the encoded bodies and the cuts that are safe.

  The last section is about size lines: what becomes of one that a fragment has a part of.
-/
import OpenCore.HttpParcom.ParserInput

namespace OpenCore.HttpParcom

open List

/-! ## 1. The code -/

/-- What `parse` returns, as far as a chunked body is concerned. -/
inductive ParseCode where
  | PARSE_SUCCESS
  | PARSE_SUCCESS_END_OF_INPUT
  | PARSE_SUCCESS_END_OF_MESSAGE
  | PARSE_NEED_MORE_DATA
  deriving DecidableEq

def isDigit (c : UInt8) : Bool := 48 ≤ c && c ≤ 57

def isHexDigit (c : UInt8) : Bool := isDigit c || 65 ≤ c && c ≤ 70 || 97 ≤ c && c ≤ 102

/-- `temp` of `PV_atoi` for a hexadecimal digit. -/
def hexDigit (c : UInt8) : UInt32 :=
  if 97 ≤ c then c.toUInt32 - 87 else if 65 ≤ c then c.toUInt32 - 55 else c.toUInt32 - 48

/-- `PV_atoi(.., 'x', ..)` on hexadecimal digits: it stops where the value gets smaller. -/
def PV_atoiHex (value : UInt32) : List UInt8 → UInt32
  | [] => value
  | c :: cs =>
    let next := value * 16 + hexDigit c
    if value > next then next else PV_atoiHex next cs

def getCTEChunkLength (aInputLineData : List UInt8) : Option Int :=
  let start := aInputLineData.dropWhile (! isHexDigit ·)
  if start = [] then none
  else if start.dropWhile isHexDigit = [] then none
  else some (toInt32 (PV_atoiHex 0 (start.takeWhile isHexDigit)).toNat)

/-- `HTTPParser` while it parses a chunked body: the input, `HTTPContentInfoInternal` and
    `HTTPParserCTEContentObject`. -/
structure ChunkedParser where
  iParserInput : HTTPParserInput
  iContentLength : Int
  iContentRangeLeft : Int
  iContentRangeRight : Int
  iCurrentChunkDataLength : Nat
  iNumChunks : Nat
  deriving DecidableEq

namespace ChunkedParser

/-- The parser after a header that says nothing but that the body is chunked. -/
def start : ChunkedParser := ⟨.cleared, 0, 0, 0, 0, 0⟩

variable (s : ChunkedParser)

def getContentRangeLength : Nat :=
  if s.iContentRangeRight = 0 then 0
  else toUInt32 (s.iContentRangeRight - s.iContentRangeLeft + 1)

/-- The loop of `parseEnityBodyChunkData`: the last size taken and what is still requested. -/
def takeData : Nat → ChunkedParser → Int → Nat → Nat × Int × ChunkedParser
  | 0, s, requestSize, actualSize => (actualSize, requestSize, s)
  | n + 1, s, requestSize, actualSize =>
    if requestSize > 0 then
      let (actualSize, input) := s.iParserInput.getData requestSize.toNat
      if actualSize = 0 then (0, requestSize, { s with iParserInput := input })
      else
        takeData n { s with
            iParserInput := input
            iCurrentChunkDataLength := add32 s.iCurrentChunkDataLength actualSize
            iNumChunks := add32 s.iNumChunks 1 }
          (requestSize - actualSize) actualSize
    else (actualSize, requestSize, s)

/-- `parseEnityBodyChunkData`. Each turn but the last uses up a fragment. -/
def parseEnityBodyChunkData : ParseCode × Option (List UInt8) × ChunkedParser :=
  let requestSize := toInt32 (sub32 s.getContentRangeLength s.iCurrentChunkDataLength)
  let (actualSize, requestSize, s) :=
    takeData (s.iParserInput.iDataInQueue.length + 1) s requestSize 0
  if actualSize = 0 ∧ requestSize > 0 then (.PARSE_NEED_MORE_DATA, none, s)
  else
    let (unit, input) := s.iParserInput.constructEntityUnit
    (.PARSE_SUCCESS, some unit, { s with iParserInput := input.skipCRLF })

/-- The bytes in the queue. -/
def queued (input : HTTPParserInput) : Nat :=
  (input.iDataInQueue.map fun f => f.bytes.length).sum

/-- The loop over the lines in front of the data: -1 where there is no size yet. -/
def readSize : Nat → HTTPParserInput → Int × HTTPParserInput
  | 0, input => (-1, input)
  | n + 1, input =>
    match input.getNextCompleteLine true with
    | (none, input) => (-1, input)
    | (some line, input) =>
      match getCTEChunkLength line with
      | some chunkLength => (chunkLength, input)
      | none => readSize n input

/-- The second half of `parse`: the data of the chunk. -/
def parseData : ParseCode × Option (List UInt8) × ChunkedParser :=
  let s := { s with iParserInput := s.iParserInput.skipCRLFChunkedCoding }
  match s.parseEnityBodyChunkData with
  | (.PARSE_SUCCESS, unit, s) =>
    -- `reset`
    let s := { s with
      iCurrentChunkDataLength := 0
      iContentRangeLeft := 0
      iContentRangeRight := 0 }
    let (done, input) := s.iParserInput.empty
    (if done then .PARSE_SUCCESS_END_OF_INPUT else .PARSE_SUCCESS, unit,
      { s with iParserInput := input })
  | r => r

/-- `HTTPParserCTEContentObject::parse`. Each line has at least one byte. -/
def parse : ParseCode × Option (List UInt8) × ChunkedParser :=
  if s.iContentRangeRight = 0 then
    let (chunkLength, input) := readSize (queued s.iParserInput + 1) s.iParserInput
    if chunkLength = -1 then (.PARSE_NEED_MORE_DATA, none, { s with iParserInput := input })
    else if chunkLength = 0 then
      (.PARSE_SUCCESS_END_OF_MESSAGE, none, { s with iParserInput := input })
    else
      parseData { s with
        iParserInput := { input with iDataOutQueue := [] }
        iContentRangeRight := chunkLength - 1
        iContentLength := s.iContentLength + chunkLength }
  else s.parseData

/-- `HTTPParser::parse` on a fragment, or on an empty one. -/
def call (aInputDataStream : Option MemFrag) : ParseCode × Option (List UInt8) × ChunkedParser :=
  let (more, input) := s.iParserInput.push_back aInputDataStream
  let s := { s with iParserInput := input }
  if more then s.parse else (.PARSE_NEED_MORE_DATA, none, s)

/-- How a parser is used: after `PARSE_SUCCESS` (`again`) it is called with an empty fragment, since
    there is more in the one it has; else with the next one. The units, and whether the end of the
    message was reported. -/
def drive : Nat → ChunkedParser → List MemFrag → Bool → List (List UInt8) × Bool
  | 0, _, _, _ => ([], false)
  | n + 1, s, fs, again =>
    if again = false ∧ fs = [] then ([], false)
    else
      let (code, unit, s) := s.call (if again then none else fs.head?)
      if code = .PARSE_SUCCESS_END_OF_MESSAGE then (unit.toList, true)
      else
        let (units, done) := drive n s (if again then fs else fs.tail) (code = .PARSE_SUCCESS)
        (unit.toList ++ units, done)

end ChunkedParser

/-! ## 2. The encoded body -/

/-- The number written in hexadecimal digits. -/
def hexValue (ds : List UInt8) : Nat := ds.foldl (fun v c => v * 16 + (hexDigit c).toNat) 0

/-- A size line without its end: digits and an extension. -/
structure SizeLine where
  digits : List UInt8
  ext : List UInt8
  digits_ne : digits ≠ []
  digits_hex : ∀ c ∈ digits, isHexDigit c = true
  ext_start : ext.head?.any isHexDigit = false
  ext_end : ∀ c ∈ ext, isEnd c = false

/-- The bytes of the line. -/
def SizeLine.bytes (l : SizeLine) : List UInt8 := l.digits ++ l.ext

/-- A chunk that is not empty. -/
structure Chunk extends SizeLine where
  data : List UInt8
  data_ne : data ≠ []
  size : hexValue digits = data.length

/-- The zero chunk, and what is behind its line. -/
structure LastChunk extends SizeLine where
  zero : hexValue digits = 0
  trailer : List UInt8
  /-- The line is not folded. -/
  trailer_start : trailer.head?.any isBlank = false

def Chunk.encode (c : Chunk) : List UInt8 :=
  c.bytes ++ [HTTP_CHAR_CR, HTTP_CHAR_LF] ++ c.data ++ [HTTP_CHAR_CR, HTTP_CHAR_LF]

/-- The encoded body. -/
def encode (chunks : List Chunk) (last : LastChunk) : List UInt8 :=
  chunks.flatMap Chunk.encode ++ (last.bytes ++ [HTTP_CHAR_CR, HTTP_CHAR_LF] ++ last.trailer)

/-! ## 3. Safe cuts -/

/-- Where the fragment behind `front` begins. -/
def fragStart (front : List MemFrag) : Nat := (front.map fun f => f.bytes.length).sum

/-- Where the size line of the chunk behind `front` ends. -/
def lineEnd (front : List Chunk) (c : Chunk) : Nat :=
  (front.flatMap Chunk.encode).length + c.bytes.length

/-- The cuts, and the chunks between them, that the parser copes with. -/
structure Safe (chunks : List Chunk) (fs : List MemFrag) : Prop where
  /-- A chunk has at least two bytes and fewer than `2^31`. -/
  size : ∀ c ∈ chunks, 2 ≤ c.data.length ∧ c.data.length < 2147483648
  /-- No cut is between the CR and the LF of a chunk's size line. -/
  cut : ∀ F f F' P c P', fs = F ++ f :: F' → chunks = P ++ c :: P' →
    fragStart F + f.bytes.length ≠ lineEnd P c + 1
  /-- A fragment with a piece of the size line and the first byte of the data: it is not blank. -/
  blank : ∀ F f F' P c P', fs = F ++ f :: F' → chunks = P ++ c :: P' →
    fragStart F < lineEnd P c → lineEnd P c + 2 < fragStart F + f.bytes.length →
    c.data.head?.any isBlank = false
  /-- The data of a chunk in a fragment does not begin with CR and LF, the byte behind a fragment
      included. -/
  pairs : ∀ F f F' P c P', fs = F ++ f :: F' → chunks = P ++ c :: P' →
    let start := max (lineEnd P c + 2) (fragStart F)
    start < lineEnd P c + 2 + c.data.length → start < fragStart F + f.bytes.length →
    pairs f.behind (f.bytes.drop (start - fragStart F)) = 0

/-! ## 4. Size lines -/

theorem le_foldl_hex (ds : List UInt8) (v : Nat) :
    v ≤ ds.foldl (fun v c => v * 16 + (hexDigit c).toNat) v := by
  induction ds generalizing v with
  | nil => exact le_rfl
  | cons c ds ih => exact Nat.le_trans (by omega) (ih (v * 16 + (hexDigit c).toNat))

/-- The value is read where it fits into 32 bits. -/
theorem PV_atoiHex_toNat (ds : List UInt8) (v : UInt32)
    (h : ds.foldl (fun v c => v * 16 + (hexDigit c).toNat) v.toNat < 4294967296) :
    (PV_atoiHex v ds).toNat = ds.foldl (fun v c => v * 16 + (hexDigit c).toNat) v.toNat := by
  induction ds generalizing v with
  | nil => rfl
  | cons c ds ih =>
    have hle := le_foldl_hex ds (v.toNat * 16 + (hexDigit c).toNat)
    have hlt : v.toNat * 16 + (hexDigit c).toNat < 4294967296 := Nat.lt_of_le_of_lt hle h
    have hnext : (v * 16 + hexDigit c).toNat = v.toNat * 16 + (hexDigit c).toNat := by
      rw [UInt32.toNat_add, UInt32.toNat_mul]
      rw [show (16 : UInt32).toNat = 16 from rfl, Nat.mod_add_mod]
      exact Nat.mod_eq_of_lt hlt
    have hgt : ¬ v > v * 16 + hexDigit c := by
      rw [gt_iff_lt, UInt32.lt_iff_toNat_lt, hnext]
      omega
    rw [foldl_cons] at h ⊢
    rw [PV_atoiHex, if_neg hgt, ih _ (by rw [hnext]; exact h), hnext]

variable {l : List UInt8}

theorem head?_any_append {p : UInt8 → Bool} {m : List UInt8} (hl : l.head?.any p = false)
    (hm : m.head?.any p = false) : (l ++ m).head?.any p = false := by
  cases l with
  | nil => exact hm
  | cons c l => exact hl

theorem takeWhile_of_head {p : UInt8 → Bool} (h : l.head?.any p = false) :
    l.takeWhile p = [] ∧ l.dropWhile p = l := by
  cases l with
  | nil => exact ⟨rfl, rfl⟩
  | cons c l =>
    have hc : p c = false := h
    simp [hc]

theorem getCTEChunkLength_line (l : SizeLine) {e : List UInt8} (he : e ≠ [])
    (hstart : e.head?.any isHexDigit = false) (hn : hexValue l.digits < 2147483648) :
    getCTEChunkLength (l.bytes ++ e) = some (hexValue l.digits : Int) := by
  obtain ⟨htake, hdrop⟩ := takeWhile_of_head (head?_any_append l.ext_start hstart)
  have hbytes : l.bytes ++ e = l.digits ++ (l.ext ++ e) := append_assoc _ _ _
  have hfirst : (l.bytes ++ e).dropWhile (! isHexDigit ·) = l.bytes ++ e := by
    rcases hd : l.digits with _ | ⟨d, ds⟩
    · exact absurd hd l.digits_ne
    · have hx : isHexDigit d = true := l.digits_hex d (by rw [hd]; exact mem_cons_self)
      rw [hbytes, hd]
      simp [hx]
  have htakeAll : (l.bytes ++ e).takeWhile isHexDigit = l.digits := by
    rw [hbytes, takeWhile_append_of_pos l.digits_hex, htake, append_nil]
  have hdropAll : (l.bytes ++ e).dropWhile isHexDigit = l.ext ++ e := by
    rw [hbytes, dropWhile_append_of_pos l.digits_hex, hdrop]
  unfold getCTEChunkLength
  dsimp only
  rw [hfirst, if_neg (by simp [he]), hdropAll, if_neg (by simp [he]), htakeAll,
    PV_atoiHex_toNat _ _ (by unfold hexValue at hn; rw [show (0 : UInt32).toNat = 0 from rfl]; omega)]
  exact congrArg some (toInt32_eq hn)

theorem SizeLine.bytes_ends (l : SizeLine) : ∀ c ∈ l.bytes, isEnd c = false := by
  intro c hc
  rcases mem_append.mp hc with h | h
  · have hx := l.digits_hex c h
    by_contra he
    have hor : c = HTTP_CHAR_CR ∨ c = HTTP_CHAR_LF :=
      or_iff_not_imp_left.mpr (by simpa [isEnd] using he)
    rcases hor with rfl | rfl <;> exact absurd hx (by decide)
  · exact l.ext_end c h

theorem SizeLine.bytes_ne (l : SizeLine) : l.bytes ≠ [] := by
  intro h
  exact l.digits_ne (append_eq_nil_iff.mp h).1

/-- Where a fragment ends that begins in a line. -/
theorem line_cut {r todo m : List UInt8}
    (h : r ++ todo = l ++ HTTP_CHAR_CR :: HTTP_CHAR_LF :: m) :
    (∃ l', l = r ++ l' ∧ todo = l' ++ HTTP_CHAR_CR :: HTTP_CHAR_LF :: m) ∨
    (r = l ++ [HTTP_CHAR_CR] ∧ todo = HTTP_CHAR_LF :: m) ∨
    ∃ m', r = l ++ HTTP_CHAR_CR :: HTTP_CHAR_LF :: m' ∧ m = m' ++ todo := by
  rcases append_eq_append_iff.mp h with ⟨l', hl, htodo⟩ | ⟨r', hr, hm⟩
  · exact .inl ⟨l', hl, htodo⟩
  · rcases r' with _ | ⟨a, _ | ⟨b, m'⟩⟩
    · exact .inl ⟨[], by simpa using hr.symm, by simpa using hm.symm⟩
    · obtain ⟨rfl, htodo⟩ := cons.inj hm
      exact .inr (.inl ⟨hr, htodo.symm⟩)
    · obtain ⟨ha, hm'⟩ := cons.inj hm
      obtain ⟨hb, htail⟩ := cons.inj hm'
      rw [← ha, ← hb] at hr
      exact .inr (.inr ⟨m', hr, htail⟩)

namespace ChunkedParser

open HTTPParserInput

variable {f : MemFrag} (out : List OutFrag) {o : Nat} {buf : List UInt8} (fl : Bool)

theorem head?_isEnd_line (hl : ∀ c ∈ l, isEnd c = false) (hne : l ≠ [])
    (m : List UInt8) : (l ++ m).head?.any isEnd = false := by
  rcases l with _ | ⟨c, l⟩
  · exact absurd rfl hne
  · exact hl c mem_cons_self

/-- **The rest of a size line** in a fragment: it goes on behind the fragment, or its size is
    read. -/
theorem readSize_line (l : SizeLine) (hn : hexValue l.digits < 2147483648) {l' m todo : List UInt8}
    (hl : buf ++ l' = l.bytes)
    (h : f.bytes.drop o ++ todo = l' ++ HTTP_CHAR_CR :: HTTP_CHAR_LF :: m)
    (hblank : ∀ m', l' ≠ [] → f.bytes.drop o = l' ++ HTTP_CHAR_CR :: HTTP_CHAR_LF :: m' →
      m'.head?.any isBlank = false) (n : Nat) :
    (∃ l'', l' = f.bytes.drop o ++ l'' ∧ todo = l'' ++ HTTP_CHAR_CR :: HTTP_CHAR_LF :: m ∧
      ∃ fl', readSize (n + 1) ⟨[f], out, o, buf, fl⟩ =
        (-1, ⟨[], out, 0, buf ++ f.bytes.drop o, fl'⟩)) ∨
    (f.bytes.drop o = l' ++ [HTTP_CHAR_CR] ∧ todo = HTTP_CHAR_LF :: m ∧
      ∃ out' fl', readSize (n + 1) ⟨[f], out, o, buf, fl⟩ =
        ((hexValue l.digits : Int), ⟨[f], out', o + (l'.length + 1), [], fl'⟩)) ∨
    ∃ m', f.bytes.drop o = l' ++ HTTP_CHAR_CR :: HTTP_CHAR_LF :: m' ∧ m = m' ++ todo ∧
      ∃ out' fl', readSize (n + 1) ⟨[f], out, o, buf, fl⟩ =
        ((hexValue l.digits : Int), ⟨[f], out', o + (l'.length + 2), [], fl'⟩) := by
  have hends : ∀ c ∈ l', isEnd c = false := fun c hc =>
    l.bytes_ends c (hl ▸ mem_append_right buf hc)
  rcases line_cut h with ⟨l'', hl', htodo⟩ | ⟨hr, htodo⟩ | ⟨m', hr, hm⟩
  · refine .inl ⟨l'', hl', htodo, ?_⟩
    rcases Nat.lt_or_ge o f.bytes.length with hlt | hge
    · have hpart := checkNextLine_part ((f.bytes.drop o).head?.any isEnd) (l := f.bytes.drop o)
        fun c hc => hends c (hl' ▸ mem_append_left l'' hc)
      refine ⟨fl || false, ?_⟩
      rw [readSize, getNextCompleteLine_part hlt hpart]
    · refine ⟨fl, ?_⟩
      rw [readSize, getNextCompleteLine_used hge, drop_eq_nil_of_le hge, append_nil]
  · have hlt : o < f.bytes.length := by
      have := congrArg length hr
      simp only [length_drop, length_append, length_singleton] at this
      omega
    have hline := checkNextLine_append ((f.bytes.drop o).head?.any isEnd) hends
      (checkNextLine_cr _) Nat.one_pos
    rw [← hr] at hline
    obtain ⟨out', hget⟩ := @getNextCompleteLine_complete f out o _ buf fl _ hlt hline (by omega)
    refine .inr (.inl ⟨hr, htodo, out', fl || false, ?_⟩)
    have htake : (f.bytes.drop o).take (l'.length + 1) = l' ++ [HTTP_CHAR_CR] := by
      rw [hr]
      exact take_of_length_le (by simp)
    rw [readSize, hget]
    dsimp only
    rw [htake, ← append_assoc, hl, getCTEChunkLength_line l (by simp) (by decide) hn]
  · have hlt : o < f.bytes.length := by
      have := congrArg length hr
      simp only [length_drop, length_append, length_cons] at this
      omega
    have hcond : (f.bytes.drop o).head?.any isEnd = true ∨ m'.head?.any isBlank = false := by
      by_cases hne : l' = []
      · left
        rw [hr, hne]
        rfl
      · exact .inr (hblank m' hne hr)
    have hline := checkNextLine_append ((f.bytes.drop o).head?.any isEnd) hends
      (checkNextLine_crlf hcond) Nat.two_pos
    rw [← hr] at hline
    obtain ⟨out', hget⟩ := @getNextCompleteLine_complete f out o _ buf fl _ hlt hline (by omega)
    refine .inr (.inr ⟨m', hr, hm, out', fl || false, ?_⟩)
    have htake : (f.bytes.drop o).take (l'.length + 2) = l' ++ [HTTP_CHAR_CR, HTTP_CHAR_LF] := by
      rw [hr, take_length_add_append]
      rfl
    rw [readSize, hget]
    dsimp only
    rw [htake, ← append_assoc, hl, getCTEChunkLength_line l (by simp) (by decide) hn]

/-- The end of the data in front of a size line, in a fragment: a part of it is behind the fragment,
    or its lines are passed. -/
theorem readSize_gap {gap m todo : List UInt8}
    (hgap : gap = [HTTP_CHAR_LF] ∨ gap = [HTTP_CHAR_CR, HTTP_CHAR_LF])
    (hm : m.head?.any isEnd = false) (h : f.bytes.drop o ++ todo = gap ++ m) (n : Nat) :
    (∃ gap', gap = f.bytes.drop o ++ gap' ∧ gap' ≠ [] ∧ todo = gap' ++ m ∧
      ∃ out' fl', readSize (n + 2) ⟨[f], out, o, [], fl⟩ = (-1, ⟨[], out', 0, [], fl'⟩)) ∨
    ∃ m', f.bytes.drop o = gap ++ m' ∧ m = m' ++ todo ∧
      ∃ out' fl', readSize (n + 2) ⟨[f], out, o, [], fl⟩ =
        readSize (n + 1) ⟨[f], out', o + gap.length, [], fl'⟩ := by
  have hgapne : gap ≠ [] := by rcases hgap with h | h <;> rw [h] <;> simp
  rcases Nat.lt_or_ge o f.bytes.length with hlt | hge
  swap
  · -- the fragment is used up
    have hnil : f.bytes.drop o = [] := drop_eq_nil_of_le hge
    refine .inl ⟨gap, by rw [hnil]; rfl, hgapne, by rw [hnil] at h; exact h, out, fl, ?_⟩
    rw [readSize, getNextCompleteLine_used hge]
  -- a line that is the end of the data, or the first half of it
  have hpass : ∀ e m', f.bytes.drop o = e ++ m' → e ≠ [] → getCTEChunkLength e = none →
      checkNextLine ((f.bytes.drop o).head?.any isEnd) (f.bytes.drop o) = (e.length, false) →
      ∃ out', readSize (n + 2) ⟨[f], out, o, [], fl⟩ =
        readSize (n + 1) ⟨[f], out', o + e.length, [], fl || false⟩ := by
    intro e m' he hne hnone hline
    obtain ⟨out', hget⟩ := @getNextCompleteLine_complete f out o _ [] fl _ hlt hline
      (length_pos_iff.mpr hne)
    refine ⟨out', ?_⟩
    have htake : (f.bytes.drop o).take e.length = e := by
      rw [he]
      exact take_left
    rw [readSize, hget]
    dsimp only
    rw [htake, nil_append, hnone]
  rcases append_eq_append_iff.mp h with ⟨gap', hg, htodo⟩ | ⟨m', hr, hm'⟩
  swap
  · -- all of it is in the fragment
    refine .inr ⟨m', hr, hm', ?_⟩
    have hm0 : m'.head?.any isEnd = false := by
      rcases m' with _ | ⟨c, m'⟩
      · rfl
      · rw [hm'] at hm
        exact hm
    rcases hgap with rfl | rfl
    · obtain ⟨out', hp⟩ := hpass _ _ hr hgapne (by decide) (by
        rw [hr]
        exact checkNextLine_lf hm0)
      exact ⟨out', _, hp⟩
    · obtain ⟨out', hp⟩ := hpass _ _ hr hgapne (by decide) (by
        rw [hr]
        exact checkNextLine_crlf (.inl rfl))
      exact ⟨out', _, hp⟩
  by_cases hne' : gap' = []
  · -- the fragment ends with it
    rw [hne', append_nil] at hg
    rw [hne', nil_append] at htodo
    refine .inr ⟨[], by rw [append_nil]; exact hg.symm, htodo.symm, ?_⟩
    have hr : f.bytes.drop o = gap ++ [] := by rw [append_nil]; exact hg.symm
    rcases hgap with rfl | rfl
    all_goals
      obtain ⟨out', hp⟩ := hpass _ _ hr hgapne (by decide) (by rw [← hg]; rfl)
      exact ⟨out', _, hp⟩
  · -- the CR alone is in the fragment
    refine .inl ⟨gap', hg, hne', htodo, ?_⟩
    have hpos : f.bytes.drop o ≠ [] := by
      intro hnil
      have := congrArg length hnil
      rw [length_drop, length_nil] at this
      omega
    have hcr : f.bytes.drop o = [HTTP_CHAR_CR] := by
      rcases hr : f.bytes.drop o with _ | ⟨a, r⟩
      · exact absurd hr hpos
      · rw [hr] at hg
        rcases hgap with rfl | rfl
        · obtain ⟨-, htail⟩ := cons.inj hg
          exact absurd (append_eq_nil_iff.mp htail.symm).2 hne'
        · obtain ⟨ha, htail⟩ := cons.inj hg
          rcases r with _ | ⟨b, r⟩
          · rw [← ha]
          · obtain ⟨-, htail⟩ := cons.inj htail
            exact absurd (append_eq_nil_iff.mp htail.symm).2 hne'
    obtain ⟨out', hp⟩ := hpass [HTTP_CHAR_CR] [] hcr (by simp) (by decide) (by rw [hcr]; rfl)
    have hlen := congrArg length hcr
    rw [length_drop] at hlen
    refine ⟨out', fl || false, ?_⟩
    rw [hp, readSize, getNextCompleteLine_used (by
      rw [length_singleton] at hlen ⊢
      omega)]

end ChunkedParser

end OpenCore.HttpParcom
