/-
  File:      OpenCore/HttpParcom/ParserInput.lean
  Subject:   `HTTPParserInput` (http_parser.cpp): the fragments a parser is given, the lines and the
             data taken from them.

  A fragment is its bytes and the byte that happens to lie behind it, which two of the loops read.
  Lines are looked for in the first fragment only; a part of a line at the end of a fragment is kept
  in the line buffer. What is handed up is a list of parts of the fragments.
-/
import OpenCore.Lib.Word32

namespace OpenCore.HttpParcom

/-! ## 1. The code -/

def HTTP_CHAR_CR : UInt8 := 13
def HTTP_CHAR_LF : UInt8 := 10
def HTTP_CHAR_SPACE : UInt8 := 32
def HTTP_CHAR_TAB : UInt8 := 9

/-- `c == HTTP_CHAR_CR || c == HTTP_CHAR_LF`. -/
def isEnd (c : UInt8) : Bool := c == HTTP_CHAR_CR || c == HTTP_CHAR_LF

/-- `c == HTTP_CHAR_SPACE || c == HTTP_CHAR_TAB`. -/
def isBlank (c : UInt8) : Bool := c == HTTP_CHAR_SPACE || c == HTTP_CHAR_TAB

/-- `OsclRefCounterMemFrag`: where the fragment lies, its bytes, and the byte behind them. -/
structure MemFrag where
  ptr : Nat
  bytes : List UInt8
  behind : UInt8
  size_lt : bytes.length < 4294967296
  deriving DecidableEq

/-- A part of a fragment to hand up: the bytes from its pointer on, and its length. -/
structure OutFrag where
  start : List UInt8
  len : Nat
  deriving DecidableEq

/-- The bytes of the part. -/
def OutFrag.bytes (o : OutFrag) : List UInt8 := o.start.take o.len

structure HTTPParserInput where
  iDataInQueue : List MemFrag
  iDataOutQueue : List OutFrag
  iDataInQueueMemFragOffset : Nat
  /-- `iLineBuffer` as far as it is occupied. -/
  iLineBuffer : List UInt8
  iCurrentHeaderOverMultipleLine : Bool
  deriving DecidableEq

/-- `checkNextLine`: the offset behind the next line, or 0, and whether the line is folded;
    `startEnds` says that the input starts with CR or LF. -/
def checkNextLine (startEnds : Bool) : List UInt8 → Nat × Bool
  | [] => (0, false)
  | [c] => (if isEnd c then 1 else 0, false)
  | c :: c' :: l =>
    if ¬ isEnd c then
      let r := checkNextLine startEnds (c' :: l)
      (if r.1 = 0 then 0 else r.1 + 1, r.2)
    else if ¬ startEnds ∧ l.head?.any isBlank then
      -- a line that goes on
      let r := checkNextLine startEnds l
      (if r.1 = 0 then 0 else r.1 + 2, true)
    else (if isEnd c' ∧ c' ≠ c then 2 else 1, false)

/-- The bytes that `skipCRLFChunkedCoding` passes: pairs of CR and LF, the last of which may lie
    half behind the fragment. -/
def pairs (behind : UInt8) : List UInt8 → Nat
  | c :: c' :: l => if c = HTTP_CHAR_CR ∧ c' = HTTP_CHAR_LF then pairs behind l + 2 else 0
  | [c] => if c = HTTP_CHAR_CR ∧ behind = HTTP_CHAR_LF then 2 else 0
  | [] => 0

namespace HTTPParserInput

/-- `clear`. -/
def cleared : HTTPParserInput := ⟨[], [], 0, [], false⟩

variable (s : HTTPParserInput)

/-- `push_back`: whether there is anything to parse, and the queue. No fragment is an empty one; the
    fragment that was given last is not queued again. -/
def push_back : Option MemFrag → Bool × HTTPParserInput
  | none => (!s.iDataInQueue.isEmpty, s)
  | some aFrag =>
    if s.iDataInQueue.getLast?.any (·.ptr == aFrag.ptr) then (true, s)
    else (true, { s with iDataInQueue := s.iDataInQueue ++ [aFrag] })

/-- `iDataInQueue[0].getMemFragSize() - iDataInQueueMemFragOffset`. -/
def availableFragSize (f : MemFrag) : Nat := sub32 f.bytes.length s.iDataInQueueMemFragOffset

/-- The bytes of a fragment from the current one on. -/
def rest (f : MemFrag) : List UInt8 := f.bytes.drop s.iDataInQueueMemFragOffset

/-- `constructOutputFragment`: the last part handed up gets a new length and pointer; for a new
    fragment, or where there is none, it is a new part. -/
def constructOutputFragment (aNewMemFragLen : Nat) (aNewMemFragPtr : Option (List UInt8))
    (isNewFrag : Bool) : HTTPParserInput :=
  let added : List OutFrag := if isNewFrag || s.iDataOutQueue.isEmpty then
      s.iDataInQueue.head?.toList.map fun f => ⟨f.bytes, f.bytes.length⟩
    else []
  let out := s.iDataOutQueue ++ added
  { s with iDataOutQueue := out.dropLast ++ out.getLast?.toList.map fun o =>
      ⟨aNewMemFragPtr.getD o.start, aNewMemFragLen⟩ }

/-- The first fragment is done with. -/
def dropFrag : HTTPParserInput :=
  { s with iDataInQueue := s.iDataInQueue.tail, iDataInQueueMemFragOffset := 0 }

/-- `getData`: the number of bytes taken. -/
def getData (aRequestDataSize : Nat) : Nat × HTTPParserInput :=
  match s.iDataInQueue with
  | [] => (0, s)
  | f :: _ =>
    let requestSize := if aRequestDataSize > 0 then aRequestDataSize else 0xffffffff
    let availableFragSize := s.availableFragSize f
    let actualSize := min requestSize availableFragSize
    let s' := if actualSize > 0 then
        s.constructOutputFragment actualSize (some (s.rest f)) (s.iDataInQueueMemFragOffset = 0)
      else s
    (actualSize, if availableFragSize ≤ requestSize then s'.dropFrag
      else { s' with iDataInQueueMemFragOffset := s'.iDataInQueueMemFragOffset + actualSize })

def skipCRLF : HTTPParserInput :=
  match s.iDataInQueue with
  | [] => s
  | f :: _ =>
    let passed := ((s.rest f).takeWhile isEnd).length
    { s with iDataInQueueMemFragOffset := s.iDataInQueueMemFragOffset + passed }

def skipCRLFChunkedCoding : HTTPParserInput :=
  match s.iDataInQueue with
  | [] => s
  | f :: _ =>
    let passed := pairs f.behind (s.rest f)
    { s with iDataInQueueMemFragOffset := s.iDataInQueueMemFragOffset + passed }

/-- The loop of `isNextLineAvailable` over the queue: the next complete line. -/
def nextLine (aHeaderParsed : Bool) :
    List MemFrag → HTTPParserInput → Option (List UInt8) × HTTPParserInput
  | [], s => (none, s)
  | f :: queue, s =>
    if s.iDataInQueueMemFragOffset ≥ f.bytes.length then (none, s.dropFrag)
    else
      let bNewData : Bool := s.iDataInQueueMemFragOffset = 0
      let frag := s.rest f
      let (offset, folded) := checkNextLine (frag.head?.any isEnd) frag
      let s := { s with
        iDataInQueueMemFragOffset := s.iDataInQueueMemFragOffset + offset
        iCurrentHeaderOverMultipleLine := s.iCurrentHeaderOverMultipleLine || folded }
      if offset > 0 ∧ s.iLineBuffer = [] then
        (some (frag.take offset),
          s.constructOutputFragment s.iDataInQueueMemFragOffset none bNewData)
      else
        let remaining_bytes := if offset > 0 then offset else frag.length
        -- `assemblyLineFragments`
        let s := { s with iLineBuffer := s.iLineBuffer ++ frag.take remaining_bytes }
        if offset > 0 then
          (some s.iLineBuffer,
            { s.constructOutputFragment s.iDataInQueueMemFragOffset none bNewData with
              iLineBuffer := [] })
        else
          let s := if aHeaderParsed then s
            else
              let out := if !bNewData && !s.iDataOutQueue.isEmpty then s.iDataOutQueue.dropLast
                else s.iDataOutQueue
              { s with iDataOutQueue := out ++ [⟨f.bytes, f.bytes.length⟩] }
          nextLine aHeaderParsed queue s.dropFrag

def getNextCompleteLine (aHeaderParsed : Bool) : Option (List UInt8) × HTTPParserInput :=
  nextLine aHeaderParsed s.iDataInQueue s

/-- `empty`: a single fragment that is used up is removed. -/
def empty : Bool × HTTPParserInput :=
  match s.iDataInQueue with
  | [] => (true, s)
  | [f] =>
    if s.iDataInQueueMemFragOffset = f.bytes.length then
      (true, { s with iDataInQueue := [], iDataInQueueMemFragOffset := 0 })
    else (false, s)
  | _ => (false, s)

/-- `constructEntityUnit`: the parts handed up, and the input without them. -/
def constructEntityUnit : List UInt8 × HTTPParserInput :=
  ((s.iDataOutQueue.map OutFrag.bytes).flatten, { s with iDataOutQueue := [] })

end HTTPParserInput

/-! ## 2. Lines -/

open OutFrag (bytes)

theorem checkNextLine_part (b : Bool) {l : List UInt8} (hl : ∀ c ∈ l, isEnd c = false) :
    checkNextLine b l = (0, false) := by
  induction l with
  | nil => rfl
  | cons c l ih =>
    have hc : isEnd c = false := hl c List.mem_cons_self
    have hrest := ih fun c' hc' => hl c' (List.mem_cons_of_mem c hc')
    cases l with
    | nil => simp [checkNextLine, hc]
    | cons c' l => simp [checkNextLine, hc, hrest]

/-- The part of a line in front of its end. -/
theorem checkNextLine_append (b : Bool) {l m : List UInt8} (hl : ∀ c ∈ l, isEnd c = false)
    {k : Nat} {folded : Bool} (hm : checkNextLine b m = (k, folded)) (hk : 0 < k) :
    checkNextLine b (l ++ m) = (l.length + k, folded) := by
  induction l with
  | nil => simpa using hm
  | cons c l ih =>
    have hc : isEnd c = false := hl c List.mem_cons_self
    have hrest := ih fun c' hc' => hl c' (List.mem_cons_of_mem c hc')
    obtain ⟨c', l', hcons⟩ : ∃ c' l', l ++ m = c' :: l' := by
      rcases hlm : l ++ m with _ | ⟨c', l'⟩
      · rw [hlm] at hrest
        have := congrArg Prod.fst hrest
        simp only [checkNextLine] at this
        omega
      · exact ⟨c', l', rfl⟩
    rw [List.cons_append, hcons, checkNextLine, if_pos (by simp [hc]), ← hcons, hrest]
    dsimp only
    rw [if_neg (by omega), List.length_cons]
    congr 1
    omega

variable {r : List UInt8}

/-- CR and LF, where the line does not go on. -/
theorem checkNextLine_crlf {b : Bool} (h : b = true ∨ r.head?.any isBlank = false) :
    checkNextLine b (HTTP_CHAR_CR :: HTTP_CHAR_LF :: r) = (2, false) := by
  rw [checkNextLine, if_neg (by decide), if_neg, if_pos (by decide)]
  rintro ⟨hb, hr⟩
  rcases h with h | h
  · exact hb h
  · exact absurd (h.symm.trans hr) (by decide)

theorem checkNextLine_cr (b : Bool) : checkNextLine b [HTTP_CHAR_CR] = (1, false) := rfl

/-- LF, and a line that does not begin with CR or LF. -/
theorem checkNextLine_lf (h : r.head?.any isEnd = false) :
    checkNextLine true (HTTP_CHAR_LF :: r) = (1, false) := by
  cases r with
  | nil => rfl
  | cons c r =>
    have hc : isEnd c = false := h
    rw [checkNextLine, if_neg (by decide), if_neg (by simp), if_neg (by simp [hc])]

namespace HTTPParserInput

variable {f : MemFrag} {out : List OutFrag} {o k : Nat} {buf : List UInt8} {fl b : Bool}

theorem getNextCompleteLine_complete (ho : o < f.bytes.length)
    (h : checkNextLine ((f.bytes.drop o).head?.any isEnd) (f.bytes.drop o) = (k, b)) (hk : 0 < k) :
    ∃ out', getNextCompleteLine ⟨[f], out, o, buf, fl⟩ true =
      (some (buf ++ (f.bytes.drop o).take k), ⟨[f], out', o + k, [], fl || b⟩) := by
  unfold getNextCompleteLine nextLine
  dsimp only
  rw [if_neg (Nat.not_le_of_lt ho)]
  unfold rest
  dsimp only
  rw [h]
  dsimp only
  by_cases hbuf : buf = []
  · rw [if_pos ⟨hk, hbuf⟩, hbuf]
    exact ⟨_, rfl⟩
  · rw [if_neg (by simp [hbuf]), if_pos hk, if_pos hk]
    exact ⟨_, rfl⟩

/-- A part of a line at the end of the fragment. -/
theorem getNextCompleteLine_part (ho : o < f.bytes.length)
    (h : checkNextLine ((f.bytes.drop o).head?.any isEnd) (f.bytes.drop o) = (0, b)) :
    getNextCompleteLine ⟨[f], out, o, buf, fl⟩ true =
      (none, ⟨[], out, 0, buf ++ f.bytes.drop o, fl || b⟩) := by
  unfold getNextCompleteLine nextLine
  dsimp only
  rw [if_neg (Nat.not_le_of_lt ho)]
  unfold rest
  dsimp only
  rw [h]
  dsimp only
  simp only [gt_iff_lt, Nat.lt_irrefl, false_and, if_false, if_true, List.take_length, nextLine]
  rfl

theorem getNextCompleteLine_used (ho : f.bytes.length ≤ o) :
    getNextCompleteLine ⟨[f], out, o, buf, fl⟩ true = (none, ⟨[], out, 0, buf, fl⟩) := by
  unfold getNextCompleteLine nextLine
  dsimp only
  rw [if_pos ho]
  rfl

/-! ## 3. Data -/

theorem availableFragSize_eq {s : HTTPParserInput} (h : s.iDataInQueueMemFragOffset ≤ f.bytes.length) :
    s.availableFragSize f = (s.rest f).length := by
  unfold availableFragSize rest
  rw [List.length_drop]
  exact sub32_eq h f.size_lt

/-- A new part is handed up, at the beginning of a fragment or where there was none. -/
theorem constructOutputFragment_new {isNewFrag : Bool} (h : isNewFrag = true ∨ out = []) (n : Nat)
    (start : List UInt8) :
    constructOutputFragment ⟨[f], out, o, buf, fl⟩ n (some start) isNewFrag =
      ⟨[f], out ++ [⟨start, n⟩], o, buf, fl⟩ := by
  have hnew : (isNewFrag || out.isEmpty) = true := by
    rcases h with h | h
    · rw [h]; rfl
    · rw [h]; simp
  unfold constructOutputFragment
  dsimp only
  rw [hnew]
  simp

/-- Less data than asked for: all of the fragment is handed up. -/
theorem getData_all (ho : o ≤ f.bytes.length) (hnew : o = 0 ∨ out = []) {n : Nat}
    (hn : (f.bytes.drop o).length ≤ n) (h0 : 0 < n) :
    ∃ out', getData ⟨[f], out, o, buf, fl⟩ n =
        ((f.bytes.drop o).length, ⟨[], out', 0, buf, fl⟩) ∧
      (out'.map bytes).flatten = (out.map bytes).flatten ++ f.bytes.drop o := by
  have hav : availableFragSize ⟨[f], out, o, buf, fl⟩ f = (f.bytes.drop o).length :=
    availableFragSize_eq ho
  unfold getData
  dsimp only
  rw [if_pos h0, hav, Nat.min_eq_right hn, if_pos hn]
  by_cases hpos : 0 < (f.bytes.drop o).length
  · rw [if_pos hpos, constructOutputFragment_new (by simpa using hnew)]
    refine ⟨_, rfl, ?_⟩
    simp [bytes, rest]
  · rw [if_neg hpos]
    refine ⟨_, rfl, ?_⟩
    rw [List.length_eq_zero_iff.mp (Nat.eq_zero_of_not_pos hpos), List.append_nil]

theorem getData_part (ho : o ≤ f.bytes.length) (hnew : o = 0 ∨ out = []) {n : Nat}
    (hn : n < (f.bytes.drop o).length) (h0 : 0 < n) :
    ∃ out', getData ⟨[f], out, o, buf, fl⟩ n = (n, ⟨[f], out', o + n, buf, fl⟩) ∧
      (out'.map bytes).flatten =
        (out.map bytes).flatten ++ (f.bytes.drop o).take n := by
  have hav : availableFragSize ⟨[f], out, o, buf, fl⟩ f = (f.bytes.drop o).length :=
    availableFragSize_eq ho
  unfold getData
  dsimp only
  rw [if_pos h0, hav, Nat.min_eq_left hn.le, if_neg (Nat.not_le_of_lt hn), if_pos h0,
    constructOutputFragment_new (by simpa using hnew)]
  refine ⟨_, rfl, ?_⟩
  simp [bytes, rest]

theorem skipCRLF_eq (h : (f.bytes.drop o).takeWhile isEnd = r) :
    skipCRLF ⟨[f], out, o, buf, fl⟩ = ⟨[f], out, o + r.length, buf, fl⟩ := by
  unfold skipCRLF rest
  dsimp only
  rw [h]

theorem empty_used (h : o = f.bytes.length) :
    empty ⟨[f], out, o, buf, fl⟩ = (true, ⟨[], out, 0, buf, fl⟩) := by
  unfold empty
  dsimp only
  rw [if_pos h]

theorem empty_left (h : o < f.bytes.length) :
    empty ⟨[f], out, o, buf, fl⟩ = (false, ⟨[f], out, o, buf, fl⟩) := by
  unfold empty
  dsimp only
  rw [if_neg h.ne]

theorem skipCRLFChunkedCoding_stay (h : pairs f.behind (f.bytes.drop o) = 0) :
    skipCRLFChunkedCoding ⟨[f], out, o, buf, fl⟩ = ⟨[f], out, o, buf, fl⟩ := by
  unfold skipCRLFChunkedCoding rest
  dsimp only
  rw [h, Nat.add_zero]

end HTTPParserInput

end OpenCore.HttpParcom
