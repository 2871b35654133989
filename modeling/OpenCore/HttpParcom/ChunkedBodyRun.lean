/-
  File:      OpenCore/HttpParcom/ChunkedBodyRun.lean
  Subject:   A chunked body, delivered fragment by fragment.

  Between two calls the parser waits for a size line, parts of which may be in the line buffer, or
  for the rest of a chunk's data. `SizeAt` and `DataAt` say what of the body is still to come in
  each of them, `Waits` joins the two with the parser's state.

  **Main result**: `parse_delivers`.
-/
import OpenCore.HttpParcom.ChunkedBody

namespace OpenCore.HttpParcom

open List
open OutFrag (bytes)

/-! ## 1. What is still to come -/

open Chunk (data)

/-- The size line that comes first. -/
def lineOf : List Chunk → LastChunk → SizeLine
  | [], last => last.toSizeLine
  | c :: _, _ => c.toSizeLine

/-- What follows that line. -/
def behindLine : List Chunk → LastChunk → List UInt8
  | [], last => last.trailer
  | c :: post, last => c.data ++ HTTP_CHAR_CR :: HTTP_CHAR_LF :: encode post last

theorem encode_eq (post : List Chunk) (last : LastChunk) :
    encode post last =
      (lineOf post last).bytes ++ HTTP_CHAR_CR :: HTTP_CHAR_LF :: behindLine post last := by
  cases post <;> simp [encode, lineOf, behindLine, Chunk.encode]

theorem Chunk.encode_length (c : Chunk) : c.encode.length = c.bytes.length + c.data.length + 4 := by
  simp only [Chunk.encode, length_append, length_cons, length_nil]
  omega

variable {chunks : List Chunk} {last : LastChunk}

/-- At `pos` the end `gap` of some data may come, and then the rest `ll` of a size line, of which
    `buf` is in the line buffer. -/
structure SizeAt (chunks : List Chunk) (last : LastChunk) (pos : Nat) (todo : List UInt8)
    (post : List Chunk) (buf gap ll : List UInt8) : Prop where
  at_line : ∃ front, chunks = front ++ post ∧
    pos + gap.length + ll.length =
      (front.flatMap Chunk.encode).length + (lineOf post last).bytes.length
  todo_eq : todo = gap ++ (ll ++ HTTP_CHAR_CR :: HTTP_CHAR_LF :: behindLine post last)
  line : buf ++ ll = (lineOf post last).bytes
  gap_eq : gap = [] ∨ buf = [] ∧ (gap = [HTTP_CHAR_LF] ∨ gap = [HTTP_CHAR_CR, HTTP_CHAR_LF])

/-- At `pos` the rest `dr` of a chunk's data comes. -/
structure DataAt (chunks : List Chunk) (last : LastChunk) (pos : Nat) (todo got dr : List UInt8)
    (c : Chunk) (post : List Chunk) : Prop where
  at_data : ∃ front, chunks = front ++ c :: post ∧
    pos + dr.length = lineEnd front c + 2 + c.data.length
  todo_eq : todo = dr ++ HTTP_CHAR_CR :: HTTP_CHAR_LF :: encode post last
  data : got ++ dr = c.data
  dr_ne : dr ≠ []

/-- Behind the data of a chunk its end comes, or a part of it. -/
theorem DataAt.behind {pos : Nat} {todo got dr : List UInt8} {c : Chunk} {post : List Chunk}
    (h : DataAt chunks last pos todo got dr c post) {gap gap' : List UInt8}
    (hgap : [HTTP_CHAR_CR, HTTP_CHAR_LF] = gap' ++ gap) :
    SizeAt chunks last (pos + dr.length + gap'.length) (gap ++ encode post last) post [] gap
      (lineOf post last).bytes := by
  obtain ⟨front, hchunks, hpos⟩ := h.at_data
  refine ⟨⟨front ++ [c], by rw [hchunks, append_assoc]; rfl, ?_⟩, by rw [encode_eq], rfl, ?_⟩
  · have hlen := congrArg length hgap
    simp only [length_append, length_cons, length_nil] at hlen
    rw [flatMap_append, length_append, flatMap_singleton, Chunk.encode_length]
    unfold lineEnd at hpos
    omega
  · rcases gap' with _ | ⟨a, _ | ⟨b, gap'⟩⟩
    · exact .inr ⟨rfl, .inr hgap.symm⟩
    · exact .inr ⟨rfl, .inl (cons.inj hgap).2.symm⟩
    · have htail := (cons.inj (cons.inj hgap).2).2
      exact .inl (append_eq_nil_iff.mp htail.symm).2

variable {c : Chunk} {s : ChunkedParser} {units : List (List UInt8)}

namespace ChunkedParser

open HTTPParserInput

/-- The parser between two calls: `todo` is still to come, of which `units` are to be handed up. -/
inductive Waits (chunks : List Chunk) (last : LastChunk) (q : List MemFrag) (o pos : Nat)
    (todo : List UInt8) : ChunkedParser → List (List UInt8) → Prop
  | size {out : List OutFrag} {buf : List UInt8} {fl : Bool} {len : Int} {k : Nat}
      {post : List Chunk} {gap ll : List UInt8} (h : SizeAt chunks last pos todo post buf gap ll) :
      Waits chunks last q o pos todo ⟨⟨q, out, o, buf, fl⟩, len, 0, 0, 0, k⟩ (post.map data)
  | data {out : List OutFrag} {fl : Bool} {len : Int} {k : Nat} {got dr : List UInt8} {c : Chunk}
      {post : List Chunk} (h : DataAt chunks last pos todo got dr c post)
      (hout : (out.map bytes).flatten = got) (hnew : o = 0 ∨ out = []) :
      Waits chunks last q o pos todo
        ⟨⟨q, out, o, [], fl⟩, len, 0, (c.data.length : Int) - 1, got.length, k⟩
        (c.data :: post.map data)

theorem waits_start (chunks : List Chunk) (last : LastChunk) :
    Waits chunks last [] 0 0 (encode chunks last) start (chunks.map data) := by
  have h : SizeAt chunks last 0 (encode chunks last) chunks [] [] (lineOf chunks last).bytes :=
    ⟨⟨[], rfl, by simp⟩, encode_eq _ _, rfl, .inl rfl⟩
  exact .size h

/-! ## 2. One call: the size line -/

section Frag

variable {fs F F' : List MemFrag} {f : MemFrag} {out : List OutFrag} {o pos : Nat}
  {buf : List UInt8} {fl : Bool} {todo : List UInt8} {post : List Chunk} {gap ll : List UInt8}

theorem size_lt (hs : Safe chunks fs) (hpost : ∃ front, chunks = front ++ post) :
    hexValue (lineOf post last).digits < 2147483648 := by
  obtain ⟨front, hfront⟩ := hpost
  rcases post with _ | ⟨c, post⟩
  · exact last.zero ▸ (by decide)
  · have hc : c ∈ chunks := by
      rw [hfront]
      exact mem_append_right _ mem_cons_self
    exact c.size ▸ (hs.size c hc).2

/-- The line is not taken for a folded one. -/
theorem not_folded (hs : Safe chunks fs) (hfs : fs = F ++ f :: F')
    (h : SizeAt chunks last (fragStart F + o) (f.bytes.drop o ++ todo) post buf [] ll)
    (m' : List UInt8) (hne : ll ≠ [])
    (hm' : f.bytes.drop o = ll ++ HTTP_CHAR_CR :: HTTP_CHAR_LF :: m') :
    m'.head?.any isBlank = false := by
  obtain ⟨front, hfront, hpos⟩ := h.at_line
  have htodo := h.todo_eq
  rw [hm', nil_append, append_assoc] at htodo
  have hbehind : m' ++ todo = behindLine post last := by simpa using append_cancel_left htodo
  rcases m' with _ | ⟨b, m'⟩
  · rfl
  have hb : (behindLine post last).head? = some b := by rw [← hbehind]; rfl
  rcases post with _ | ⟨c, post⟩
  · have := last.trailer_start
    rw [show last.trailer = behindLine [] last from rfl, hb] at this
    exact this
  · -- the line and the first byte of the data are in this fragment
    have hllpos := length_pos_iff.mpr hne
    have hlen := congrArg length hm'
    simp only [length_drop, length_append, length_cons] at hlen
    simp only [length_nil, Nat.add_zero] at hpos
    have hend : lineEnd front c = fragStart F + o + ll.length := hpos.symm
    have hblank := hs.blank F f F' front c post hfs hfront (by omega) (by omega)
    rcases hd : c.data with _ | ⟨d, ds⟩
    · exact absurd hd c.data_ne
    · rw [hd] at hblank
      have hdb : some d = some b := by
        rw [← hb]
        simp [behindLine, hd]
      cases hdb
      exact hblank

variable (out fl)

/-- What becomes of the rest of a size line: it goes on behind the fragment, it was the last one, or
    a chunk's data comes. -/
theorem readSize_rest (hs : Safe chunks fs) (hfs : fs = F ++ f :: F')
    (h : SizeAt chunks last (fragStart F + o) (f.bytes.drop o ++ todo) post buf [] ll)
    (ho : o ≤ f.bytes.length) (n : Nat) :
    (∃ out' buf' fl' ll', readSize (n + 1) ⟨[f], out, o, buf, fl⟩ = (-1, ⟨[], out', 0, buf', fl'⟩) ∧
      SizeAt chunks last (fragStart F + f.bytes.length) todo post buf' [] ll') ∨
    (post = [] ∧ ∃ input, readSize (n + 1) ⟨[f], out, o, buf, fl⟩ = (0, input)) ∨
    ∃ c post' out' o' fl', post = c :: post' ∧
      readSize (n + 1) ⟨[f], out, o, buf, fl⟩ =
        ((c.data.length : Int), ⟨[f], out', o', [], fl'⟩) ∧
      o < o' ∧ o' ≤ f.bytes.length ∧
      DataAt chunks last (fragStart F + o') (f.bytes.drop o' ++ todo) [] c.data c post' := by
  obtain ⟨front, hfront, hpos⟩ := h.at_line
  simp only [length_nil, Nat.add_zero] at hpos
  have htodo := h.todo_eq
  rw [nil_append] at htodo
  have hdrop : (f.bytes.drop o).length = f.bytes.length - o := length_drop
  rcases readSize_line out fl (lineOf post last) (size_lt hs ⟨front, hfront⟩) h.line
    htodo (not_folded hs hfs h) n with
    ⟨l', hll, htodo', fl', hread⟩ | ⟨hr, -, out', fl', hread⟩ | ⟨m', hr, hm, out', fl', hread⟩
  · refine .inl ⟨out, buf ++ f.bytes.drop o, fl', l', hread, ⟨front, hfront, ?_⟩, htodo', ?_,
      .inl rfl⟩
    · have hlen := congrArg length hll
      rw [length_append, hdrop] at hlen
      simp only [length_nil]
      omega
    · rw [append_assoc, ← hll]
      exact h.line
  · -- the cut is in the end of the line
    have hlen := congrArg length hr
    rw [hdrop, length_append, length_singleton] at hlen
    rcases post with _ | ⟨c, post⟩
    · rw [show hexValue (lineOf [] last).digits = 0 from last.zero, Nat.cast_zero] at hread
      exact .inr (.inl ⟨rfl, _, hread⟩)
    · have hend : lineEnd front c = fragStart F + o + ll.length := hpos.symm
      exact absurd (by omega) (hs.cut F f F' front c post hfs hfront)
  · have hlen := congrArg length hr
    rw [hdrop, length_append, length_cons, length_cons] at hlen
    rcases post with _ | ⟨c, post⟩
    · rw [show hexValue (lineOf [] last).digits = 0 from last.zero, Nat.cast_zero] at hread
      exact .inr (.inl ⟨rfl, _, hread⟩)
    · have hend : lineEnd front c = fragStart F + o + ll.length := hpos.symm
      rw [show hexValue (lineOf (c :: post) last).digits = c.data.length from c.size] at hread
      refine .inr (.inr ⟨c, post, out', _, fl', rfl, hread, by omega, by omega,
        ⟨front, hfront, by omega⟩, ?_, rfl, c.data_ne⟩)
      have hrest : f.bytes.drop (o + (ll.length + 2)) = m' := by
        rw [← drop_drop, hr, drop_length_add_append]
        rfl
      rw [hrest, ← hm]
      rfl

/-- What is left of the end of some data. -/
theorem gap_rest {r gap' : List UInt8}
    (hgap : gap = [HTTP_CHAR_LF] ∨ gap = [HTTP_CHAR_CR, HTTP_CHAR_LF]) (hr : gap = r ++ gap')
    (hne : gap' ≠ []) : gap' = [HTTP_CHAR_LF] ∨ gap' = [HTTP_CHAR_CR, HTTP_CHAR_LF] := by
  rcases r with _ | ⟨a, r⟩
  · rw [nil_append] at hr
    exact hr ▸ hgap
  · left
    have htail : gap.tail = r ++ gap' := by rw [hr]; rfl
    rcases hgap with rfl | rfl
    · exact absurd (append_eq_nil_iff.mp htail.symm).2 hne
    · rcases r with _ | ⟨b, r⟩
      · exact htail.symm
      · exact absurd (append_eq_nil_iff.mp (cons.inj htail).2.symm).2 hne

/-- What becomes of a size line, the end of the data in front of it included. -/
theorem readSize_spec (hs : Safe chunks fs) (hfs : fs = F ++ f :: F')
    (h : SizeAt chunks last (fragStart F + o) (f.bytes.drop o ++ todo) post buf gap ll)
    (ho : o ≤ f.bytes.length) (n : Nat) :
    (∃ out' buf' fl' gap' ll',
      readSize (n + 2) ⟨[f], out, o, buf, fl⟩ = (-1, ⟨[], out', 0, buf', fl'⟩) ∧
      SizeAt chunks last (fragStart F + f.bytes.length) todo post buf' gap' ll') ∨
    (post = [] ∧ ∃ input, readSize (n + 2) ⟨[f], out, o, buf, fl⟩ = (0, input)) ∨
    ∃ c post' out' o' fl', post = c :: post' ∧
      readSize (n + 2) ⟨[f], out, o, buf, fl⟩ =
        ((c.data.length : Int), ⟨[f], out', o', [], fl'⟩) ∧
      o < o' ∧ o' ≤ f.bytes.length ∧
      DataAt chunks last (fragStart F + o') (f.bytes.drop o' ++ todo) [] c.data c post' := by
  rcases h.gap_eq with rfl | ⟨rfl, hgap⟩
  · rcases readSize_rest out fl hs hfs h ho (n + 1) with
      ⟨out', buf', fl', ll', hread, h'⟩ | hend | hdata
    · exact .inl ⟨out', buf', fl', [], ll', hread, h'⟩
    · exact .inr (.inl hend)
    · exact .inr (.inr hdata)
  obtain ⟨front, hfront, hpos⟩ := h.at_line
  have hline : ll = (lineOf post last).bytes := h.line
  have hdrop : (f.bytes.drop o).length = f.bytes.length - o := length_drop
  have hne : (ll ++ HTTP_CHAR_CR :: HTTP_CHAR_LF :: behindLine post last).head?.any isEnd =
      false := by
    rw [hline]
    exact head?_isEnd_line (lineOf post last).bytes_ends (lineOf post last).bytes_ne _
  rcases readSize_gap out fl hgap hne h.todo_eq n with
    ⟨gap', hg, hne', htodo', out', fl', hread⟩ | ⟨m', hr, hm, out', fl', hread⟩
  · have hlen := congrArg length hg
    rw [length_append, hdrop] at hlen
    exact .inl ⟨out', [], fl', gap', ll, hread, ⟨front, hfront, by omega⟩, htodo', h.line,
      .inr ⟨rfl, gap_rest hgap hg hne'⟩⟩
  · have hlen := congrArg length hr
    rw [length_append, hdrop] at hlen
    have hgappos : 0 < gap.length := by rcases hgap with h | h <;> rw [h] <;> simp
    have hrest : f.bytes.drop (o + gap.length) = m' := by
      rw [← drop_drop, hr, drop_left]
    have h' : SizeAt chunks last (fragStart F + (o + gap.length))
        (f.bytes.drop (o + gap.length) ++ todo) post [] [] ll :=
      ⟨⟨front, hfront, by rw [length_nil]; omega⟩, by rw [hrest, ← hm]; rfl, h.line, .inl rfl⟩
    rcases readSize_rest out' fl' hs hfs h' (by omega) n with
      ⟨out'', buf', fl'', ll', hread', h''⟩ | ⟨hpost, input, hread'⟩ |
      ⟨c, post', out'', o', fl'', hpost, hread', hlt, hle, hdata⟩
    · exact .inl ⟨out'', buf', fl'', [], ll', hread.trans hread', h''⟩
    · exact .inr (.inl ⟨hpost, input, hread.trans hread'⟩)
    · exact .inr (.inr ⟨c, post', out'', o', fl'', hpost, hread.trans hread', by omega, hle, hdata⟩)

variable {out fl}

/-! ## 3. One call: the data -/

variable {got dr : List UInt8}

/-- The data does not begin with CR and LF. -/
theorem not_skipped (hs : Safe chunks fs) (hfs : fs = F ++ f :: F')
    (h : DataAt chunks last (fragStart F + o) (f.bytes.drop o ++ todo) got dr c post)
    (hgot : o = 0 ∨ got = []) : pairs f.behind (f.bytes.drop o) = 0 := by
  obtain ⟨front, hfront, hpos⟩ := h.at_data
  have hdata := congrArg length h.data
  have hdr := length_pos_iff.mpr h.dr_ne
  rw [length_append] at hdata
  rcases Nat.lt_or_ge o f.bytes.length with hlt | hge
  · have hstart : max (lineEnd front c + 2) (fragStart F) = fragStart F + o := by
      rcases hgot with rfl | rfl
      · exact max_eq_right (by omega)
      · rw [length_nil] at hdata
        rw [max_eq_left (by omega)]
        omega
    have hpairs := hs.pairs F f F' front c post hfs hfront
    dsimp only at hpairs
    rw [hstart, Nat.add_sub_cancel_left] at hpairs
    exact hpairs (by omega) (by omega)
  · rw [drop_eq_nil_of_le hge]
    rfl

/-- What is requested is what is missing. -/
theorem request_eq (hdata : got ++ dr = c.data)
    (hsize : 2 ≤ c.data.length ∧ c.data.length < 2147483648) (hleft : s.iContentRangeLeft = 0)
    (hright : s.iContentRangeRight = (c.data.length : Int) - 1)
    (hgot : s.iCurrentChunkDataLength = got.length) :
    toInt32 (sub32 s.getContentRangeLength s.iCurrentChunkDataLength) = (dr.length : Int) := by
  have hlen := congrArg length hdata
  rw [length_append] at hlen
  have hrange : s.getContentRangeLength = c.data.length := by
    unfold getContentRangeLength
    rw [if_neg (by omega), hright, hleft,
      show (c.data.length : Int) - 1 - 0 + 1 = (c.data.length : Int) by omega]
    rw [toUInt32_eq (by omega) (by omega)]
    exact Int.toNat_natCast _
  have hsub : sub32 c.data.length got.length = dr.length := by
    rw [sub32_eq (by omega) (by omega)]
    omega
  rw [hrange, hgot, hsub]
  exact toInt32_eq (by omega)

variable (len right : Int) {g n : Nat} (k : Nat) (fl)

/-- The fragment has no more than what is requested. -/
theorem takeData_all (ho : o ≤ f.bytes.length) (hnew : o = 0 ∨ out = []) (hn : 0 < n)
    (hle : (f.bytes.drop o).length ≤ n) (hg : g + n < 4294967296) :
    ∃ out' k', takeData 2 ⟨⟨[f], out, o, [], fl⟩, len, 0, right, g, k⟩ (n : Int) 0 =
        (if (f.bytes.drop o).length < n then 0 else n, (n : Int) - ((f.bytes.drop o).length : Int),
          ⟨⟨[], out', 0, [], fl⟩, len, 0, right, g + (f.bytes.drop o).length, k'⟩) ∧
      (out'.map bytes).flatten = (out.map bytes).flatten ++ f.bytes.drop o := by
  obtain ⟨out', hget, hout⟩ := @getData_all f out o [] fl ho hnew n hle hn
  by_cases h0 : (f.bytes.drop o).length = 0
  · refine ⟨out', k, ?_, hout⟩
    rw [takeData, if_pos (by omega)]
    dsimp only
    rw [Int.toNat_natCast, hget]
    dsimp only
    rw [if_pos h0, h0, if_pos hn]
    simp
  · refine ⟨out', add32 k 1, ?_, hout⟩
    rw [takeData, if_pos (by omega)]
    dsimp only
    rw [Int.toNat_natCast, hget]
    dsimp only
    rw [if_neg h0, add32_eq (a := g) (by omega), takeData]
    by_cases hlt : (f.bytes.drop o).length < n
    · rw [if_pos (by omega), if_pos hlt]
      rfl
    · rw [if_neg (by omega), if_neg hlt, Nat.le_antisymm hle (Nat.le_of_not_lt hlt)]

/-- The fragment has more than what is requested. -/
theorem takeData_part (ho : o ≤ f.bytes.length) (hnew : o = 0 ∨ out = []) (hn : 0 < n)
    (hlt : n < (f.bytes.drop o).length) (hg : g + n < 4294967296) :
    ∃ out' k', takeData 2 ⟨⟨[f], out, o, [], fl⟩, len, 0, right, g, k⟩ (n : Int) 0 =
        (n, 0, ⟨⟨[f], out', o + n, [], fl⟩, len, 0, right, g + n, k'⟩) ∧
      (out'.map bytes).flatten =
        (out.map bytes).flatten ++ (f.bytes.drop o).take n := by
  obtain ⟨out', hget, hout⟩ := @getData_part f out o [] fl ho hnew n hlt hn
  refine ⟨out', add32 k 1, ?_, hout⟩
  rw [takeData, if_pos (by omega)]
  dsimp only
  rw [Int.toNat_natCast, hget]
  dsimp only
  rw [if_neg (by omega), add32_eq (a := g) (by omega), takeData, Int.sub_self, if_neg (by omega)]

variable {len} {k} {fl}

/-- The end of the data in a fragment is passed, as far as it is there. -/
theorem skipCRLF_behind {m : List UInt8} (hm : m.head?.any isEnd = false)
    (h : f.bytes.drop o ++ todo = HTTP_CHAR_CR :: HTTP_CHAR_LF :: m) (hne : f.bytes.drop o ≠ []) :
    ∃ gap' gap, gap' ≠ [] ∧ [HTTP_CHAR_CR, HTTP_CHAR_LF] = gap' ++ gap ∧
      skipCRLF ⟨[f], out, o, buf, fl⟩ = ⟨[f], out, o + gap'.length, buf, fl⟩ ∧
      ∃ m', f.bytes.drop o = gap' ++ m' ∧ m' ++ todo = gap ++ m ∧ (m' ≠ [] → gap = []) := by
  rcases hr : f.bytes.drop o with _ | ⟨a, r⟩
  · exact absurd hr hne
  rw [hr, cons_append] at h
  obtain ⟨rfl, htail⟩ := cons.inj h
  rcases r with _ | ⟨b, r⟩
  · exact ⟨[HTTP_CHAR_CR], [HTTP_CHAR_LF], by simp, rfl, skipCRLF_eq (by rw [hr]; rfl), [], rfl,
      htail, fun h => absurd rfl h⟩
  · rw [cons_append] at htail
    obtain ⟨rfl, hm'⟩ := cons.inj htail
    have hend : r.takeWhile isEnd = [] := by
      refine (takeWhile_of_head ?_).1
      rcases r with _ | ⟨d, r⟩
      · rfl
      · rw [← hm'] at hm
        exact hm
    have htake : (f.bytes.drop o).takeWhile isEnd = [HTTP_CHAR_CR, HTTP_CHAR_LF] := by
      rw [hr, takeWhile_cons_of_pos (by decide), takeWhile_cons_of_pos (by decide), hend]
    exact ⟨[HTTP_CHAR_CR, HTTP_CHAR_LF], [], by simp, rfl, skipCRLF_eq htake, r, rfl, hm',
      fun _ => rfl⟩

theorem append_of_le {a b c d : List UInt8} (h : a ++ b = c ++ d) (hle : a.length ≤ c.length) :
    ∃ x, c = a ++ x ∧ b = x ++ d := by
  rcases append_eq_append_iff.mp h with hx | ⟨x, hx, hd⟩
  · exact hx
  · have hlen := congrArg length hx
    rw [length_append] at hlen
    have hnil : x = [] := length_eq_zero_iff.mp (by omega)
    rw [hnil, append_nil] at hx
    rw [hnil, nil_append] at hd
    exact ⟨[], by rw [hx, append_nil], hd.symm⟩

variable (out fl len k)

/-- What becomes of the data of a chunk. -/
theorem parseData_spec (hs : Safe chunks fs) (hfs : fs = F ++ f :: F')
    (h : DataAt chunks last (fragStart F + o) (f.bytes.drop o ++ todo) got dr c post)
    (hout : (out.map bytes).flatten = got) (hnew : o = 0 ∨ out = [])
    (ho : o ≤ f.bytes.length) :
    (∃ s', parseData ⟨⟨[f], out, o, [], fl⟩, len, 0, (c.data.length : Int) - 1, got.length, k⟩ =
        (.PARSE_NEED_MORE_DATA, none, s') ∧
      Waits chunks last [] 0 (fragStart F + f.bytes.length) todo s'
        (c.data :: post.map data)) ∨
    (∃ s', parseData ⟨⟨[f], out, o, [], fl⟩, len, 0, (c.data.length : Int) - 1, got.length, k⟩ =
        (.PARSE_SUCCESS_END_OF_INPUT, some c.data, s') ∧
      Waits chunks last [] 0 (fragStart F + f.bytes.length) todo s' (post.map data)) ∨
    ∃ o' s', o < o' ∧ o' < f.bytes.length ∧
      parseData ⟨⟨[f], out, o, [], fl⟩, len, 0, (c.data.length : Int) - 1, got.length, k⟩ =
        (.PARSE_SUCCESS, some c.data, s') ∧
      Waits chunks last [f] o' (fragStart F + o') (f.bytes.drop o' ++ todo) s'
        (post.map data) := by
  obtain ⟨front, hfront, hpos⟩ := h.at_data
  have hsize : 2 ≤ c.data.length ∧ c.data.length < 2147483648 :=
    hs.size c (hfront ▸ mem_append_right _ mem_cons_self)
  have hgot : o = 0 ∨ got = [] := hnew.imp_right fun hnil => by rw [← hout, hnil]; rfl
  have hstay := @skipCRLFChunkedCoding_stay f out o [] fl (not_skipped hs hfs h hgot)
  have hreq := request_eq h.data (s := ⟨⟨[f], out, o, [], fl⟩, len, 0, (c.data.length : Int) - 1,
    got.length, k⟩) hsize rfl rfl rfl
  have hdr : 0 < dr.length := length_pos_iff.mpr h.dr_ne
  have hdata := congrArg length h.data
  rw [length_append] at hdata
  have hdrop : (f.bytes.drop o).length = f.bytes.length - o := length_drop
  unfold parseData
  dsimp only
  rw [hstay]
  unfold parseEnityBodyChunkData
  dsimp only
  rw [hreq]
  rcases Nat.lt_trichotomy (f.bytes.drop o).length dr.length with hlt | heq | hgt
  · -- the data goes on behind the fragment
    obtain ⟨out', k', htake, hflat⟩ := takeData_all fl len ((c.data.length : Int) - 1) k
      ho hnew hdr hlt.le (g := got.length) (by omega)
    rw [if_pos hlt] at htake
    change takeData ([f].length + 1) _ _ _ = _ at htake
    obtain ⟨dr', hdr', htodo⟩ := append_of_le h.todo_eq hlt.le
    have hlen := congrArg length hdr'
    rw [length_append] at hlen
    have hrest : DataAt chunks last (fragStart F + f.bytes.length) todo (got ++ f.bytes.drop o) dr'
        c post := by
      refine ⟨⟨front, hfront, by omega⟩, htodo, ?_, ?_⟩
      · rw [append_assoc, ← hdr']
        exact h.data
      · rintro rfl
        rw [length_nil] at hlen
        omega
    have hwaits : Waits chunks last [] 0 (fragStart F + f.bytes.length) todo
        ⟨⟨[], out', 0, [], fl⟩, len, 0, (c.data.length : Int) - 1,
          (got ++ f.bytes.drop o).length, k'⟩
        (c.data :: post.map data) := .data hrest (by rw [hflat, hout]) (.inl rfl)
    rw [length_append] at hwaits
    refine .inl ⟨_, ?_, hwaits⟩
    rw [htake]
    dsimp only
    rw [if_pos ⟨rfl, by omega⟩]
  · -- the fragment ends with the data
    obtain ⟨out', k', htake, hflat⟩ := takeData_all fl len ((c.data.length : Int) - 1) k
      ho hnew hdr heq.le (g := got.length) (by omega)
    rw [if_neg (by omega)] at htake
    change takeData ([f].length + 1) _ _ _ = _ at htake
    obtain ⟨hrest, htodo⟩ := append_inj h.todo_eq heq
    have hbehind := h.behind (nil_append [HTTP_CHAR_CR, HTTP_CHAR_LF]).symm
    have hend : fragStart F + o + dr.length = fragStart F + f.bytes.length := by omega
    rw [length_nil, Nat.add_zero, hend,
      show [HTTP_CHAR_CR, HTTP_CHAR_LF] ++ encode post last = todo from htodo.symm] at hbehind
    have hwaits : Waits chunks last [] 0 (fragStart F + f.bytes.length) todo
        ⟨⟨[], [], 0, [], fl⟩, len, 0, 0, 0, k'⟩ (post.map data) := .size hbehind
    refine .inr (.inl ⟨_, ?_, hwaits⟩)
    rw [htake]
    dsimp only
    rw [if_neg (by omega)]
    dsimp only [constructEntityUnit, skipCRLF, empty]
    rw [hflat, hout, hrest, h.data]
    rfl
  · obtain ⟨out', k', htake, hflat⟩ := takeData_part fl len ((c.data.length : Int) - 1) k
      ho hnew hdr hgt (g := got.length) (by omega)
    change takeData ([f].length + 1) _ _ _ = _ at htake
    obtain ⟨x, hx, hbehind⟩ := append_of_le h.todo_eq.symm hgt.le
    have hdropx : f.bytes.drop (o + dr.length) = x := by rw [← drop_drop, hx, drop_left]
    have hlen := congrArg length hx
    rw [length_append, hdrop] at hlen
    have hline : (encode post last).head?.any isEnd = false := by
      rw [encode_eq]
      exact head?_isEnd_line (lineOf post last).bytes_ends (lineOf post last).bytes_ne _
    obtain ⟨gap', gap, hne', hgap, hskip, m', hm', htodo, hgapnil⟩ :=
      @skipCRLF_behind f [] (o + dr.length) [] fl todo _ hline (by rw [hdropx, hbehind])
        (by rw [hdropx]; rintro rfl; rw [length_nil] at hlen; omega)
    have hgappos := length_pos_iff.mpr hne'
    have hmlen := congrArg length hm'
    rw [length_append, length_drop] at hmlen
    have hsize' := h.behind hgap
    rw [← htodo, show fragStart F + o + dr.length + gap'.length =
      fragStart F + (o + dr.length + gap'.length) by omega] at hsize'
    by_cases hm0 : m' = []
    · -- nothing of the fragment is left
      rw [hm0, length_nil] at hmlen
      have hused : o + dr.length + gap'.length = f.bytes.length := by omega
      rw [hm0, nil_append, hused] at hsize'
      have hwaits : Waits chunks last [] 0 (fragStart F + f.bytes.length) todo
          ⟨⟨[], [], 0, [], fl⟩, len, 0, 0, 0, k'⟩ (post.map data) := .size hsize'
      refine .inr (.inl ⟨_, ?_, hwaits⟩)
      rw [htake]
      dsimp only
      rw [if_neg (by omega)]
      dsimp only [constructEntityUnit]
      simp only [hskip, empty_used hused]
      rw [hflat, hout, hx, take_left, h.data]
      rfl
    · have hmpos := length_pos_iff.mpr hm0
      have hdropm : f.bytes.drop (o + dr.length + gap'.length) = m' := by
        rw [← drop_drop, hm', drop_left]
      rw [← hdropm] at hsize'
      have hwaits : Waits chunks last [f] (o + dr.length + gap'.length)
          (fragStart F + (o + dr.length + gap'.length))
          (f.bytes.drop (o + dr.length + gap'.length) ++ todo)
          ⟨⟨[f], [], o + dr.length + gap'.length, [], fl⟩, len, 0, 0, 0, k'⟩
          (post.map data) := .size hsize'
      refine .inr (.inr ⟨_, _, by omega, by omega, ?_, hwaits⟩)
      rw [htake]
      dsimp only
      rw [if_neg (by omega)]
      dsimp only [constructEntityUnit]
      have hleft : o + dr.length + gap'.length < f.bytes.length := by omega
      simp only [hskip, empty_left hleft]
      rw [hflat, hout, hx, take_left, h.data]
      rfl

variable {out fl}

/-- What one call does with a fragment, or with what is left of it. -/
theorem parse_spec (hs : Safe chunks fs) (hfs : fs = F ++ f :: F')
    (h : Waits chunks last [f] o (fragStart F + o) (f.bytes.drop o ++ todo) s units)
    (ho : o ≤ f.bytes.length) (hf : f.bytes ≠ []) :
    (∃ code unit s' units', s.parse = (code, unit, s') ∧
      (code = .PARSE_NEED_MORE_DATA ∨ code = .PARSE_SUCCESS_END_OF_INPUT) ∧
      units = unit.toList ++ units' ∧
      Waits chunks last [] 0 (fragStart F + f.bytes.length) todo s' units') ∨
    (∃ o' unit s' units', o < o' ∧ o' < f.bytes.length ∧
      s.parse = (.PARSE_SUCCESS, some unit, s') ∧ units = unit :: units' ∧
      Waits chunks last [f] o' (fragStart F + o') (f.bytes.drop o' ++ todo) s' units') ∨
    ∃ s', s.parse = (.PARSE_SUCCESS_END_OF_MESSAGE, none, s') ∧ units = [] := by
  cases h with
  | @size out buf fl len k post gap ll h =>
    obtain ⟨n, hn⟩ : ∃ n, f.bytes.length = n + 1 :=
      Nat.exists_eq_succ_of_ne_zero (by rwa [Ne, length_eq_zero_iff])
    have hfuel : queued ⟨[f], out, o, buf, fl⟩ + 1 = n + 2 := by
      show f.bytes.length + 0 + 1 = n + 2
      omega
    unfold parse
    dsimp only
    rw [if_pos rfl, hfuel]
    rcases readSize_spec out fl hs hfs h ho n with
      ⟨out', buf', fl', gap', ll', hread, h'⟩ | ⟨rfl, input, hread⟩ |
      ⟨c, post', out', o', fl', rfl, hread, hlt, hle, hdata⟩
    · have hw : Waits chunks last [] 0 (fragStart F + f.bytes.length) todo
          ⟨⟨[], out', 0, buf', fl'⟩, len, 0, 0, 0, k⟩ (post.map data) := .size h'
      rw [hread]
      exact .inl ⟨_, _, _, _, rfl, .inl rfl, rfl, hw⟩
    · rw [hread]
      exact .inr (.inr ⟨_, rfl, rfl⟩)
    · have hpos := length_pos_iff.mpr c.data_ne
      rw [hread]
      dsimp only
      rw [if_neg (by omega), if_neg (by omega)]
      rcases parseData_spec [] fl' (len + c.data.length) k hs hfs hdata rfl (.inr rfl) hle with
        ⟨s', hparse, hw⟩ | ⟨s', hparse, hw⟩ | ⟨o'', s', hlt', hlt'', hparse, hw⟩
      · exact .inl ⟨_, _, s', _, hparse, .inl rfl, rfl, hw⟩
      · exact .inl ⟨_, _, s', _, hparse, .inr rfl, rfl, hw⟩
      · exact .inr (.inl ⟨o'', _, s', _, by omega, hlt'', hparse, rfl, hw⟩)
  | @data out fl len k got dr c post h hout hnew =>
    obtain ⟨front, hfront, -⟩ := h.at_data
    have hsize := (hs.size c (hfront ▸ mem_append_right _ mem_cons_self)).1
    unfold parse
    rw [if_neg (by dsimp only; omega)]
    rcases parseData_spec out fl len k hs hfs h hout hnew ho with
      ⟨s', hparse, hw⟩ | ⟨s', hparse, hw⟩ | ⟨o'', s', hlt', hlt'', hparse, hw⟩
    · exact .inl ⟨_, _, s', _, hparse, .inl rfl, rfl, hw⟩
    · exact .inl ⟨_, _, s', _, hparse, .inr rfl, rfl, hw⟩
    · exact .inr (.inl ⟨o'', _, s', _, hlt', hlt'', hparse, rfl, hw⟩)

/-! ## 4. The run -/

/-- There is more to come as long as the end of the message was not reported. -/
theorem Waits.todo_ne {q : List MemFrag}
    (h : Waits chunks last q o pos todo s units) : todo ≠ [] := by
  cases h with
  | size h => rw [h.todo_eq]; simp
  | data h => rw [h.todo_eq]; simp

/-- The calls that a delivery takes at most. -/
def calls (G : List MemFrag) : Nat := (G.map fun f => f.bytes.length + 1).sum + 1

theorem drive_turn (hs : Safe chunks fs) (hfs : fs = F ++ f :: F')
    (h : Waits chunks last [f] o (fragStart F + o) (f.bytes.drop o ++ todo) s units)
    (ho : o ≤ f.bytes.length) (hf : f.bytes ≠ []) {n : Nat}
    (hnext : ∀ s units, Waits chunks last [] 0 (fragStart F + f.bytes.length) todo s units →
      drive n s F' false = (units, true))
    (hagain : ∀ o' s units, o < o' → o' < f.bytes.length →
      Waits chunks last [f] o' (fragStart F + o') (f.bytes.drop o' ++ todo) s units →
      drive n s F' true = (units, true)) :
    (if s.parse.1 = .PARSE_SUCCESS_END_OF_MESSAGE then (s.parse.2.1.toList, true)
      else
        (s.parse.2.1.toList ++ (drive n s.parse.2.2 F' (s.parse.1 = .PARSE_SUCCESS)).1,
          (drive n s.parse.2.2 F' (s.parse.1 = .PARSE_SUCCESS)).2)) = (units, true) := by
  rcases parse_spec hs hfs h ho hf with
    ⟨code, unit, s', units', hparse, hcode, rfl, hw⟩ |
    ⟨o', unit, s', units', hlt, hlt', hparse, rfl, hw⟩ | ⟨s', hparse, rfl⟩
  · rw [hparse]
    dsimp only
    rcases hcode with rfl | rfl
    · rw [if_neg (by decide), show decide (ParseCode.PARSE_NEED_MORE_DATA = .PARSE_SUCCESS) = false
        from rfl, hnext s' units' hw]
    · rw [if_neg (by decide), show decide (ParseCode.PARSE_SUCCESS_END_OF_INPUT = .PARSE_SUCCESS) =
        false from rfl, hnext s' units' hw]
  · rw [hparse]
    dsimp only
    rw [if_neg (by decide), decide_eq_true rfl, hagain o' s' units' hlt hlt' hw]
    rfl
  · rw [hparse]
    dsimp only
    rw [if_pos rfl]
    rfl

/-- A fragment is given to a parser that has none. -/
theorem call_fresh
    (h : Waits chunks last [] 0 pos todo s units) (f : MemFrag) :
    ∃ s', s.call (some f) = s'.parse ∧ Waits chunks last [f] 0 pos todo s' units := by
  cases h with
  | @size out buf fl len k _ _ _ h =>
    exact ⟨⟨⟨[f], out, 0, buf, fl⟩, len, 0, 0, 0, k⟩, rfl, .size h⟩
  | @data out fl len k got _ c _ h hout hnew =>
    exact ⟨⟨⟨[f], out, 0, [], fl⟩, len, 0, (c.data.length : Int) - 1, got.length, k⟩, rfl,
      .data h hout (.inl rfl)⟩

/-- The parser is called again for what is left of a fragment. -/
theorem call_again
    (h : Waits chunks last [f] o pos todo s units) : s.call none = s.parse := by
  cases h <;> rfl

/-- The units of a delivery, from any call on. -/
theorem drive_spec (hs : Safe chunks fs) (hne : ∀ f ∈ fs, f.bytes ≠ []) (n : Nat) :
    (∀ F G s units, fs = F ++ G →
      Waits chunks last [] 0 (fragStart F) (G.map MemFrag.bytes).flatten s units → calls G ≤ n →
      drive n s G false = (units, true)) ∧
    ∀ F f G o s units, fs = F ++ f :: G → o < f.bytes.length →
      Waits chunks last [f] o (fragStart F + o)
        (f.bytes.drop o ++ (G.map MemFrag.bytes).flatten) s units →
      f.bytes.length - o + calls G ≤ n → drive n s G true = (units, true) := by
  induction n with
  | zero =>
    refine ⟨fun F G s units _ _ hn => ?_, fun F f G o s units _ _ _ hn => ?_⟩
    · unfold calls at hn; omega
    · unfold calls at hn; omega
  | succ n ih =>
    obtain ⟨ihnext, ihagain⟩ := ih
    -- what remains of the fragment that the call is about, and of those behind it
    have hnext : ∀ F f G, fs = F ++ f :: G → calls G ≤ n → ∀ s units,
        Waits chunks last [] 0 (fragStart F + f.bytes.length) (G.map MemFrag.bytes).flatten s
          units →
        drive n s G false = (units, true) := by
      intro F f G hfs hn s units hw
      have hstart : fragStart (F ++ [f]) = fragStart F + f.bytes.length := by simp [fragStart]
      exact ihnext (F ++ [f]) G s units (by rw [hfs, append_assoc]; rfl)
        (by rw [hstart]; exact hw) hn
    constructor
    · intro F G s units hfs hw hn
      rcases G with _ | ⟨f, G⟩
      · exact absurd rfl hw.todo_ne
      have hf : f.bytes ≠ [] := hne f (hfs ▸ mem_append_right _ mem_cons_self)
      have hcalls : calls (f :: G) = f.bytes.length + 1 + calls G := by
        simp only [calls, map_cons, sum_cons]
        omega
      obtain ⟨s', hcall, hw'⟩ := call_fresh hw f
      rw [drive, if_neg (by simp)]
      simp only [Bool.false_eq_true, if_false, head?_cons, tail_cons]
      rw [hcall]
      exact drive_turn (o := 0) hs hfs hw' (Nat.zero_le _) hf (hnext F f G hfs (by omega))
        fun o' s units hlt hlt' hw => ihagain F f G o' s units hfs hlt' hw (by omega)
    · intro F f G o s units hfs ho hw hn
      have hf : f.bytes ≠ [] := hne f (hfs ▸ mem_append_right _ mem_cons_self)
      rw [drive, if_neg (by simp)]
      simp only [if_true]
      rw [call_again hw]
      exact drive_turn hs hfs hw ho.le hf (hnext F f G hfs (by omega))
        fun o' s units hlt hlt' hw => ihagain F f G o' s units hfs hlt' hw (by omega)

end Frag

/-- **A chunked body is delivered**: with safe cuts, the units handed up are the data of the chunks,
    and the end of the message is reported. -/
theorem parse_delivers (chunks : List Chunk) (last : LastChunk) (fs : List MemFrag)
    (hne : ∀ f ∈ fs, f.bytes ≠ [])
    (hbody : (fs.map MemFrag.bytes).flatten = encode chunks last) (hs : Safe chunks fs)
    (n : Nat) (hn : calls fs ≤ n) :
    drive n start fs false = (chunks.map data, true) :=
  (drive_spec hs hne n).1 [] fs start _ rfl (hbody ▸ waits_start chunks last) hn

/-- The zero chunk, and the empty line behind it. -/
def zeroChunk : LastChunk where
  digits := [48]
  ext := []
  digits_ne := by decide
  digits_hex := by decide +kernel
  ext_start := rfl
  ext_end := by simp
  zero := by decide +kernel
  trailer := [HTTP_CHAR_CR, HTTP_CHAR_LF]
  trailer_start := by decide

/-- `5`, and `hello`. -/
def helloChunk : Chunk where
  digits := [53]
  ext := []
  digits_ne := by decide
  digits_hex := by decide +kernel
  ext_start := rfl
  ext_end := by simp
  data := [104, 101, 108, 108, 111]
  data_ne := by decide
  size := by decide +kernel

/-- Its size line and two bytes of its data. -/
def helloFront : MemFrag := ⟨0, [53, 13, 10, 104, 101], 0, by decide⟩

/-- The rest of the data, and the zero chunk. -/
def helloBack : MemFrag := ⟨1, [108, 108, 111, 13, 10, 48, 13, 10, 13, 10], 0, by decide⟩

theorem hello_safe : Safe [helloChunk] [helloFront, helloBack] := by
  have hchunk : ∀ P c P', [helloChunk] = P ++ c :: P' → P = [] ∧ c = helloChunk := by
    intro P c P' h
    rcases P with _ | ⟨a, P⟩
    · exact ⟨rfl, (cons.inj h).1.symm⟩
    · exact absurd (append_eq_nil_iff.mp (cons.inj h).2.symm).2 (by simp)
  have hfrag : ∀ F f F', [helloFront, helloBack] = F ++ f :: F' →
      F = [] ∧ f = helloFront ∨ F = [helloFront] ∧ f = helloBack := by
    intro F f F' h
    rcases F with _ | ⟨a, _ | ⟨b, F⟩⟩
    · exact .inl ⟨rfl, (cons.inj h).1.symm⟩
    · obtain ⟨rfl, htail⟩ := cons.inj h
      exact .inr ⟨rfl, (cons.inj htail).1.symm⟩
    · have htail := (cons.inj (cons.inj h).2).2
      exact absurd (append_eq_nil_iff.mp htail.symm).2 (by simp)
  constructor
  · decide
  all_goals
    intro F f F' P c P' hF hP
    obtain ⟨rfl, rfl⟩ := hchunk P c P' hP
    rcases hfrag F f F' hF with ⟨rfl, rfl⟩ | ⟨rfl, rfl⟩ <;> decide

theorem parse_delivers_hello :
    drive 20 start [helloFront, helloBack] false = ([[104, 101, 108, 108, 111]], true) :=
  parse_delivers [helloChunk] zeroChunk [helloFront, helloBack] (by decide) (by decide) hello_safe
    20 (by decide)

/-- `1`, and `x`. -/
def xChunk : Chunk where
  digits := [49]
  ext := []
  digits_ne := by decide
  digits_hex := by decide +kernel
  ext_start := rfl
  ext_end := by simp
  data := [120]
  data_ne := by decide
  size := by decide +kernel

/-- A chunk of one byte and the zero chunk, in one fragment. -/
def xBody : MemFrag := ⟨0, [49, 13, 10, 120, 13, 10, 48, 13, 10, 13, 10], 0, by decide⟩

/-- The byte is lost: the end of its range is 0, which stands for a chunk that has no size yet. -/
theorem one_byte_lost :
    xBody.bytes = encode [xChunk] zeroChunk ∧
      drive 20 start [xBody] false = ([[]], true) ∧
      ([[]] : List (List UInt8)).flatten ≠ [xChunk].flatMap data := by
  decide +kernel

end ChunkedParser

end OpenCore.HttpParcom
