/-
  File:      OpenCore/HttpParcom/HttpComposer.lean
  Subject:   HTTP REQUESTS: the request line, the headers of the store, and a blank line.

  The length of a request is announced from the totals of the store; the request is then written
  from its keys and values. A header longer than the size of a line is folded into several, each
  ending with a line break and all but the first starting with a blank.

  **Main result** `compose_iff`: when a request that is written is the one announced.
-/
import OpenCore.HttpParcom.StringKeyValueStoreRun

namespace OpenCore.HttpParcom

open List Option
open MultiMap (pairs)
open UInt32 (ofNat_add toNat_ofNat' toNat_zero)

/-! ## 1. The composer -/

open StringKeyValueStore (Entry step)

def ascii (cs : List Char) : Str := cs.map fun c => UInt8.ofNat c.toNat

inductive HTTPMethod where
  | GET | HEAD | POST | DELETE | LINK | UNLINK | OPTIONS | PUT | TRACE | CONNECT

/-- `HTTPMethodString`. -/
def HTTPMethod.string : HTTPMethod → Str
  | GET => ascii ['G', 'E', 'T']
  | HEAD => ascii ['H', 'E', 'A', 'D']
  | POST => ascii ['P', 'O', 'S', 'T']
  | DELETE => ascii ['D', 'E', 'L', 'E', 'T', 'E']
  | LINK => ascii ['L', 'I', 'N', 'K']
  | UNLINK => ascii ['U', 'N', 'L', 'I', 'N', 'K']
  | OPTIONS => ascii ['O', 'P', 'T', 'I', 'O', 'N', 'S']
  | PUT => ascii ['P', 'U', 'T']
  | TRACE => ascii ['T', 'R', 'A', 'C', 'E']
  | CONNECT => ascii ['C', 'O', 'N', 'N', 'E', 'C', 'T']

inductive HTTPVersion where
  | HTTP_V1_0 | HTTP_V1_1

def HTTPVersion.string : HTTPVersion → Str
  | HTTP_V1_0 => ascii ['H', 'T', 'T', 'P', '/', '1', '.', '0']
  | HTTP_V1_1 => ascii ['H', 'T', 'T', 'P', '/', '1', '.', '1']

def crlf : Str := [13, 10]

/-- `HTTP_CHAR_SPACE`, `HTTP_CHAR_COLON` and `HTTP_CHAR_SLASH`. -/
def space : UInt8 := 0x20
def colon : UInt8 := 0x3a
def slash : UInt8 := 0x2f

structure HTTPComposer where
  iMethod : HTTPMethod
  iVersion : HTTPVersion
  iURI : Str
  iRelativeURI : Str
  iEntityBodyLength : UInt32
  iMaxLineSizeForMultiLineRequest : Int
  iKeyValueStore : StringKeyValueStore

/-- What `compose` returns. -/
def COMPOSE_SUCCESS : Int := 0
def COMPOSE_BUFFER_TOO_SMALL : Int := -2
def COMPOSE_URI_NOT_SET : Int := -3
def COMPOSE_CONTENT_TYPE_NOT_SET_FOR_ENTITY_BODY : Int := -4
def COMPOSE_CONTENT_LENGTH_NOT_SET_FOR_ENTITY_BODY : Int := -5
def COMPOSE_CONTENT_LENGTH_NOT_MATCH_ENTITY_BODY_LENGTH : Int := -6
def COMPOSE_BAD_URI : Int := -7

/-- `PV_atoi` on decimal digits: the value that it leaves. -/
def PV_atoi : Str → UInt32 → UInt32
  | [], value => value
  | c :: cs, value =>
    if 48 ≤ c ∧ c ≤ 57 then
      let new := value * 10 + (c - 48).toUInt32
      if value > new then new else PV_atoi cs new
    else value

/-- The octets behind the first two slashes. -/
def afterSlashes : Str → Option Str
  | a :: b :: rest => if a = slash ∧ b = slash then some rest else afterSlashes (b :: rest)
  | _ => none

/-- What is relative to the server in a URI. -/
def relativePart (uri : Str) : Option Str :=
  (afterSlashes uri).bind fun rest =>
    match rest.dropWhile (· ≠ slash) with
    | [] => none
    | relative => some relative

namespace HTTPComposer

def create : HTTPComposer :=
  { iMethod := .GET
    iVersion := .HTTP_V1_0
    iURI := []
    iRelativeURI := []
    iEntityBodyLength := 0
    iMaxLineSizeForMultiLineRequest := 0x7fffffff
    iKeyValueStore := StringKeyValueStore.create }

/-- `setURI`, given the octets of the URI and those behind it in memory: the part relative to the
    server is looked for up to the next zero octet. -/
def setURI (c : HTTPComposer) (aURI behind : Str) : HTTPComposer :=
  let c := { c with iURI := aURI }
  match relativePart ((aURI ++ behind).takeWhile (· ≠ 0)) with
  | none => c
  | some relative => { c with iRelativeURI := relative }

section Methods

variable (charSigned : Bool) (c : HTTPComposer)

def uri (usingAbsoluteURI : Bool) : Str := if usingAbsoluteURI then c.iURI else c.iRelativeURI

def firstLineLength (usingAbsoluteURI : Bool) : UInt32 :=
  UInt32.ofNat c.iMethod.string.length + UInt32.ofNat (c.uri usingAbsoluteURI).length + 8 + 4

def requestLength (usingAbsoluteURI : Bool) : UInt32 :=
  c.firstLineLength usingAbsoluteURI +
    (c.iKeyValueStore.iTotalKeyValueLength +
      c.iKeyValueStore.iTotalNumberOfKeyValuePairs * 4) + 2 + c.iEntityBodyLength

def getCurrentRequestLength (usingAbsoluteURI : Bool) : Int :=
  if !usingAbsoluteURI ∧ c.iRelativeURI.length = 0 then COMPOSE_BAD_URI
  else (c.requestLength usingAbsoluteURI).toBitVec.toInt

def santityCheckForCompose (capacity aEntityBodyLength : UInt32) (usingAbsoluteURI : Bool) :
    Option Int :=
  let store := c.iKeyValueStore
  if !usingAbsoluteURI ∧ c.iRelativeURI.length = 0 then some COMPOSE_BAD_URI
  else if ¬ c.requestLength usingAbsoluteURI + aEntityBodyLength ≤ capacity then
    some COMPOSE_BUFFER_TOO_SMALL
  else if c.iURI.length = 0 then some COMPOSE_URI_NOT_SET
  else if aEntityBodyLength = 0 then some COMPOSE_SUCCESS
  else if (store.getHashTableIndex charSigned
      (ascii ['C', 'o', 'n', 't', 'e', 'n', 't', '-', 'T', 'y', 'p', 'e']) true).1 = none then
    some COMPOSE_CONTENT_TYPE_NOT_SET_FOR_ENTITY_BODY
  else do
    match ← store.getValueByKey charSigned
        (ascii ['C', 'o', 'n', 't', 'e', 'n', 't', '-', 'L', 'e', 'n', 'g', 't', 'h']) 0 with
    | none => some COMPOSE_CONTENT_LENGTH_NOT_SET_FOR_ENTITY_BODY
    | some contentLengthValue =>
      if PV_atoi contentLengthValue 0 ≠ aEntityBodyLength then
        some COMPOSE_CONTENT_LENGTH_NOT_MATCH_ENTITY_BODY_LENGTH
      else some COMPOSE_SUCCESS

/-- `composeFirstLine`. -/
def firstLine (usingAbsoluteURI : Bool) : Str :=
  c.iMethod.string ++ [space] ++ c.uri usingAbsoluteURI ++ [space] ++ c.iVersion.string ++ crlf

end Methods

/-- The loop of `createMultiHeaderLine`, which has no end with lines of no octets, and copies no
    negative number of them. -/
def fold (size : Int) : Nat → Str → Option Str
  | 0, _ => some []
  | fuel + 1, text =>
    if text = [] then some []
    else if size ≤ 0 then none
    else do
      let rest ← fold size fuel (text.drop size.toNat)
      some (text.take size.toNat ++ crlf ++
        (if text.drop size.toNat = [] then [] else [space]) ++ rest)

/-- A key and a value as they are written in one line. -/
def keyValue (p : Str × Str) : Str := p.1 ++ [colon, space] ++ p.2

/-- A header. -/
def composeHeader (size : Int) (p : Str × Str) : Option Str :=
  if (p.1.length + p.2.length : Nat) > size then fold size (keyValue p).length (keyValue p)
  else some (keyValue p ++ crlf)

section Headers

variable (charSigned : Bool) (s : StringKeyValueStore) (size : Int)

/-- The values of a key, from the one at `index` on. -/
def composeKey (aKey : Str) : Nat → Nat → Option (Str × Nat)
  | 0, _ => none
  | fuel + 1, index => do
      match ← s.getValueByKey charSigned aKey index with
      | none => some ([], index)
      | some value => do
          let line ← composeHeader size (aKey, value)
          let (rest, n) ← composeKey aKey fuel (index + 1)
          some (line ++ rest, n)

/-- The keys, while fewer than `numKeyValuePairs` values have been written. -/
def composeKeys (numKeyValuePairs : Nat) : List Str → Nat → Option Str
  | [], _ => some []
  | aKey :: keys, i =>
    if i < numKeyValuePairs then do
      -- a key has no more values than there are in the vector, and one
      let (lines, n) ← composeKey charSigned s size aKey
        (s.iStrCSumPtrLenWrapperVector.length + 2) 0
      let rest ← composeKeys numKeyValuePairs keys (i + n)
      some (lines ++ rest)
    else some []

/-- `composeHeaders`: what it writes; nothing where there are pairs, but no keys. -/
def composeHeaders : Option (Option Str) :=
  let numKeyValuePairs := s.iTotalNumberOfKeyValuePairs.toNat
  if numKeyValuePairs > 0 ∧ s.getCurrentKeyList = [] then some none
  else do
    let lines ← if numKeyValuePairs > 0 then
        composeKeys charSigned s size numKeyValuePairs s.getCurrentKeyList 0
      else some []
    some (some (lines ++ crlf))

end Headers

/-- What `compose` returns, what it writes from the start of the buffer on, and where it writes a
    zero octet. -/
structure Composed where
  returned : Int
  header : Str
  terminator : Option Nat
  deriving DecidableEq, Repr

/-- The text in the buffer: the zero octet may be within the header. -/
def Composed.text (r : Composed) : Str :=
  match r.terminator with
  | none => r.header
  | some i => r.header.set i 0

/-- The octets of the buffer up to the last one that is written. -/
def Composed.extent (r : Composed) : Nat :=
  match r.terminator with
  | none => r.header.length
  | some i => max r.header.length (i + 1)

def compose (charSigned : Bool) (c : HTTPComposer) (capacity aEntityBodyLength : UInt32)
    (usingAbsoluteURI : Bool) : Option Composed := do
  let status ← santityCheckForCompose charSigned c capacity aEntityBodyLength usingAbsoluteURI
  if status ≠ COMPOSE_SUCCESS then some ⟨status, [], none⟩
  else do
    let firstLine := c.firstLine usingAbsoluteURI
    -- the length moves on only where it stays within the buffer
    let start := if firstLine.length ≤ capacity.toNat then firstLine.length else 0
    let headers ← composeHeaders charSigned c.iKeyValueStore c.iMaxLineSizeForMultiLineRequest
    let written := headers.getD []
    let iLen := start + written.length
    let iLen := if headers = none ∨ iLen ≥ 2 ^ 31 ∨ iLen > capacity.toNat then start else iLen
    some ⟨COMPOSE_SUCCESS, firstLine.take start ++ written ++ firstLine.drop (start + written.length),
      if iLen < capacity.toNat then some (iLen + aEntityBodyLength.toNat) else none⟩

/-! ## 2. Headers and their lengths -/

/-- The pairs of a key and a value of it, in order. -/
def pairsOf (m : MultiMap Str Str) : List (Str × Str) := m.flatMap fun e => e.2.map (e.1, ·)

/-- The headers of pairs. -/
def composeLines (size : Int) : List (Str × Str) → Option Str
  | [] => some []
  | p :: ps => do
      let line ← composeHeader size p
      let rest ← composeLines size ps
      some (line ++ rest)

/-- A header longer than a line. -/
abbrev Folded (size : Int) (p : Str × Str) : Prop := (p.1.length + p.2.length : Nat) > size

theorem composeLines_append (size : Int) (ps qs : List (Str × Str)) :
    composeLines size (ps ++ qs) = (composeLines size ps).bind fun a =>
      (composeLines size qs).map (a ++ ·) := by
  induction ps with
  | nil =>
    rw [nil_append, composeLines, bind_some]
    exact map_id'.symm
  | cons p ps ih =>
    rw [cons_append, composeLines, composeLines, ih]
    rcases composeHeader size p with _ | line
    · rfl
    · rcases composeLines size ps with _ | a
      · rfl
      · rcases composeLines size qs with _ | b
        · rfl
        · simp

theorem keyValue_length (p : Str × Str) : (keyValue p).length = p.1.length + p.2.length + 2 := by
  simp only [keyValue, length_append, length_cons, length_nil]
  omega

/-- What is folded has a line break more than its text, and three octets more for each other
    line. -/
theorem fold_length {size : Int} {fuel : Nat} {text t : Str} (h : fold size fuel text = some t)
    (hfuel : text.length ≤ fuel) :
    if text = [] then t = [] else text.length + 2 ≤ t.length ∧
      (size < text.length → text.length + 2 < t.length) := by
  induction fuel generalizing text t with
  | zero =>
    have hnil := eq_nil_of_length_eq_zero (Nat.le_zero.1 hfuel)
    rw [if_pos hnil]
    cases h
    rfl
  | succ fuel ih =>
    rw [fold] at h
    by_cases hnil : text = []
    · rw [if_pos hnil] at h ⊢
      cases h
      rfl
    rw [if_neg hnil] at h ⊢
    have hpos := length_pos_iff.2 hnil
    by_cases hsize : size ≤ 0
    · rw [if_pos hsize] at h
      cases h
    rw [if_neg hsize] at h
    obtain ⟨rest, hrest, ht⟩ := bind_eq_some_iff.1 h
    cases ht
    have hdrop : (text.drop size.toNat).length = text.length - size.toNat := length_drop
    have htake : (text.take size.toNat).length = min size.toNat text.length := length_take
    have hcrlf : crlf.length = 2 := rfl
    have hlen := ih hrest (by omega)
    rw [length_append, length_append, length_append, htake, hcrlf]
    by_cases hlast : text.drop size.toNat = []
    · rw [if_pos hlast] at hlen ⊢
      rw [hlast, length_nil] at hdrop
      rw [hlen, length_nil]
      exact ⟨by omega, fun hlt => by omega⟩
    · rw [if_neg hlast] at hlen ⊢
      rw [length_singleton]
      exact ⟨by omega, fun _ => by omega⟩

/-- The octets of headers that are not folded. -/
def headersLength (ps : List (Str × Str)) : Nat := (ps.map fun p => p.1.length + p.2.length + 4).sum

theorem composeHeader_length {size : Int} {p : Str × Str} {t : Str}
    (h : composeHeader size p = some t) : p.1.length + p.2.length + 4 ≤ t.length ∧
      (Folded size p → p.1.length + p.2.length + 4 < t.length) := by
  have hkv := keyValue_length p
  unfold composeHeader at h
  by_cases hfold : Folded size p
  · rw [if_pos hfold] at h
    have hlen := fold_length h le_rfl
    rw [if_neg fun hnil => by rw [hnil] at hkv; simp at hkv] at hlen
    rw [hkv] at hlen
    exact ⟨by omega, fun _ => hlen.2 (by omega)⟩
  · rw [if_neg hfold] at h
    cases h
    rw [length_append, hkv]
    exact ⟨le_rfl, fun hf => absurd hf hfold⟩

/-- Headers are as long as unfolded ones just where none is folded. -/
theorem composeLines_length {size : Int} {ps : List (Str × Str)} {t : Str}
    (h : composeLines size ps = some t) : headersLength ps ≤ t.length ∧
      (t.length = headersLength ps → ∀ p ∈ ps, ¬ Folded size p) := by
  induction ps generalizing t with
  | nil =>
    cases h
    exact ⟨le_rfl, fun _ p hp => absurd hp not_mem_nil⟩
  | cons p ps ih =>
    obtain ⟨line, hline, h⟩ := bind_eq_some_iff.1 h
    obtain ⟨rest, hrest, h⟩ := bind_eq_some_iff.1 h
    cases h
    obtain ⟨hle, hfold⟩ := composeHeader_length hline
    obtain ⟨hle', hfold'⟩ := ih hrest
    have hcons : headersLength (p :: ps) = p.1.length + p.2.length + 4 + headersLength ps := rfl
    rw [hcons, length_append]
    refine ⟨by omega, fun heq q hq => ?_⟩
    rcases mem_cons.1 hq with rfl | hq
    · exact fun hf => absurd (hfold hf) (by omega)
    · exact hfold' (by omega) q hq

/-- What unfolds to a pair: its lines, joined, are the key and the value. -/
def Unfolds (line : Str) (p : Str × Str) : Prop :=
  ∃ parts : List Str, line = (crlf ++ [space]).intercalate parts ++ crlf ∧
    parts.flatten = keyValue p

theorem composeLines_unfolded {size : Int} {ps : List (Str × Str)}
    (h : ∀ p ∈ ps, ¬ Folded size p) :
    ∃ lines, composeLines size ps = some lines.flatten ∧ Forall₂ Unfolds lines ps ∧
      lines.flatten.length = headersLength ps := by
  induction ps with
  | nil => exact ⟨[], rfl, Forall₂.nil, rfl⟩
  | cons p ps ih =>
    obtain ⟨lines, hlines, hall, hlen⟩ := ih fun q hq => h q (mem_cons_of_mem _ hq)
    have hline : composeHeader size p = some (keyValue p ++ crlf) :=
      if_neg (h p mem_cons_self)
    refine ⟨(keyValue p ++ crlf) :: lines, ?_, Forall₂.cons ⟨[keyValue p], ?_, ?_⟩ hall, ?_⟩
    · rw [composeLines, hline, hlines]
      rfl
    · simp [intercalate]
    · simp
    · rw [flatten_cons, length_append, hlen, length_append, keyValue_length]
      rfl

/-! ## 3. The headers of a store -/

section Store

variable {charSigned : Bool} {s : StringKeyValueStore} {es : List Entry}

open StringKeyValueStore

theorem pairsOf_cons (e : Str × List Str) (m : MultiMap Str Str) :
    pairsOf (e :: m) = e.2.map (e.1, ·) ++ pairsOf m := rfl

theorem composeKey_eq (h : Holds charSigned s es) (size : Int) {e : Entry} (he : e ∈ es)
    {fuel index : Nat} (hindex : index ≤ e.pair.2.length)
    (hfuel : e.pair.2.length < fuel + index) :
    composeKey charSigned s size e.key fuel index =
      (composeLines size ((e.pair.2.drop index).map (e.key, ·))).map (·, e.pair.2.length) := by
  induction fuel generalizing index with
  | zero => omega
  | succ fuel ih =>
    have hvalue := h.value_of_mem he (k := e.key) rfl index
    rw [composeKey, hvalue]
    rcases Nat.lt_or_ge index e.pair.2.length with hlt | hge
    · rw [getElem?_eq_getElem hlt, drop_eq_getElem_cons hlt, map_cons, composeLines]
      simp only [bind_eq_bind, bind_some]
      rcases composeHeader size (e.key, e.pair.2[index]) with _ | line
      · rfl
      · simp only [bind_some]
        rw [ih (by omega) (by omega)]
        rcases composeLines size ((e.pair.2.drop (index + 1)).map (e.key, ·)) with _ | rest <;> rfl
    · have hend : index = e.pair.2.length := by omega
      rw [hend, getElem?_eq_none le_rfl, drop_length]
      rfl

theorem composeKeys_eq (h : Holds charSigned s es) (size : Int) {l r : List Entry}
    (hes : es = l ++ r) :
    composeKeys charSigned s size (pairs (es.map Entry.pair)) (r.map Entry.key)
      (pairs (l.map Entry.pair)) = composeLines size (pairsOf (r.map Entry.pair)) := by
  induction r generalizing l with
  | nil => rfl
  | cons e r ih =>
    have he : e ∈ es := by
      rw [hes]
      exact mem_append_right _ mem_cons_self
    have hsum : pairs (es.map Entry.pair) = pairs (l.map Entry.pair) +
        (e.pair.2.length + pairs (r.map Entry.pair)) := by
      rw [hes, map_append, map_cons, pairs_append]
      rfl
    have hfuel := linked_length (h.held e he).more
    have hlen : e.pair.2.length = e.more.length + 1 := by simp [Entry.pair]
    have hnext := ih (l := l ++ [e]) (by rw [hes, append_assoc]; rfl)
    have hl : pairs ((l ++ [e]).map Entry.pair) =
        pairs (l.map Entry.pair) + e.pair.2.length := by
      rw [map_append, map_singleton, pairs_append]
      rfl
    rw [hl] at hnext
    rw [map_cons, map_cons, pairsOf_cons, composeLines_append, composeKeys,
      if_pos (by omega), composeKey_eq h size he (Nat.zero_le _) (by omega), drop_zero]
    have hkey : e.pair.1 = e.key := rfl
    rw [hkey]
    rcases composeLines size (e.pair.2.map (e.key, ·)) with _ | lines
    · rfl
    · simp only [map_some, bind_eq_bind, bind_some]
      rw [hnext]
      rcases composeLines size (pairsOf (r.map Entry.pair)) with _ | rest <;> rfl

/-- The totals of a map give the length of its headers. -/
theorem headersLength_pairsOf (m : MultiMap Str Str) :
    headersLength (pairsOf m) = octets m + 4 * m.pairs := by
  have happ : ∀ ps qs, headersLength (ps ++ qs) = headersLength ps + headersLength qs := by
    intro ps qs
    simp [headersLength]
  have hkey : ∀ (k : Str) (vs : List Str), headersLength (vs.map (k, ·)) =
      k.length * vs.length + (vs.map length).sum + 4 * vs.length := by
    intro k vs
    induction vs with
    | nil => simp [headersLength]
    | cons v vs ih =>
      have hcons : headersLength ((v :: vs).map (k, ·)) =
          k.length + v.length + 4 + headersLength (vs.map (k, ·)) := rfl
      rw [hcons, ih, map_cons, sum_cons, length_cons]
      ring
  induction m with
  | nil => rfl
  | cons e m ih =>
    obtain ⟨k, vs⟩ := e
    rw [pairsOf_cons, happ, ih, hkey, octets_cons, pairs_cons]
    ring

/-- **The headers** that are written are those of the map. -/
theorem composeHeaders_eq (h : Holds charSigned s es) (size : Int)
    (hsmall : pairs (es.map Entry.pair) < 2 ^ 32) :
    composeHeaders charSigned s size =
      (composeLines size (pairsOf (es.map Entry.pair))).map fun t => some (t ++ crlf) := by
  have hnum : s.iTotalNumberOfKeyValuePairs.toNat = pairs (es.map Entry.pair) := by
    rw [h.pairs, toNat_ofNat']
    exact Nat.mod_eq_of_lt hsmall
  have hkeys : s.getCurrentKeyList = es.map Entry.key := by
    rw [h.answers.keys, List.map_map]
    rfl
  unfold composeHeaders
  dsimp only
  rw [hnum, hkeys]
  rcases es with _ | ⟨e, es⟩
  · rw [if_neg (by decide), if_neg (by decide)]
    rfl
  · have hpos : pairs ((e :: es).map Entry.pair) > 0 := by
      rw [map_cons, Entry.pair, pairs_cons]
      simp
    have hall := composeKeys_eq h size (l := []) rfl
    have hzero : pairs (map Entry.pair []) = 0 := rfl
    rw [hzero] at hall
    rw [if_neg (by simp), if_pos hpos, hall]
    rcases composeLines size (pairsOf ((e :: es).map Entry.pair)) with _ | t <;> rfl

end Store

/-! ## 4. Requests -/

/-- The URI of a request: the given one, or what is relative to the server in it. -/
def requestURI (aURI behind : Str) (usingAbsoluteURI : Bool) : Str :=
  if usingAbsoluteURI then aURI
  else (relativePart ((aURI ++ behind).takeWhile (· ≠ 0))).getD []

/-- The request line. -/
def requestLine (method : HTTPMethod) (version : HTTPVersion) (uri : Str) : Str :=
  method.string ++ [space] ++ uri ++ [space] ++ version.string ++ crlf

/-- The length of a request whose headers are not folded. -/
def totalLength (method : HTTPMethod) (uri : Str) (m : MultiMap Str Str) : Nat :=
  method.string.length + uri.length + 12 + headersLength (pairsOf m) + 2

theorem uri_setURI (aURI behind : Str) (usingAbsoluteURI : Bool) :
    (create.setURI aURI behind).uri usingAbsoluteURI =
      requestURI aURI behind usingAbsoluteURI := by
  unfold setURI uri requestURI
  dsimp only
  rcases relativePart ((aURI ++ behind).takeWhile (· ≠ 0)) with _ | relative <;> rfl

/-- **A request as it was announced**: its length, its place in the buffer, and its text, in which
    each header unfolds to its pair. -/
def AsAnnounced (c : HTTPComposer) (uri : Str) (m : MultiMap Str Str) (capacity : UInt32)
    (usingAbsoluteURI : Bool) (r : Composed) : Prop :=
  (r.header.length : Int) = c.getCurrentRequestLength usingAbsoluteURI ∧
    r.extent ≤ capacity.toNat ∧
    ∃ lines : List Str, r.text = requestLine c.iMethod c.iVersion uri ++ lines.flatten ++ crlf ∧
      List.Forall₂ Unfolds lines (pairsOf m)

/-- The composer after its setters. -/
def settled (method : HTTPMethod) (version : HTTPVersion) (aURI behind : Str) (size : Int)
    (s : StringKeyValueStore) : HTTPComposer :=
  { create.setURI aURI behind with
    iMethod := method
    iVersion := version
    iMaxLineSizeForMultiLineRequest := size
    iKeyValueStore := s }

section Requests

variable {charSigned : Bool} {method : HTTPMethod} {version : HTTPVersion} {aURI behind : Str}
  {size : Int} {s : StringKeyValueStore} {es : List Entry}
  {usingAbsoluteURI : Bool}

open StringKeyValueStore

theorem uri_settled : (settled method version aURI behind size s).uri usingAbsoluteURI =
    requestURI aURI behind usingAbsoluteURI := uri_setURI aURI behind usingAbsoluteURI

theorem requestLength_settled (h : Holds charSigned s es) :
    (settled method version aURI behind size s).requestLength usingAbsoluteURI =
      UInt32.ofNat (totalLength method (requestURI aURI behind usingAbsoluteURI)
        (es.map Entry.pair)) := by
  have hentity : (settled method version aURI behind size s).iEntityBodyLength = 0 := by
    unfold settled setURI
    dsimp only
    split <;> rfl
  have h8 : (8 : UInt32) = UInt32.ofNat 8 := rfl
  have h4 : (4 : UInt32) = UInt32.ofNat 4 := rfl
  have h2 : (2 : UInt32) = UInt32.ofNat 2 := rfl
  have hstore : (settled method version aURI behind size s).iKeyValueStore = s := rfl
  have hmethod : (settled method version aURI behind size s).iMethod = method := rfl
  unfold requestLength firstLineLength
  rw [hentity, UInt32.add_zero, uri_settled, hstore, hmethod, h.pairs, h.lengths, h8, h4, h2,
    ← UInt32.ofNat_mul, ← ofNat_add, ← ofNat_add, ← ofNat_add,
    ← ofNat_add, ← ofNat_add, ← ofNat_add]
  refine congrArg _ ?_
  rw [totalLength, headersLength_pairsOf]
  omega

theorem santityCheck_success {c : HTTPComposer} {capacity aEntityBodyLength : UInt32}
    (h : santityCheckForCompose charSigned c capacity aEntityBodyLength usingAbsoluteURI =
      some COMPOSE_SUCCESS) : ¬ ((!usingAbsoluteURI) = true ∧ c.iRelativeURI.length = 0) ∧
        c.requestLength usingAbsoluteURI + aEntityBodyLength ≤ capacity := by
  unfold santityCheckForCompose at h
  dsimp only at h
  split at h
  · cases h
  · rename_i huri
    split at h
    · cases h
    · rename_i hfits
      exact ⟨huri, not_not.1 hfits⟩

theorem firstLine_length (c : HTTPComposer) : (c.firstLine usingAbsoluteURI).length =
    c.iMethod.string.length + (c.uri usingAbsoluteURI).length + 12 := by
  have hversion : c.iVersion.string.length = 8 := by
    rcases c.iVersion with _ | _ <;> rfl
  have hcrlf : crlf.length = 2 := rfl
  simp only [firstLine, length_append, length_singleton, hversion, hcrlf]
  omega

/-- **The request** that is written without an error is the one announced exactly where none of its
    headers is folded, and the buffer does not end with an entity body. -/
theorem compose_iff (charSigned : Bool) (method : HTTPMethod) (version : HTTPVersion)
    (aURI behind : Str) (size : Int) (ops : List Op) (capacity aEntityBodyLength : UInt32)
    (usingAbsoluteURI : Bool) (hf : FineRun charSigned StringKeyValueStore.create ops)
    {s : StringKeyValueStore}
    (hs : execAll (step charSigned) StringKeyValueStore.create ops = some s)
    {r : Composed} (hr : compose charSigned (settled method version aURI behind size s) capacity
      aEntityBodyLength usingAbsoluteURI = some r) (hok : r.returned = COMPOSE_SUCCESS)
    (hlen : totalLength method (requestURI aURI behind usingAbsoluteURI) (mapOf ops) < 2 ^ 31)
    (hsum : totalLength method (requestURI aURI behind usingAbsoluteURI) (mapOf ops) +
      aEntityBodyLength.toNat < 2 ^ 32) :
    AsAnnounced (settled method version aURI behind size s)
        (requestURI aURI behind usingAbsoluteURI) (mapOf ops) capacity usingAbsoluteURI r ↔
      (∀ p ∈ pairsOf (mapOf ops), ¬ Folded size p) ∧
      (aEntityBodyLength = 0 ∨
        totalLength method (requestURI aURI behind usingAbsoluteURI) (mapOf ops) +
          aEntityBodyLength.toNat ≠ capacity.toNat) := by
  obtain ⟨s', es, hrun, h, hmap⟩ := (create_holds charSigned).run hf
  rw [hs] at hrun
  cases hrun
  have hmap' : mapOf ops = es.map Entry.pair := hmap.symm
  rw [hmap'] at hlen hsum ⊢
  have hreq := @requestLength_settled charSigned method version aURI behind size _ _ usingAbsoluteURI h
  have hfirst := @firstLine_length usingAbsoluteURI
    (settled method version aURI behind size s)
  rw [uri_settled] at hfirst
  generalize huri : requestURI aURI behind usingAbsoluteURI = uri at *
  have htotal : totalLength method uri (es.map Entry.pair) =
      ((settled method version aURI behind size s).firstLine usingAbsoluteURI).length +
        headersLength (pairsOf (es.map Entry.pair)) + 2 := by
    rw [hfirst]
    rfl
  have hpairs : pairs (es.map Entry.pair) < 2 ^ 32 := by
    have hheaders := headersLength_pairsOf (es.map Entry.pair)
    omega
  -- what is checked
  obtain ⟨status, hstatus, hr⟩ := bind_eq_some_iff.1 hr
  by_cases hne : status ≠ COMPOSE_SUCCESS
  · rw [if_pos hne] at hr
    cases hr
    exact absurd hok hne
  rw [if_neg hne] at hr
  rw [not_not.1 hne] at hstatus
  obtain ⟨hbad, hfits⟩ := santityCheck_success hstatus
  rw [hreq, UInt32.le_iff_toNat_le, UInt32.toNat_add, toNat_ofNat'] at hfits
  have hannounced : (settled method version aURI behind size s).getCurrentRequestLength
      usingAbsoluteURI = totalLength method uri (es.map Entry.pair) := by
    rw [getCurrentRequestLength, if_neg hbad, hreq, BitVec.toInt_eq_toNat_of_lt]
    · rw [UInt32.toNat_toBitVec, toNat_ofNat', Nat.mod_eq_of_lt (by omega)]
    · rw [UInt32.toNat_toBitVec, toNat_ofNat']
      omega
  generalize totalLength method uri (es.map Entry.pair) = total at *
  -- what is written
  obtain ⟨headers, hheaders, hr⟩ := bind_eq_some_iff.1 hr
  have hstore : (settled method version aURI behind size s).iKeyValueStore = s := rfl
  have hsize : (settled method version aURI behind size s).iMaxLineSizeForMultiLineRequest =
    size := rfl
  rw [hstore, hsize, composeHeaders_eq h size hpairs] at hheaders
  obtain ⟨t, ht, rfl⟩ := map_eq_some_iff.1 hheaders
  obtain ⟨hle, hfolded⟩ := composeLines_length ht
  have hstart : ((settled method version aURI behind size s).firstLine usingAbsoluteURI).length ≤
      capacity.toNat := by omega
  simp only [if_pos hstart, getD_some, take_length, Option.some.injEq] at hr
  have hcrlf : crlf.length = 2 := rfl
  rw [drop_eq_nil_of_le (Nat.le_add_right _ _), append_nil, length_append,
    hcrlf] at hr
  have hheader : r.header.length = ((settled method version aURI behind size s).firstLine
      usingAbsoluteURI).length + (t.length + 2) := by
    rw [← hr, length_append, length_append, hcrlf]
  have htotal' : total ≤ capacity.toNat := by omega
  have hterm : ((settled method version aURI behind size s).firstLine usingAbsoluteURI).length +
      (t.length + 2) = total → r.terminator =
        if total < capacity.toNat then some (total + aEntityBodyLength.toNat) else none := by
    intro heq
    rw [heq] at hr
    have hmoved : ¬ (some (t ++ crlf) = none ∨ total ≥ 2 ^ 31 ∨ total > capacity.toNat) := by
      rintro (hnone | hbig | hbig)
      · cases hnone
      · omega
      · omega
    rw [if_neg hmoved] at hr
    rw [← hr]
  unfold AsAnnounced
  rw [hannounced, hheader]
  constructor
  · rintro ⟨heq, hextent, -⟩
    refine ⟨hfolded (by omega), ?_⟩
    by_cases hzero : aEntityBodyLength = 0
    · exact Or.inl hzero
    refine Or.inr fun hend => ?_
    have hpos : aEntityBodyLength.toNat ≠ 0 := fun h0 =>
      hzero (UInt32.toNat_inj.1 (h0.trans toNat_zero.symm))
    -- the zero octet stands behind the buffer
    have hlast := hterm (by omega)
    rw [if_pos (by omega)] at hlast
    unfold Composed.extent at hextent
    rw [hlast] at hextent
    have hmax := (Nat.le_max_right _ _).trans hextent
    omega
  · rintro ⟨hnone, hend⟩
    obtain ⟨lines, hlines, hall, hflat⟩ := composeLines_unfolded hnone
    rw [ht] at hlines
    cases hlines
    have hlast := hterm (by omega)
    have hline : r.header = requestLine method version uri ++ lines.flatten ++ crlf := by
      rw [← hr, firstLine, uri_settled, huri, append_assoc (requestLine method version uri)]
      rfl
    refine ⟨by omega, ?_, lines, ?_, hall⟩
    · unfold Composed.extent
      rw [hlast]
      split
      · omega
      · rename_i i hi
        split at hi
        · cases hi
          rcases hend with hzero | hend
          · rw [hzero, toNat_zero]
            omega
          · omega
        · cases hi
    · unfold Composed.text
      rw [hlast, hline]
      split
      · rfl
      · rename_i i hi
        split at hi
        · cases hi
          refine set_eq_of_length_le ?_
          rw [← hline, hheader]
          omega
        · cases hi

/-- One header, of nine octets. -/
theorem sample_compose_iff : ∃ s r, execAll (step true)
    StringKeyValueStore.create [.add (ascii ['H', 'o', 's', 't']) (ascii ['h']) false] = some s ∧
    compose true (settled .GET .HTTP_V1_1 (ascii ['/', '/', 'h', '/', 'p']) [] 9 s) 28 0 false =
      some r ∧
    AsAnnounced (settled .GET .HTTP_V1_1 (ascii ['/', '/', 'h', '/', 'p']) [] 9 s)
      (requestURI (ascii ['/', '/', 'h', '/', 'p']) [] false)
      (mapOf [.add (ascii ['H', 'o', 's', 't']) (ascii ['h']) false]) 28 false r := by
  have hs : (execAll (step true) StringKeyValueStore.create
      [.add (ascii ['H', 'o', 's', 't']) (ascii ['h']) false]).isSome := by decide +kernel
  have hr : (compose true (settled .GET .HTTP_V1_1 (ascii ['/', '/', 'h', '/', 'p']) [] 9
      (Option.get _ hs)) 28 0 false).isSome := by decide +kernel +revert
  refine ⟨Option.get _ hs, Option.get _ hr, (some_get hs).symm, (some_get hr).symm,
    (compose_iff true .GET .HTTP_V1_1 _ [] 9 _ 28 0 false ?_ (some_get hs).symm
      (some_get hr).symm ?_ ?_ ?_).2 ⟨?_, Or.inl rfl⟩⟩
  · exact ⟨⟨by decide, Or.inl (by decide +kernel)⟩, fun _ _ => trivial⟩
  · decide +kernel +revert
  · decide +kernel
  · decide +kernel
  · decide +kernel

/-- The same request with lines of three octets: it is announced with twenty-eight octets, and
    thirty-four are written into a buffer of that size. -/
theorem folded_overruns :
    ((execAll (step true) StringKeyValueStore.create
      [.add (ascii ['H', 'o', 's', 't']) (ascii ['h']) false]).map fun s =>
        (settled .GET .HTTP_V1_1 (ascii ['/', '/', 'h', '/', 'p']) [] 3 s).getCurrentRequestLength
          false) = some 28 ∧
    ((execAll (step true) StringKeyValueStore.create
      [.add (ascii ['H', 'o', 's', 't']) (ascii ['h']) false]).bind fun s =>
        (compose true (settled .GET .HTTP_V1_1 (ascii ['/', '/', 'h', '/', 'p']) [] 3 s) 28 0
          false).map fun r => (r.returned, r.header.length)) = some (COMPOSE_SUCCESS, 34) := by
  decide +kernel

end Requests

end HTTPComposer

end OpenCore.HttpParcom
