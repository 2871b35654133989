/-
  File:      OpenCore/OsclUtil/StringUri.lean
  Subject:   The two versions of `oscl_str_unescape_uri` (oscl_string_uri.cpp): when they accept a
             string, and what they make of it.

  Both go through the string up to its end or its first NUL. The one with a buffer keeps counting
  when the buffer is full; the one with an `OSCL_String` stops there, and appends each byte as a C
  string, so that a decoded NUL is counted and not stored. An empty input is refused by both.

  **Main result**: `unescape_right`.
-/
import OpenCore.Lib.Word32
import OpenCore.OsclBase.StringUtils

namespace OpenCore.OsclUtil

open OsclBase List Option

/-! ## 1. The code -/

/-- `'%'`. -/
def percent : UInt8 := 37

/-- The variables of the loop: the memory from `str_buf_out` on, the place of `dest` in it, what is
    left of the buffer, and the output length. -/
structure UnescapeState where
  mem : List UInt8
  dest : Nat
  destStrLen : Nat
  out_buf_len : Nat

/-- What a call returns, the memory behind it, and `out_buf_len`. -/
structure Unescaped where
  ret : Bool
  mem : List UInt8
  out_buf_len : Nat
  deriving DecidableEq

namespace UnescapeState

/-- A byte goes out, as far as there is room. -/
def put (s : UnescapeState) (b : UInt8) : UnescapeState :=
  if 0 < s.destStrLen then
    { mem := s.mem.set s.dest b, dest := s.dest + 1, destStrLen := s.destStrLen - 1
      out_buf_len := (s.out_buf_len + 1) % 2 ^ 32 }
  else { s with out_buf_len := (s.out_buf_len + 1) % 2 ^ 32 }

/-- `if (destStrLen > 0) *dest = (char)'\0'; return false;` -/
def fail (s : UnescapeState) : Unescaped :=
  ⟨false, if 0 < s.destStrLen then s.mem.set s.dest 0 else s.mem, s.out_buf_len⟩

/-- What follows the loop. -/
def finish (s : UnescapeState) : Unescaped :=
  if 0 < s.destStrLen then ⟨true, s.mem.set s.dest 0, s.out_buf_len⟩
  else ⟨false, s.mem, (s.out_buf_len + 1) % 2 ^ 32⟩

/-- The loop, over the bytes left of the source. -/
def loop : List UInt8 → UnescapeState → Unescaped
  | [], s => s.finish
  | c :: src, s =>
    if c = percent then
      match src with
      | a :: b :: rest =>
        let r := PV_atoi32 (some (a :: b :: rest)) formatHex 2
        if r.1 then loop rest (s.put (UInt8.ofNat r.2)) else s.fail
      | _ => s.fail
    else if c = 0 then s.finish
    else loop src (s.put c)

end UnescapeState

/-- `oscl_str_unescape_uri` with a buffer: `src` are the `max_bytes` bytes at `str_buf_in`, `mem`
    is the memory from `str_buf_out` on. -/
def oscl_str_unescape_uri (src mem : List UInt8) (max_out_buf_bytes : Nat) : Unescaped :=
  if src.length = 0 then ⟨false, mem, 0⟩
  else UnescapeState.loop src ⟨mem, 0, max_out_buf_bytes, 0⟩

/-- The kinds of `OSCL_String` with storage of their own. -/
inductive OsclString where
  | stack (maxsize : Nat)
  | heap
  deriving DecidableEq

/-- `get_maxsize` of a string with these characters; a heap string is as long as its block. -/
def OsclString.get_maxsize (kind : OsclString) (chars : List UInt8) : Nat :=
  match kind with
  | .stack maxsize => maxsize
  | .heap => chars.length

/-- `destString += buf`, with one byte in front of the terminator. -/
def appendCStr (chars : List UInt8) (b : UInt8) : List UInt8 :=
  if b = 0 then chars else chars ++ [b]

/-- What a call returns, the characters of `destString` behind it, and `out_buf_len`. -/
structure UnescapedString where
  ret : Bool
  chars : List UInt8
  out_buf_len : Nat
  deriving DecidableEq

/-- The loop of the version with strings. -/
def unescapeStringLoop (kind : OsclString) :
    List UInt8 → List UInt8 → Nat → UnescapedString
  | [], chars, out_buf_len => ⟨true, chars, out_buf_len⟩
  | c :: src, chars, out_buf_len =>
    if c = percent then
      match src with
      | a :: b :: rest =>
        let r := PV_atoi32 (some (a :: b :: rest)) formatHex 2
        if r.1 then
          if chars.length = kind.get_maxsize chars then ⟨false, chars, out_buf_len⟩
          else
            unescapeStringLoop kind rest (appendCStr chars (UInt8.ofNat r.2))
              ((out_buf_len + 1) % 2 ^ 32)
        else ⟨false, chars, out_buf_len⟩
      | _ => ⟨false, chars, out_buf_len⟩
    else if c = 0 then ⟨true, chars, out_buf_len⟩
    else if chars.length = kind.get_maxsize chars then ⟨false, chars, out_buf_len⟩
    else unescapeStringLoop kind src (appendCStr chars c) ((out_buf_len + 1) % 2 ^ 32)

/-- `oscl_str_unescape_uri` with strings; the size of the source is cast to `int`. -/
def oscl_str_unescape_uri_string (src : List UInt8) (kind : OsclString) : UnescapedString :=
  if toInt32 src.length ≤ 0 then ⟨false, [], 0⟩ else unescapeStringLoop kind src [] 0

/-! ## 2. What it is for -/

/-- The string a URI stands for, up to its first NUL; none where an escape is not well formed. -/
def percentDecoded : List UInt8 → Option (List UInt8)
  | [] => some []
  | c :: src =>
    if c = percent then
      match src with
      | a :: b :: rest =>
        (hexDigit a).bind fun x => (hexDigit b).bind fun y =>
          (percentDecoded rest).map (UInt8.ofNat (x * 16 + y) :: ·)
      | _ => none
    else if c = 0 then some []
    else (percentDecoded src).map (c :: ·)

/-- **The version with a buffer is right**, for a buffer with other memory behind it: it accepts
    the string where it is well formed and fits with its terminator, and then writes it; it tells
    the length, or the size that is needed; and it leaves the memory behind the buffer alone. -/
structure BufferRight (src buf behind : List UInt8) (r : Unescaped) : Prop where
  accepts : r.ret = true ↔
    ∃ decoded, percentDecoded src = some decoded ∧ decoded.length < buf.length
  writes : r.ret = true → ∀ decoded, percentDecoded src = some decoded →
    r.mem = decoded ++ 0 :: (buf ++ behind).drop (decoded.length + 1)
  tells : ∀ decoded, percentDecoded src = some decoded →
    r.out_buf_len = (if decoded.length < buf.length then decoded.length
      else decoded.length + 1) % 2 ^ 32
  inside : r.mem.drop buf.length = behind

/-- **The versions agree** where both accept. -/
def VersionsAgree (src : List UInt8) (r : Unescaped) (s : UnescapedString) : Prop :=
  r.ret = true → s.ret = true →
    percentDecoded src = some s.chars ∧ s.out_buf_len = r.out_buf_len

/-! ## 3. Escapes -/

variable {c : UInt8}

section Escapes

theorem hexDigit_lt {d : Nat} (h : hexDigit c = some d) : d < 16 := by
  unfold hexDigit at h
  iterate 6
    split at h
    · cases h; decide
  split at h
  · rename_i hc
    have hle := UInt8.le_iff_toNat_le.mp hc.2
    have hconst : (57 : UInt8).toNat = 57 := rfl
    cases h
    omega
  · cases h

/-- Two characters behind a percent sign. -/
theorem atoi_escape (a b : UInt8) (rest : List UInt8) :
    (∃ x y, hexDigit a = some x ∧ hexDigit b = some y ∧
      PV_atoi32 (some (a :: b :: rest)) formatHex 2 = (true, x * 16 + y)) ∨
    ((hexDigit a = none ∨ hexDigit b = none) ∧
      (PV_atoi32 (some (a :: b :: rest)) formatHex 2).1 = false) := by
  have hread : PV_atoi32 (some (a :: b :: rest)) formatHex 2 =
      atoiLoop 32 16 hexDigit [a, b] 0 := rfl
  rw [hread]
  cases ha : hexDigit a with
  | none =>
    refine .inr ⟨.inl rfl, ?_⟩
    rw [atoiLoop, ha]
  | some x =>
    have hx := hexDigit_lt ha
    have hfirst : (0 * 16 + x) % 2 ^ 32 = x := by omega
    cases hb : hexDigit b with
    | none =>
      refine .inr ⟨.inr rfl, ?_⟩
      rw [atoiLoop, ha]
      dsimp only
      rw [hfirst, if_neg (Nat.not_lt_zero x), atoiLoop, hb]
    | some y =>
      have hy := hexDigit_lt hb
      have hsecond : (x * 16 + y) % 2 ^ 32 = x * 16 + y := by omega
      refine .inl ⟨x, y, rfl, rfl, ?_⟩
      rw [atoiLoop, ha]
      dsimp only
      rw [hfirst, if_neg (Nat.not_lt_zero x), atoiLoop, hb]
      dsimp only
      rw [hsecond, if_neg (by omega), atoiLoop]

end Escapes

/-! ## 4. The version with a buffer -/

variable {src : List UInt8}

section Buffer

variable {mem : List UInt8} {max : Nat}

/-- The variables with these bytes behind the loop, in memory that was `mem`. -/
def stateOf (mem : List UInt8) (max : Nat) (bytes : List UInt8) : UnescapeState where
  mem := bytes.take max ++ mem.drop (min bytes.length max)
  dest := min bytes.length max
  destStrLen := max - bytes.length
  out_buf_len := bytes.length % 2 ^ 32

theorem stateOf_put (hmem : max ≤ mem.length) (bytes : List UInt8) (b : UInt8) :
    (stateOf mem max bytes).put b = stateOf mem max (bytes ++ [b]) := by
  have hout : (bytes.length % 2 ^ 32 + 1) % 2 ^ 32 = (bytes ++ [b]).length % 2 ^ 32 := by
    rw [length_append, Nat.mod_add_mod]
    rfl
  unfold UnescapeState.put
  by_cases hroom : bytes.length < max
  · have hlt : bytes.length < mem.length := by omega
    have hleft : 0 < (stateOf mem max bytes).destStrLen := Nat.sub_pos_of_lt hroom
    rw [if_pos hleft]
    unfold stateOf
    dsimp only
    rw [hout, length_append, length_singleton, Nat.min_eq_left (Nat.le_of_lt hroom),
      Nat.min_eq_left (Nat.succ_le_of_lt hroom), Nat.sub_sub,
      take_of_length_le (Nat.le_of_lt hroom),
      take_of_length_le (by rw [length_append]; exact hroom),
      drop_eq_getElem_cons hlt, set_append_right _ _ (Nat.le_refl _), Nat.sub_self,
      set_cons_zero, append_assoc]
    rfl
  · have hfull : max ≤ bytes.length := Nat.le_of_not_lt hroom
    rw [if_neg (by unfold stateOf; dsimp only; omega)]
    unfold stateOf
    dsimp only
    rw [hout, length_append, length_singleton, Nat.min_eq_right hfull,
      Nat.min_eq_right (Nat.le_succ_of_le hfull), Nat.sub_eq_zero_of_le hfull,
      Nat.sub_eq_zero_of_le (Nat.le_succ_of_le hfull), take_append_of_le_length hfull]

/-- The memory behind the buffer is as it was. -/
theorem stateOf_drop (bytes : List UInt8) :
    (stateOf mem max bytes).mem.drop max = mem.drop max := by
  unfold stateOf
  dsimp only
  rw [drop_append, drop_eq_nil_of_le (length_take_le _ _), nil_append,
    drop_drop, length_take]
  congr 1
  omega

theorem drop_set_dest (bytes : List UInt8) (h : 0 < (stateOf mem max bytes).destStrLen) :
    ((stateOf mem max bytes).mem.set (stateOf mem max bytes).dest 0).drop max = mem.drop max := by
  have hlt : (stateOf mem max bytes).dest < max := by
    unfold stateOf at h ⊢
    dsimp only at h ⊢
    omega
  rw [drop_set_of_lt hlt, stateOf_drop]

theorem stateOf_fail (bytes : List UInt8) :
    (stateOf mem max bytes).fail.ret = false ∧
      (stateOf mem max bytes).fail.mem.drop max = mem.drop max := by
  unfold UnescapeState.fail
  refine ⟨rfl, ?_⟩
  dsimp only
  split
  · rename_i h
    exact drop_set_dest bytes h
  · exact stateOf_drop bytes

theorem stateOf_finish (hmem : max ≤ mem.length) (bytes : List UInt8) :
    (stateOf mem max bytes).finish.mem.drop max = mem.drop max ∧
    (bytes.length < max → (stateOf mem max bytes).finish =
      ⟨true, bytes ++ 0 :: mem.drop (bytes.length + 1), bytes.length % 2 ^ 32⟩) ∧
    (max ≤ bytes.length → (stateOf mem max bytes).finish.ret = false ∧
      (stateOf mem max bytes).finish.out_buf_len = (bytes.length + 1) % 2 ^ 32) := by
  unfold UnescapeState.finish
  by_cases hroom : 0 < (stateOf mem max bytes).destStrLen
  · rw [if_pos hroom]
    have hlt : bytes.length < max := by
      unfold stateOf at hroom
      dsimp only at hroom
      omega
    refine ⟨drop_set_dest bytes hroom, fun _ => ?_, fun h => absurd hlt (Nat.not_lt.mpr h)⟩
    unfold stateOf
    dsimp only
    rw [Nat.min_eq_left (Nat.le_of_lt hlt), take_of_length_le (Nat.le_of_lt hlt),
      drop_eq_getElem_cons (hlt.trans_le hmem),
      set_append_right _ _ (Nat.le_refl _), Nat.sub_self, set_cons_zero]
  · rw [if_neg hroom]
    have hfull : max ≤ bytes.length := by
      unfold stateOf at hroom
      dsimp only at hroom
      omega
    refine ⟨stateOf_drop bytes, fun h => absurd hfull (Nat.not_le.mpr h), fun _ => ⟨rfl, ?_⟩⟩
    unfold stateOf
    dsimp only
    rw [Nat.mod_add_mod]

theorem loop_escape (a b : UInt8) (rest : List UInt8) (s : UnescapeState) :
    UnescapeState.loop (percent :: a :: b :: rest) s =
      if (PV_atoi32 (some (a :: b :: rest)) formatHex 2).1 then
        UnescapeState.loop rest
          (s.put (UInt8.ofNat (PV_atoi32 (some (a :: b :: rest)) formatHex 2).2))
      else s.fail := by
  rw [UnescapeState.loop, if_pos rfl]

/-- A percent sign with fewer than two characters behind it. -/
theorem loop_cut (h : ∀ a b rest, src = a :: b :: rest → False)
    (s : UnescapeState) : UnescapeState.loop (percent :: src) s = s.fail := by
  rw [UnescapeState.loop, if_pos rfl]
  exact h

theorem loop_other (hc : c ≠ percent) (src : List UInt8) (s : UnescapeState) :
    UnescapeState.loop (c :: src) s =
      if c = 0 then s.finish else UnescapeState.loop src (s.put c) := by
  conv_lhs => unfold UnescapeState.loop
  rw [if_neg hc]

/-- **The loop**, behind bytes already decoded. -/
theorem loop_spec (hmem : max ≤ mem.length) (src bytes : List UInt8) :
    (∀ decoded, percentDecoded src = some decoded →
      UnescapeState.loop src (stateOf mem max bytes) =
        (stateOf mem max (bytes ++ decoded)).finish) ∧
    (percentDecoded src = none →
      (UnescapeState.loop src (stateOf mem max bytes)).ret = false ∧
        (UnescapeState.loop src (stateOf mem max bytes)).mem.drop max = mem.drop max) := by
  fun_induction percentDecoded src generalizing bytes with
  | case1 =>
    refine ⟨fun decoded h => ?_, fun h => nomatch h⟩
    obtain rfl : [] = decoded := some.inj h
    rw [append_nil, UnescapeState.loop]
  | case2 a b rest ih =>
    rw [loop_escape]
    rcases atoi_escape a b rest with ⟨x, y, hx, hy, hatoi⟩ | ⟨hbad, hatoi⟩
    · rw [hatoi, hx, hy, bind_some, bind_some, if_pos rfl, stateOf_put hmem]
      obtain ⟨hsome, hnone⟩ := ih (bytes ++ [UInt8.ofNat (x * 16 + y)])
      refine ⟨fun decoded h => ?_, fun h => hnone (map_eq_none_iff.mp h)⟩
      obtain ⟨decoded', h', rfl⟩ := map_eq_some_iff.mp h
      rw [hsome decoded' h', append_assoc]
      rfl
    · have hnone : ((hexDigit a).bind fun x => (hexDigit b).bind fun y =>
          (percentDecoded rest).map (UInt8.ofNat (x * 16 + y) :: ·)) = none := by
        rcases hbad with h | h
        · rw [h]
          rfl
        · rw [h]
          cases hexDigit a <;> rfl
      rw [hnone, hatoi, if_neg Bool.false_ne_true]
      exact ⟨fun decoded h => (nomatch h), fun _ => stateOf_fail bytes⟩
  | case3 src h =>
    rw [loop_cut h]
    exact ⟨fun decoded h => (nomatch h), fun _ => stateOf_fail bytes⟩
  | case4 src hc =>
    rw [loop_other hc, if_pos rfl]
    refine ⟨fun decoded h => ?_, fun h => nomatch h⟩
    obtain rfl : [] = decoded := some.inj h
    rw [append_nil]
  | case5 c src hc hnul ih =>
    rw [loop_other hc, if_neg hnul, stateOf_put hmem]
    obtain ⟨hsome, hnone⟩ := ih (bytes ++ [c])
    refine ⟨fun decoded h => ?_, fun h => hnone (map_eq_none_iff.mp h)⟩
    obtain ⟨decoded', h', rfl⟩ := map_eq_some_iff.mp h
    rw [hsome decoded' h', append_assoc]
    rfl

/-- **The version with a buffer**, where the string is not empty. -/
theorem buffer_right (hsrc : src ≠ []) (buf behind : List UInt8) :
    BufferRight src buf behind (oscl_str_unescape_uri src (buf ++ behind) buf.length) := by
  have hmem : buf.length ≤ (buf ++ behind).length := by
    rw [length_append]
    exact Nat.le_add_right _ _
  have hrun : oscl_str_unescape_uri src (buf ++ behind) buf.length =
      UnescapeState.loop src (stateOf (buf ++ behind) buf.length []) := by
    unfold oscl_str_unescape_uri
    rw [if_neg fun h => hsrc (length_eq_zero_iff.mp h)]
    unfold stateOf
    rw [length_nil, Nat.zero_min, drop_zero, take_nil, nil_append]
    rfl
  have hdrop : (buf ++ behind).drop buf.length = behind := drop_left
  obtain ⟨hsome, hnone⟩ := loop_spec hmem src []
  rw [hrun]
  cases hdecoded : percentDecoded src with
  | none =>
    obtain ⟨hret, hbehind⟩ := hnone hdecoded
    refine ⟨?_, ?_, ?_, hbehind.trans hdrop⟩
    · rw [hret, hdecoded]
      refine ⟨fun h => absurd h Bool.false_ne_true, ?_⟩
      rintro ⟨decoded, h, -⟩
      cases h
    · rw [hret]
      exact fun h => absurd h Bool.false_ne_true
    · rw [hdecoded]
      exact fun decoded h => nomatch h
  | some decoded =>
    have hfinish := hsome decoded hdecoded
    rw [nil_append] at hfinish
    obtain ⟨hbehind, hfits, hfull⟩ := stateOf_finish hmem decoded
    have hall : ∀ decoded', percentDecoded src = some decoded' → decoded' = decoded := by
      intro decoded' h
      rw [hdecoded] at h
      exact (some.inj h).symm
    rw [hfinish]
    by_cases hlt : decoded.length < buf.length
    · refine ⟨?_, ?_, ?_, hbehind.trans hdrop⟩
      · rw [hfits hlt]
        exact iff_of_true rfl ⟨decoded, hdecoded, hlt⟩
      · rw [hfits hlt]
        rintro - decoded' h
        rw [hall decoded' h]
      · rw [hfits hlt]
        intro decoded' h
        rw [hall decoded' h, if_pos hlt]
    · obtain ⟨hret, hout⟩ := hfull (Nat.le_of_not_lt hlt)
      refine ⟨?_, ?_, ?_, hbehind.trans hdrop⟩
      · rw [hret]
        refine iff_of_false Bool.false_ne_true ?_
        rintro ⟨decoded', h, hlt'⟩
        rw [hall decoded' h] at hlt'
        exact hlt hlt'
      · rw [hret]
        exact fun h => absurd h Bool.false_ne_true
      · intro decoded' h
        rw [hout, hall decoded' h, if_neg hlt]

end Buffer

/-! ## 5. The version with strings -/

section Strings

variable {kind : OsclString}

/-- The bytes a string holds of those appended to it. -/
def stored (bytes : List UInt8) : List UInt8 := bytes.filter (· ≠ 0)

theorem appendCStr_eq (chars : List UInt8) (b : UInt8) :
    appendCStr chars b = chars ++ stored [b] := by
  unfold appendCStr stored
  by_cases hb : b = 0
  · rw [if_pos hb, hb]
    exact (append_nil chars).symm
  · rw [if_neg hb]
    simp [hb]

theorem stored_cons (b : UInt8) (bytes : List UInt8) :
    stored (b :: bytes) = stored [b] ++ stored bytes :=
  filter_append [b] bytes

theorem unescapeStringLoop_other (hc : c ≠ percent) (src chars : List UInt8)
    (out_buf_len : Nat) :
    unescapeStringLoop kind (c :: src) chars out_buf_len =
      if c = 0 then ⟨true, chars, out_buf_len⟩
      else if chars.length = kind.get_maxsize chars then ⟨false, chars, out_buf_len⟩
      else unescapeStringLoop kind src (appendCStr chars c) ((out_buf_len + 1) % 2 ^ 32) := by
  conv_lhs => unfold unescapeStringLoop
  rw [if_neg hc]

/-- **The loop**: the string that is accepted is the decoded one without its NULs, and these are
    counted. -/
theorem unescapeStringLoop_spec (src chars : List UInt8) (n : Nat)
    (h : (unescapeStringLoop kind src chars (n % 2 ^ 32)).ret = true) :
    ∃ decoded, percentDecoded src = some decoded ∧
      (unescapeStringLoop kind src chars (n % 2 ^ 32)).chars = chars ++ stored decoded ∧
      (unescapeStringLoop kind src chars (n % 2 ^ 32)).out_buf_len =
        (n + decoded.length) % 2 ^ 32 := by
  fun_induction percentDecoded src generalizing chars n with
  | case1 =>
    refine ⟨[], rfl, ?_, rfl⟩
    rw [unescapeStringLoop]
    exact (append_nil chars).symm
  | case2 a b rest ih =>
    rw [unescapeStringLoop, if_pos rfl] at h ⊢
    dsimp only at h ⊢
    rcases atoi_escape a b rest with ⟨x, y, hx, hy, hatoi⟩ | ⟨hbad, hatoi⟩
    · rw [hatoi, if_pos rfl] at h ⊢
      by_cases hfull : chars.length = kind.get_maxsize chars
      · rw [if_pos hfull] at h
        cases h
      · rw [if_neg hfull, Nat.mod_add_mod] at h ⊢
        obtain ⟨decoded, hdecoded, hchars, hout⟩ := ih _ (n + 1) h
        refine ⟨UInt8.ofNat (x * 16 + y) :: decoded, ?_, ?_, ?_⟩
        · rw [hx, hy, hdecoded]
          rfl
        · rw [hchars, appendCStr_eq, append_assoc, ← stored_cons]
        · rw [hout, length_cons, Nat.add_right_comm, Nat.add_assoc]
    · rw [hatoi, if_neg Bool.false_ne_true] at h
      cases h
  | case3 src hcut =>
    rw [unescapeStringLoop, if_pos rfl] at h
    · cases h
    · exact hcut
  | case4 src hc =>
    rw [unescapeStringLoop_other hc, if_pos rfl]
    exact ⟨[], rfl, (append_nil chars).symm, rfl⟩
  | case5 c src hc hnul ih =>
    rw [unescapeStringLoop_other hc, if_neg hnul] at h ⊢
    by_cases hfull : chars.length = kind.get_maxsize chars
    · rw [if_pos hfull] at h
      cases h
    · rw [if_neg hfull, Nat.mod_add_mod] at h ⊢
      obtain ⟨decoded, hdecoded, hchars, hout⟩ := ih _ (n + 1) h
      refine ⟨c :: decoded, ?_, ?_, ?_⟩
      · rw [hdecoded]
        rfl
      · rw [hchars, appendCStr_eq, append_assoc, ← stored_cons]
      · rw [hout, length_cons, Nat.add_right_comm, Nat.add_assoc]

theorem string_spec
    (h : (oscl_str_unescape_uri_string src kind).ret = true) :
    ∃ decoded, percentDecoded src = some decoded ∧
      (oscl_str_unescape_uri_string src kind).chars = stored decoded ∧
      (oscl_str_unescape_uri_string src kind).out_buf_len = decoded.length % 2 ^ 32 := by
  unfold oscl_str_unescape_uri_string at h ⊢
  split
  · rename_i hsize
    rw [if_pos hsize] at h
    cases h
  · rename_i hsize
    rw [if_neg hsize] at h
    obtain ⟨decoded, hdecoded, hchars, hout⟩ := unescapeStringLoop_spec src [] 0 h
    rw [Nat.zero_add] at hout
    exact ⟨decoded, hdecoded, hchars, hout⟩

/-- **Both versions, for every input that is not empty**, whatever the buffer, the memory behind it
    and the string: the one with a buffer is right, and they agree where no NUL is decoded. -/
theorem unescape_right {src : List UInt8} (hsrc : src ≠ []) (buf behind : List UInt8)
    (kind : OsclString) :
    BufferRight src buf behind (oscl_str_unescape_uri src (buf ++ behind) buf.length) ∧
    ((∀ decoded, percentDecoded src = some decoded → (0 : UInt8) ∉ decoded) →
      VersionsAgree src (oscl_str_unescape_uri src (buf ++ behind) buf.length)
        (oscl_str_unescape_uri_string src kind)) := by
  have hright := buffer_right hsrc buf behind
  refine ⟨hright, fun hnul hret hs => ?_⟩
  obtain ⟨decoded, hdecoded, hchars, hout⟩ := string_spec hs
  obtain ⟨decoded', hdecoded', hlt⟩ := hright.accepts.mp hret
  obtain rfl : decoded = decoded' := Option.some.inj (hdecoded.symm.trans hdecoded')
  have hkept : stored decoded = decoded := by
    refine filter_eq_self.mpr fun b hb => decide_eq_true fun h => ?_
    exact hnul decoded hdecoded (h ▸ hb)
  refine ⟨by rw [hchars, hkept, hdecoded], ?_⟩
  rw [hout, hright.tells decoded hdecoded, if_pos hlt]

/-- `a%20b` in a buffer of four bytes and in a string of eight. -/
theorem unescape_right_space :
    BufferRight [97, 37, 50, 48, 98] [1, 1, 1, 1] [7]
      (oscl_str_unescape_uri [97, 37, 50, 48, 98] ([1, 1, 1, 1] ++ [7]) 4) ∧
    VersionsAgree [97, 37, 50, 48, 98]
      (oscl_str_unescape_uri [97, 37, 50, 48, 98] ([1, 1, 1, 1] ++ [7]) 4)
      (oscl_str_unescape_uri_string [97, 37, 50, 48, 98] (.stack 8)) := by
  have hsrc : ([97, 37, 50, 48, 98] : List UInt8) ≠ [] := cons_ne_nil _ _
  obtain ⟨hright, hagree⟩ := unescape_right hsrc [1, 1, 1, 1] [7] (.stack 8)
  refine ⟨hright, hagree fun decoded h => ?_⟩
  have hdecoded : percentDecoded [97, 37, 50, 48, 98] = some [97, 32, 98] := by decide
  rw [hdecoded] at h
  obtain rfl : [97, 32, 98] = decoded := Option.some.inj h
  decide

/-- The empty input is refused, though the empty string fits; and of `%00` the string version keeps
    nothing. -/
theorem empty_refused :
    ¬ BufferRight [] [1] [] (oscl_str_unescape_uri [] ([1] ++ []) 1) ∧
    ¬ VersionsAgree [37, 48, 48] (oscl_str_unescape_uri [37, 48, 48] ([1, 1] ++ []) 2)
      (oscl_str_unescape_uri_string [37, 48, 48] (.stack 8)) := by
  constructor
  · intro h
    have hret : (oscl_str_unescape_uri [] ([1] ++ []) 1).ret = true :=
      h.accepts.mpr ⟨[], rfl, by decide⟩
    exact absurd hret (by decide)
  · intro h
    have hboth := h (by decide) (by decide +kernel)
    exact absurd hboth.1 (by decide +kernel)

end Strings

end OpenCore.OsclUtil
