/-
  File:      OpenCore/OsclUtil/Utf8Conv.lean
  Subject:   `oscl_UnicodeToUTF8` and `oscl_UTF8ToUnicode` (oscl_utf8conv.cpp): when the encoder
             reports success, what it leaves in the buffer, and the way back.

  A conversion works in a buffer the caller hands over; a load or a store outside an array makes
  the run undefined (`none`). Indices are `int32`s and wrap as the machine wraps them.
-/
import OpenCore.Lib.Word32

namespace OpenCore.OsclUtil

open List Option

/-! ## 1. Buffers -/

/-- `buf[i]`. -/
def load {β : Type} (buf : List β) (i : Int) : Option β :=
  if 0 ≤ i then buf[i.toNat]? else none

/-- `buf[i] = b`. -/
def store {β : Type} (buf : List β) (i : Int) (b : β) : Option (List β) :=
  if 0 ≤ i ∧ i < buf.length then some (buf.set i.toNat b) else none

/-- `strDest[i_cur_output++] = b` for one element after the other. -/
def emit {β : Type} : List β → Int → List β → Option (Int × List β)
  | [], i_cur_output, strDest => some (i_cur_output, strDest)
  | b :: bs, i_cur_output, strDest =>
    (store strDest i_cur_output b).bind fun strDest =>
      emit bs (addInt32 i_cur_output 1) strDest

/-- `strDest[i_cur_output] = 0; return ret;` -/
def terminate {β : Type} (zero : β) (ret i_cur_output : Int) (strDest : List β) :
    Option (Int × List β) :=
  (store strDest i_cur_output zero).map fun strDest => (ret, strDest)

/-! ## 2. The encoder -/

/-- The bytes `oscl_UnicodeToUTF8` stores for a character, behind the space it asks for. -/
def representation (ch : UInt16) : Int × List UInt8 :=
  if ch < 0x80 then (1, [ch.toUInt8])
  else if ch < 0x800 then
    (2, [(ch >>> 6 ||| 0xc0).toUInt8, ((ch &&& 0x3f) ||| 0x80).toUInt8])
  else if ch < 0xdfff ∧ 0xd800 < ch then
    -- half of a surrogate pair: space for four bytes is asked for, two are stored
    let ch_tmp_byte : UInt16 := ((ch &&& 0x3c0) >>> 6) + 1
    let low : UInt16 := (ch &&& 0x3e) >>> 2
    (4, [(ch_tmp_byte >>> 2 ||| 0xf0).toUInt8, ((ch_tmp_byte &&& 0x03) ||| 0x80 ||| low).toUInt8])
  else
    (3, [(ch >>> 12 ||| 0xe0).toUInt8, ((ch >>> 6 &&& 0x3f) ||| 0x80).toUInt8,
      ((ch &&& 0x3f) ||| 0x80).toUInt8])

/-- The loop of `oscl_UnicodeToUTF8` over the characters left. -/
def unicodeToUTF8Loop (nDestLen : Int) :
    List UInt16 → Int → List UInt8 → Option (Int × List UInt8)
  | [], i_cur_output, strDest => terminate 0 i_cur_output i_cur_output strDest
  | ch :: szSrc, i_cur_output, strDest =>
    if addInt32 i_cur_output (representation ch).1 < nDestLen then
      (emit (representation ch).2 i_cur_output strDest).bind fun r =>
        unicodeToUTF8Loop nDestLen szSrc r.1 r.2
    else terminate 0 0 i_cur_output strDest

/-- `oscl_UnicodeToUTF8`: what it returns, and the buffer behind the call. -/
def unicodeToUTF8 (szSrc : List UInt16) (strDest : List UInt8) (nDestLen : Int) :
    Option (Int × List UInt8) :=
  if nDestLen ≤ 0 then some (0, strDest)
  else unicodeToUTF8Loop nDestLen szSrc 0 strDest

/-! ## 3. The decoder -/

/-- The character of a three byte form. -/
def threeBytes (b0 b1 b2 : UInt8) : UInt16 :=
  ((b0.toUInt16 &&& 0x0f) <<< 12) ||| ((b1.toUInt16 &&& 0x3f) <<< 6) ||| (b2.toUInt16 &&& 0x3f)

/-- The character of a two byte form. -/
def twoBytes (b0 b1 : UInt8) : UInt16 :=
  ((b0.toUInt16 &&& ~~~0xc0) <<< 6) ||| (b1.toUInt16 &&& ~~~0x80)

/-- One turn of the loop of `oscl_UTF8ToUnicode` at byte `i`: the character and the bytes it takes,
    or `none` inside where the source or the buffer has too little left. -/
def decodeOne (pszSrc : List UInt8) (nSrcLen nDestLen i i_cur_output : Int) :
    Option (Option (UInt16 × Int)) :=
  (load pszSrc i).bind fun b0 =>
    if 0xe0 ≤ b0 then
      if addInt32 i 2 < nSrcLen ∧ addInt32 i_cur_output 1 < nDestLen then
        (load pszSrc (addInt32 i 1)).bind fun b1 =>
          (load pszSrc (addInt32 i 2)).map fun b2 => some (threeBytes b0 b1 b2, 3)
      else some none
    else if 0xc0 ≤ b0 then
      if addInt32 i 1 < nSrcLen ∧ addInt32 i_cur_output 1 < nDestLen then
        (load pszSrc (addInt32 i 1)).map fun b1 => some (twoBytes b0 b1, 2)
      else some none
    else
      if i < nSrcLen ∧ addInt32 i_cur_output 1 < nDestLen then some (some (b0.toUInt16, 1))
      else some none

/-- The loop of `oscl_UTF8ToUnicode`, over at most `fuel` characters. -/
def utf8ToUnicodeLoop (pszSrc : List UInt8) (nSrcLen nDestLen : Int) :
    Nat → Int → Int → List UInt16 → Option (Int × List UInt16)
  | 0, _, _, _ => none
  | fuel + 1, i, i_cur_output, strDest =>
    if i < nSrcLen then
      (decodeOne pszSrc nSrcLen nDestLen i i_cur_output).bind fun
        | none => terminate 0 0 i_cur_output strDest
        | some (ch, k) =>
          (store strDest i_cur_output ch).bind fun strDest =>
            utf8ToUnicodeLoop pszSrc nSrcLen nDestLen fuel (addInt32 i k)
              (addInt32 i_cur_output 1) strDest
    else terminate 0 i_cur_output i_cur_output strDest

/-- `oscl_UTF8ToUnicode`; every turn takes a byte at least, so there are no more turns than bytes
    and the last look at the loop's condition. -/
def utf8ToUnicode (szSrc : List UInt8) (strDest : List UInt16) (nDestLen : Int) :
    Option (Int × List UInt16) :=
  if nDestLen ≤ 0 then some (0, strDest)
  else utf8ToUnicodeLoop szSrc szSrc.length nDestLen (szSrc.length + 1) 0 0 strDest

/-! ## 4. What the two are for: UTF-8 -/

/-- A character in UTF-8, by arithmetic. -/
def utf8Char (ch : UInt16) : List UInt8 :=
  if ch < 0x80 then [UInt8.ofNat ch.toNat]
  else if ch < 0x800 then
    [UInt8.ofNat (192 + ch.toNat / 64), UInt8.ofNat (128 + ch.toNat % 64)]
  else
    [UInt8.ofNat (224 + ch.toNat / 4096), UInt8.ofNat (128 + ch.toNat / 64 % 64),
      UInt8.ofNat (128 + ch.toNat % 64)]

/-- A string in UTF-8. -/
def utf8 (szSrc : List UInt16) : List UInt8 := szSrc.flatMap utf8Char

/-- No surrogate code unit in the string. -/
def NoSurrogates (szSrc : List UInt16) : Prop := ∀ ch ∈ szSrc, ch < 0xd800 ∨ 0xdfff < ch

/-- The encoded string and its terminator fit. -/
def Fits (szSrc : List UInt16) (nDestLen : Int) : Prop := (utf8 szSrc).length + 1 ≤ nDestLen

@[simp] theorem utf8_nil : utf8 [] = [] := rfl

@[simp] theorem utf8_cons (ch : UInt16) (szSrc : List UInt16) :
    utf8 (ch :: szSrc) = utf8Char ch ++ utf8 szSrc := flatMap_cons

@[simp] theorem utf8_append (xs ys : List UInt16) : utf8 (xs ++ ys) = utf8 xs ++ utf8 ys :=
  flatMap_append

/-! ## 5. Bytes -/

theorem or_eq_add {k a b : Nat} (h : b < 2 ^ k) : b ||| 2 ^ k * a = 2 ^ k * a + b := by
  rw [Nat.or_comm, Nat.two_pow_add_eq_or_of_lt h]

theorem utf8Char_cases (ch : UInt16) :
    (ch.toNat < 128 ∧ utf8Char ch = [UInt8.ofNat ch.toNat]) ∨
    (128 ≤ ch.toNat ∧ ch.toNat < 2048 ∧
      utf8Char ch = [UInt8.ofNat (192 + ch.toNat / 64), UInt8.ofNat (128 + ch.toNat % 64)]) ∨
    (2048 ≤ ch.toNat ∧
      utf8Char ch = [UInt8.ofNat (224 + ch.toNat / 4096), UInt8.ofNat (128 + ch.toNat / 64 % 64),
        UInt8.ofNat (128 + ch.toNat % 64)]) := by
  unfold utf8Char
  by_cases h1 : ch < 0x80
  · exact Or.inl ⟨h1, if_pos h1⟩
  · have h1' : 128 ≤ ch.toNat := Nat.le_of_not_lt h1
    rw [if_neg h1]
    by_cases h2 : ch < 0x800
    · exact Or.inr (Or.inl ⟨h1', h2, if_pos h2⟩)
    · exact Or.inr (Or.inr ⟨Nat.le_of_not_lt h2, if_neg h2⟩)

theorem utf8Char_length (ch : UInt16) :
    1 ≤ (utf8Char ch).length ∧ (utf8Char ch).length ≤ 3 := by
  obtain ⟨-, he⟩ | ⟨-, -, he⟩ | ⟨-, he⟩ := utf8Char_cases ch <;> rw [he] <;> simp

/-- A continuation byte holds six bits of the character. -/
theorem continuation_eq (n : UInt16) :
    ((n &&& 0x3f) ||| 0x80).toUInt8 = UInt8.ofNat (128 + n.toNat % 64) := by
  apply UInt8.toNat_inj.mp
  have hand := Nat.and_two_pow_sub_one_eq_mod (n.toNat % 256) 6
  have hor := @or_eq_add 7 1 (n.toNat % 256 % 64) (by omega)
  simp at hand hor ⊢
  rw [hand, hor]
  omega

/-- A lead byte holds the upper bits behind its mark. -/
theorem lead_eq {k a : Nat} (n : UInt16) (m : UInt16) (hm : m.toNat = 2 ^ k * a)
    (hn : n.toNat < 2 ^ k) : (n ||| m).toUInt8 = UInt8.ofNat (2 ^ k * a + n.toNat) := by
  apply UInt8.toNat_inj.mp
  rw [UInt16.toNat_toUInt8, UInt16.toNat_or, hm, or_eq_add hn, UInt8.toNat_ofNat']

variable {ch : UInt16}

/-- What the encoder stores for a character that is no surrogate is its UTF-8 form, and the space
    it asks for is what it stores. -/
theorem representation_eq (hns : ch < 0xd800 ∨ 0xdfff < ch) :
    representation ch = (((utf8Char ch).length : Int), utf8Char ch) := by
  have hlt := ch.toNat_lt
  have hsh6 : (ch >>> 6).toNat = ch.toNat / 64 := by simp [Nat.shiftRight_eq_div_pow]
  have hsh12 : (ch >>> 12).toNat = ch.toNat / 4096 := by simp [Nat.shiftRight_eq_div_pow]
  unfold representation utf8Char
  by_cases h1 : ch < 0x80
  · rw [if_pos h1, if_pos h1]
    simp
  · rw [if_neg h1, if_neg h1]
    by_cases h2 : ch < 0x800
    · have h2' : ch.toNat < 2048 := h2
      have hlead := @lead_eq 5 6 (ch >>> 6) 0xc0 rfl (by rw [hsh6]; omega)
      rw [if_pos h2, if_pos h2, hlead, continuation_eq, hsh6]
      rfl
    · have hsur : ¬ (ch < 0xdfff ∧ 0xd800 < ch) := by
        intro ⟨hlo, hhi⟩
        obtain h | h := hns
        · exact absurd (UInt16.lt_trans h hhi) (UInt16.lt_irrefl _)
        · exact absurd (UInt16.lt_trans h hlo) (UInt16.lt_irrefl _)
      have hlead := @lead_eq 5 7 (ch >>> 12) 0xe0 rfl (by rw [hsh12]; omega)
      rw [if_neg h2, if_neg hsur, if_neg h2, hlead, continuation_eq, continuation_eq, hsh12, hsh6]
      rfl

theorem threeBytes_toNat (b0 b1 b2 : UInt8) : (threeBytes b0 b1 b2).toNat =
    b0.toNat % 16 * 4096 + b1.toNat % 64 * 64 + b2.toNat % 64 := by
  have h0 := Nat.and_two_pow_sub_one_eq_mod b0.toNat 4
  have h1 := Nat.and_two_pow_sub_one_eq_mod b1.toNat 6
  have h2 := Nat.and_two_pow_sub_one_eq_mod b2.toNat 6
  have hm0 : b0.toNat % 16 * 4096 % 65536 = 2 ^ 12 * (b0.toNat % 16) := by omega
  have hm1 : b1.toNat % 64 * 64 % 65536 = b1.toNat % 64 * 64 := by omega
  have hor := @or_eq_add 12 (b0.toNat % 16) (b1.toNat % 64 * 64) (by omega)
  have hor' := @or_eq_add 6 (b0.toNat % 16 * 64 + b1.toNat % 64) (b2.toNat % 64) (by omega)
  have hsum : 2 ^ 12 * (b0.toNat % 16) + b1.toNat % 64 * 64 =
      2 ^ 6 * (b0.toNat % 16 * 64 + b1.toNat % 64) := by omega
  simp [threeBytes, Nat.shiftLeft_eq] at h0 h1 h2 ⊢
  rw [h0, h1, h2, hm0, hm1, Nat.or_comm (2 ^ 12 * (b0.toNat % 16)), hor, hsum,
    Nat.or_comm (2 ^ 6 * (b0.toNat % 16 * 64 + b1.toNat % 64)), hor']
  omega

theorem twoBytes_toNat {b0 b1 : UInt8} (hb1 : b1.toNat % 128 < 64) :
    (twoBytes b0 b1).toNat = b0.toNat % 64 * 64 + b1.toNat % 128 := by
  have h0 : ∀ n < 256, n &&& 65343 = n % 64 := by decide +kernel
  have h1 : ∀ n < 256, n &&& 65407 = n % 128 := by decide +kernel
  have hm0 : b0.toNat % 64 * 64 % 65536 = 2 ^ 6 * (b0.toNat % 64) := by omega
  have hor := @or_eq_add 6 (b0.toNat % 64) (b1.toNat % 128) hb1
  simp [twoBytes, Nat.shiftLeft_eq]
  rw [h0 _ b0.toNat_lt, h1 _ b1.toNat_lt, hm0, Nat.or_comm, hor]
  omega

/-- The decoder undoes the three byte form. -/
theorem threeBytes_eq :
    threeBytes (UInt8.ofNat (224 + ch.toNat / 4096)) (UInt8.ofNat (128 + ch.toNat / 64 % 64))
      (UInt8.ofNat (128 + ch.toNat % 64)) = ch := by
  have hlt := ch.toNat_lt
  apply UInt16.toNat_inj.mp
  rw [threeBytes_toNat]
  simp only [UInt8.toNat_ofNat']
  omega

/-- The decoder undoes the two byte form. -/
theorem twoBytes_eq (hlt : ch.toNat < 2048) :
    twoBytes (UInt8.ofNat (192 + ch.toNat / 64)) (UInt8.ofNat (128 + ch.toNat % 64)) = ch := by
  have hb1 : (UInt8.ofNat (128 + ch.toNat % 64)).toNat = 128 + ch.toNat % 64 := by
    rw [UInt8.toNat_ofNat']
    omega
  apply UInt16.toNat_inj.mp
  rw [twoBytes_toNat (by omega), hb1, UInt8.toNat_ofNat']
  omega

/-! ## 6. Buffers -/

variable {β : Type}

theorem load_append (pre xs : List β) (k : Nat) :
    load (pre ++ xs) ((pre.length + k : Nat) : Int) = xs[k]? := by
  unfold load
  rw [if_pos (by omega), Int.toNat_natCast, getElem?_append_right (by omega),
    Nat.add_sub_cancel_left]

theorem store_eq {buf : List β} {i : Nat} (h : i < buf.length) (b : β) :
    store buf i b = some (buf.set i b) := by
  unfold store
  rw [if_pos ⟨by omega, by omega⟩, Int.toNat_natCast]

theorem store_outside {buf : List β} {i : Nat} (h : buf.length ≤ i) (b : β) :
    store buf i b = none := by
  unfold store
  exact if_neg (by omega)

theorem take_set_succ {buf : List β} {i : Nat} (h : i < buf.length) (b : β) :
    (buf.set i b).take (i + 1) = buf.take i ++ [b] := by
  rw [take_add_one, take_set_of_le (Nat.le_refl _), getElem?_set_self h]
  rfl

/-- With room for them, the elements land behind what is there. -/
theorem emit_eq {β : Type} (bs : List β) {cur : Nat} {buf : List β}
    (hroom : cur + bs.length ≤ buf.length) (hmax : buf.length < 2147483648) :
    ∃ buf', emit bs cur buf = some (((cur + bs.length : Nat) : Int), buf') ∧
      buf'.length = buf.length ∧ buf'.take (cur + bs.length) = buf.take cur ++ bs := by
  induction bs generalizing cur buf with
  | nil => exact ⟨buf, rfl, rfl, (append_nil _).symm⟩
  | cons b bs ih =>
    rw [length_cons] at hroom
    have hcur : cur < buf.length := by omega
    have hnext : addInt32 (cur : Int) 1 = ((cur + 1 : Nat) : Int) := by
      rw [addInt32_eq (by omega) (by omega)]
      rfl
    obtain ⟨buf', he, hlen, htake⟩ := @ih (cur + 1) (buf.set cur b)
      (by rw [length_set]; omega) (by rw [length_set]; exact hmax)
    rw [length_set] at hlen
    rw [take_set_succ hcur, append_assoc, singleton_append] at htake
    rw [length_cons, Nat.add_comm bs.length, ← Nat.add_assoc]
    refine ⟨buf', ?_, hlen, htake⟩
    rw [emit, store_eq hcur, bind_some, hnext, he]

/-- Without it, a store leaves the buffer. -/
theorem emit_outside (bs : List β) {cur : Nat} {buf : List β}
    (hcur : cur ≤ buf.length) (hroom : buf.length < cur + bs.length)
    (hmax : buf.length < 2147483648) : emit bs cur buf = none := by
  induction bs generalizing cur buf with
  | nil => exact absurd hroom (by rw [length_nil]; omega)
  | cons b bs ih =>
    rw [length_cons] at hroom
    rw [emit]
    by_cases hlt : cur < buf.length
    · have hnext : addInt32 (cur : Int) 1 = ((cur + 1 : Nat) : Int) := by
        rw [addInt32_eq (by omega) (by omega)]
        rfl
      rw [store_eq hlt, bind_some, hnext]
      exact ih (by rw [length_set]; omega) (by rw [length_set]; omega)
        (by rw [length_set]; exact hmax)
    · rw [store_outside (by omega)]
      rfl

theorem terminate_eq {buf : List β} {cur : Nat} (h : cur < buf.length) (zero : β)
    (ret : Int) : terminate zero ret cur buf = some (ret, buf.set cur zero) := by
  rw [terminate, store_eq h]
  rfl

/-! ## 7. The encoder's run -/

/-- Characters that fit are encoded one behind the other, and the loop goes on behind them. -/
theorem unicodeToUTF8Loop_append (szPre szPost : List UInt16) (hns : NoSurrogates szPre)
    {n cur : Nat} {buf : List UInt8} (hlen : buf.length = n) (hmax : n < 2147483648)
    (hroom : cur + (utf8 szPre).length < n) :
    ∃ buf', unicodeToUTF8Loop n (szPre ++ szPost) cur buf =
        unicodeToUTF8Loop n szPost ((cur + (utf8 szPre).length : Nat) : Int) buf' ∧
      buf'.length = n ∧ buf'.take (cur + (utf8 szPre).length) = buf.take cur ++ utf8 szPre := by
  induction szPre generalizing cur buf with
  | nil => exact ⟨buf, rfl, hlen, (append_nil _).symm⟩
  | cons ch szPre ih =>
    rw [utf8_cons, length_append] at hroom
    obtain ⟨buf₁, he₁, hlen₁, htake₁⟩ := @emit_eq _ (utf8Char ch) cur buf (by omega) (by omega)
    obtain ⟨buf₂, he₂, hlen₂, htake₂⟩ := @ih (fun c hc => hns c (mem_cons_of_mem _ hc))
      (cur + (utf8Char ch).length) buf₁ (by omega) (by omega)
    rw [htake₁, append_assoc] at htake₂
    rw [utf8_cons, length_append, ← Nat.add_assoc]
    refine ⟨buf₂, ?_, hlen₂, htake₂⟩
    rw [cons_append, unicodeToUTF8Loop, representation_eq (hns ch mem_cons_self),
      addInt32_eq (by omega) (by omega), if_pos (by omega), he₁, bind_some, he₂]

variable {n : Nat} {strDest : List UInt8}

/-- A string that fits is stored whole, its terminator behind it. -/
theorem unicodeToUTF8_fits {szSrc : List UInt16} (hns : NoSurrogates szSrc)
    (hlen : strDest.length = n) (hmax : n < 2147483648)
    (hfits : (utf8 szSrc).length < n) :
    ∃ out, unicodeToUTF8 szSrc strDest n = some (((utf8 szSrc).length : Int), out) ∧
      out.take (utf8 szSrc).length = utf8 szSrc ∧ out[(utf8 szSrc).length]? = some 0 := by
  obtain ⟨buf, he, hlen', htake⟩ :=
    @unicodeToUTF8Loop_append szSrc [] hns n 0 strDest hlen hmax (by omega)
  rw [append_nil, Nat.zero_add] at he
  rw [Nat.zero_add, take_zero, nil_append] at htake
  refine ⟨buf.set (utf8 szSrc).length 0, ?_, ?_, getElem?_set_self (by omega)⟩
  · unfold unicodeToUTF8
    rw [if_neg (by omega)]
    exact he.trans (terminate_eq (by omega) 0 _)
  · rw [take_set_of_le (Nat.le_refl _), htake]

/-- A string that does not fit has a first character that does not. -/
theorem exists_first_unfit (szSrc : List UInt16) (h0 : 0 < n)
    (hunfit : n ≤ (utf8 szSrc).length) :
    ∃ szPre ch szPost, szSrc = szPre ++ ch :: szPost ∧ (utf8 szPre).length < n ∧
      n ≤ (utf8 (szPre ++ [ch])).length := by
  induction szSrc generalizing n with
  | nil => exact absurd hunfit (by rw [utf8_nil, length_nil]; omega)
  | cons ch szSrc ih =>
    rw [utf8_cons, length_append] at hunfit
    by_cases hch : n ≤ (utf8Char ch).length
    · refine ⟨[], ch, szSrc, rfl, h0, ?_⟩
      rw [nil_append, utf8_cons, utf8_nil, append_nil]
      exact hch
    · obtain ⟨szPre, ch', szPost, he, hlt, hle⟩ :=
        @ih (n - (utf8Char ch).length) (by omega) (by omega)
      rw [he]
      refine ⟨ch :: szPre, ch', szPost, rfl, ?_, ?_⟩
      · rw [utf8_cons, length_append]
        omega
      · rw [cons_append, utf8_cons, length_append]
        omega

/-- The first character that does not fit ends the run: its space check is exact as long as it does
    not pass the largest `int32`. -/
theorem unicodeToUTF8_unfit {szPre szPost : List UInt16}
    (hns : NoSurrogates (szPre ++ ch :: szPost))
    (hlen : strDest.length = n) (hmax : n < 2147483648) (hpre : (utf8 szPre).length < n)
    (hunfit : n ≤ (utf8 (szPre ++ [ch])).length) :
    ((utf8 (szPre ++ [ch])).length < 2147483648 →
      ∃ out, unicodeToUTF8 (szPre ++ ch :: szPost) strDest n = some (0, out) ∧
        out.take (utf8 szPre).length = utf8 szPre ∧ out[(utf8 szPre).length]? = some 0) ∧
    (2147483648 ≤ (utf8 (szPre ++ [ch])).length →
      unicodeToUTF8 (szPre ++ ch :: szPost) strDest n = none) := by
  have hch := utf8Char_length ch
  obtain ⟨buf, he, hlen', htake⟩ := @unicodeToUTF8Loop_append szPre (ch :: szPost)
    (fun c hc => hns c (mem_append_left _ hc)) n 0 strDest hlen hmax (by omega)
  rw [Nat.zero_add] at he
  rw [Nat.zero_add, take_zero, nil_append] at htake
  rw [utf8_append, utf8_cons, utf8_nil, append_nil, length_append] at hunfit ⊢
  have hcall : unicodeToUTF8 (szPre ++ ch :: szPost) strDest n =
      unicodeToUTF8Loop n (ch :: szPost) ((utf8 szPre).length : Int) buf := by
    unfold unicodeToUTF8
    rw [if_neg (by omega)]
    exact he
  have hrep := representation_eq (hns ch (mem_append_right _ mem_cons_self))
  constructor
  · intro hsmall
    refine ⟨buf.set (utf8 szPre).length 0, ?_, ?_, getElem?_set_self (by omega)⟩
    · rw [hcall, unicodeToUTF8Loop, hrep, addInt32_eq (by omega) (by omega), if_neg (by omega),
        terminate_eq (by omega)]
    · rw [take_set_of_le (Nat.le_refl _), htake]
  · intro hbig
    rw [hcall, unicodeToUTF8Loop, hrep, addInt32_overflow (by omega) (by omega),
      if_pos (by omega)]
    dsimp only
    rw [emit_outside _ (by omega) (by omega) (by omega)]
    rfl

/-! ## 8. The decoder's run -/

theorem le_ofNat {m : Nat} (hm : m < 256) (k : UInt8) : k ≤ UInt8.ofNat m ↔ k.toNat ≤ m := by
  rw [UInt8.le_iff_toNat_le, UInt8.toNat_ofNat', Nat.mod_eq_of_lt hm]

/-- One turn takes one character off what the encoder stored. -/
theorem decodeOne_eq (pre : List UInt8) (ch : UInt16) (post : List UInt8) {nSrcLen n cur : Nat}
    (hsrc : nSrcLen = (pre ++ (utf8Char ch ++ post)).length) (hmax : nSrcLen < 2147483648)
    (hn : n < 2147483648) (hcur : cur + 1 < n) :
    decodeOne (pre ++ (utf8Char ch ++ post)) nSrcLen n pre.length cur =
      some (some (ch, ((utf8Char ch).length : Int))) := by
  have hlt := ch.toNat_lt
  have hroom : addInt32 (cur : Int) 1 < n := by
    rw [addInt32_eq (by omega) (by omega)]
    omega
  have hnext : ∀ k : Nat, pre.length + k < nSrcLen →
      addInt32 (pre.length : Int) k = ((pre.length + k : Nat) : Int) := fun k hk => by
    rw [addInt32_eq (by omega) (by omega)]
    rfl
  have hload := load_append pre (utf8Char ch ++ post)
  rw [length_append, length_append] at hsrc
  generalize pre ++ (utf8Char ch ++ post) = src at hload ⊢
  unfold decodeOne
  obtain ⟨h1, he⟩ | ⟨h1, h2, he⟩ | ⟨h1, he⟩ := utf8Char_cases ch
  · rw [he] at hsrc hload ⊢
    have hb0 : load src pre.length = some (UInt8.ofNat ch.toNat) := hload 0
    have hch : (UInt8.ofNat ch.toNat).toUInt16 = ch := by
      apply UInt16.toNat_inj.mp
      rw [UInt8.toNat_toUInt16, UInt8.toNat_ofNat']
      omega
    have h3 : ¬ 0xe0 ≤ UInt8.ofNat ch.toNat := by
      rw [le_ofNat (by omega)]
      show ¬ 224 ≤ ch.toNat
      omega
    have h2 : ¬ 0xc0 ≤ UInt8.ofNat ch.toNat := by
      rw [le_ofNat (by omega)]
      show ¬ 192 ≤ ch.toNat
      omega
    rw [length_singleton] at hsrc
    rw [hb0, bind_some, if_neg h3, if_neg h2, if_pos ⟨by omega, hroom⟩, hch]
    rfl
  · rw [he] at hsrc hload ⊢
    have hb0 : load src pre.length = some (UInt8.ofNat (192 + ch.toNat / 64)) := hload 0
    have hb1 : load src ((pre.length + 1 : Nat) : Int) =
      some (UInt8.ofNat (128 + ch.toNat % 64)) := hload 1
    have h3 : ¬ 0xe0 ≤ UInt8.ofNat (192 + ch.toNat / 64) := by
      rw [le_ofNat (by omega)]
      show ¬ 224 ≤ 192 + ch.toNat / 64
      omega
    have h2 : 0xc0 ≤ UInt8.ofNat (192 + ch.toNat / 64) := by
      rw [le_ofNat (by omega)]
      show 192 ≤ 192 + ch.toNat / 64
      omega
    rw [length_cons, length_singleton] at hsrc
    have hnext1 := hnext 1 (by omega)
    rw [Nat.cast_one] at hnext1
    rw [hb0, bind_some, if_neg h3, if_pos h2, hnext1, if_pos ⟨by omega, hroom⟩, hb1,
      map_some, twoBytes_eq (by omega)]
    rfl
  · rw [he] at hsrc hload ⊢
    have hb0 : load src pre.length = some (UInt8.ofNat (224 + ch.toNat / 4096)) := hload 0
    have hb1 : load src ((pre.length + 1 : Nat) : Int) =
      some (UInt8.ofNat (128 + ch.toNat / 64 % 64)) := hload 1
    have hb2 : load src ((pre.length + 2 : Nat) : Int) =
      some (UInt8.ofNat (128 + ch.toNat % 64)) := hload 2
    have h3 : 0xe0 ≤ UInt8.ofNat (224 + ch.toNat / 4096) := by
      rw [le_ofNat (by omega)]
      show 224 ≤ 224 + ch.toNat / 4096
      omega
    rw [length_cons, length_cons, length_singleton] at hsrc
    have hnext1 := hnext 1 (by omega)
    have hnext2 := hnext 2 (by omega)
    rw [Nat.cast_one] at hnext1
    rw [Nat.cast_ofNat] at hnext2
    rw [hb0, bind_some, if_pos h3, hnext1, hnext2, if_pos ⟨by omega, hroom⟩, hb1,
      bind_some, hb2, map_some, threeBytes_eq]
    rfl

/-- The characters behind a position are decoded one after the other. -/
theorem utf8ToUnicodeLoop_eq (szPost : List UInt16) {pre : List UInt8} {nSrcLen n fuel cur : Nat}
    {buf : List UInt16} (hsrc : nSrcLen = (pre ++ utf8 szPost).length)
    (hmax : nSrcLen < 2147483648) (hlen : buf.length = n) (hn : n < 2147483648)
    (hroom : cur + szPost.length < n) (hfuel : szPost.length < fuel) :
    ∃ out, utf8ToUnicodeLoop (pre ++ utf8 szPost) nSrcLen n fuel pre.length cur buf =
        some (((cur + szPost.length : Nat) : Int), out) ∧
      out.take (cur + szPost.length) = buf.take cur ++ szPost ∧
      out[cur + szPost.length]? = some 0 := by
  induction szPost generalizing pre fuel cur buf with
  | nil =>
    obtain ⟨fuel, rfl⟩ : ∃ k, fuel = k + 1 := ⟨fuel - 1, by omega⟩
    rw [utf8_nil, append_nil] at hsrc ⊢
    rw [length_nil] at hroom ⊢
    refine ⟨buf.set cur 0, ?_, ?_, getElem?_set_self (by omega)⟩
    · rw [utf8ToUnicodeLoop, if_neg (by omega), terminate_eq (by omega)]
      rfl
    · rw [Nat.add_zero, take_set_of_le (Nat.le_refl _), append_nil]
  | cons ch szPost ih =>
    obtain ⟨fuel, rfl⟩ : ∃ k, fuel = k + 1 := ⟨fuel - 1, by omega⟩
    rw [length_cons] at hroom hfuel ⊢
    rw [utf8_cons] at hsrc ⊢
    have hch := utf8Char_length ch
    have hone := @decodeOne_eq pre ch (utf8 szPost) nSrcLen n cur hsrc hmax hn (by omega)
    have hnext : addInt32 (cur : Int) 1 = ((cur + 1 : Nat) : Int) := by
      rw [addInt32_eq (by omega) (by omega)]
      rfl
    have hcur : cur < buf.length := by omega
    rw [← append_assoc] at hsrc
    obtain ⟨out, he, htake, hzero⟩ := @ih (pre ++ utf8Char ch) fuel (cur + 1) (buf.set cur ch) hsrc
      (by rw [length_set]; exact hlen) (by omega) (by omega)
    rw [append_assoc, length_append, Nat.cast_add] at he
    rw [take_set_succ hcur, append_assoc, singleton_append] at htake
    rw [length_append, length_append] at hsrc
    rw [show cur + (szPost.length + 1) = cur + 1 + szPost.length by omega]
    refine ⟨out, ?_, htake, hzero⟩
    rw [utf8ToUnicodeLoop, if_pos (by omega), hone]
    dsimp only [bind_some]
    rw [store_eq hcur, bind_some, hnext, addInt32_eq (by omega) (by omega), he]

/-- What the encoder stored comes back as the string it was made from. -/
theorem utf8ToUnicode_utf8 {szSrc : List UInt16} (hmax : (utf8 szSrc).length < 2147483648)
    {strDest : List UInt16} (hlen : strDest.length = n) (hn : n < 2147483648)
    (hroom : szSrc.length < n) :
    ∃ out, utf8ToUnicode (utf8 szSrc) strDest n = some ((szSrc.length : Int), out) ∧
      out.take szSrc.length = szSrc ∧ out[szSrc.length]? = some 0 := by
  have hle : szSrc.length ≤ (utf8 szSrc).length := by
    clear hmax hroom
    induction szSrc with
    | nil => exact Nat.le_refl _
    | cons ch szSrc ih =>
      have hch := utf8Char_length ch
      rw [utf8_cons, length_append, length_cons]
      omega
  obtain ⟨out, he, htake, hzero⟩ := @utf8ToUnicodeLoop_eq szSrc [] (utf8 szSrc).length n
    ((utf8 szSrc).length + 1) 0 strDest rfl hmax hlen hn (by omega) (by omega)
  rw [Nat.zero_add] at he htake hzero
  refine ⟨out, ?_, htake, hzero⟩
  unfold utf8ToUnicode
  rw [if_neg (by omega)]
  exact he

/-! ## 9. When the encoder does what it is for -/

/-- What a call of `oscl_UnicodeToUTF8` should give: the encoded length where it fits and 0
    elsewhere, a terminator inside the buffer behind a part of the encoding (all of it on success),
    and bytes that decode to the string again. -/
structure Encodes (szSrc : List UInt16) (nDestLen ret : Int) (out : List UInt8) : Prop where
  success : Fits szSrc nDestLen → ret = (utf8 szSrc).length
  failure : ¬ Fits szSrc nDestLen → ret = 0
  terminated : 0 < nDestLen → ∃ t : Nat, (t : Int) < nDestLen ∧ out[t]? = some 0 ∧
    out.take t <+: utf8 szSrc ∧ (Fits szSrc nDestLen → (t : Int) = ret)
  restored : Fits szSrc nDestLen → ∀ (wDest : List UInt16) (nWide : Int),
    wDest.length = nWide.toNat → nWide < 2147483648 → szSrc.length + 1 ≤ nWide →
    ∃ wide, utf8ToUnicode (out.take ret.toNat) wDest nWide = some ((szSrc.length : Int), wide) ∧
      wide.take szSrc.length = szSrc ∧ wide[szSrc.length]? = some 0

/-- No character that starts inside the buffer ends, in UTF-8, at byte 2^31 or behind it. -/
def NoOverflow (szSrc : List UInt16) (nDestLen : Int) : Prop :=
  ∀ szPre ch szPost, szSrc = szPre ++ ch :: szPost → (utf8 szPre).length < nDestLen →
    (utf8 (szPre ++ [ch])).length < 2147483648

/-- Past the largest `int32` the space check lets the character through, and a store leaves the
    buffer. -/
theorem unicodeToUTF8_overflow {szPre szPost : List UInt16}
    (hns : NoSurrogates (szPre ++ ch :: szPost)) {nDestLen : Int}
    (hlen : strDest.length = nDestLen.toNat) (hmax : nDestLen < 2147483648)
    (hpre : (utf8 szPre).length < nDestLen)
    (hbig : 2147483648 ≤ (utf8 (szPre ++ [ch])).length) :
    unicodeToUTF8 (szPre ++ ch :: szPost) strDest nDestLen = none := by
  obtain ⟨n, rfl⟩ : ∃ n : Nat, nDestLen = n := ⟨nDestLen.toNat, by omega⟩
  exact (unicodeToUTF8_unfit hns hlen (by omega) (by omega) (by omega)).2 hbig

/-- **The encoder is right exactly where its space check does not overflow**: for every string
    without surrogates and every buffer. -/
theorem encodes_iff_noOverflow {szSrc : List UInt16} (hns : NoSurrogates szSrc)
    {strDest : List UInt8} {nDestLen : Int} (hlen : strDest.length = nDestLen.toNat)
    (hmax : nDestLen < 2147483648) :
    (∃ ret out, unicodeToUTF8 szSrc strDest nDestLen = some (ret, out) ∧
      Encodes szSrc nDestLen ret out) ↔ NoOverflow szSrc nDestLen := by
  constructor
  · intro ⟨ret, out, hcall, _⟩ szPre ch szPost he hpre
    by_contra hbig
    rw [he] at hcall hns
    rw [unicodeToUTF8_overflow hns hlen hmax hpre (by omega)] at hcall
    cases hcall
  · intro hno
    by_cases h0 : nDestLen ≤ 0
    · have hnot : ¬ Fits szSrc nDestLen := by
        unfold Fits
        omega
      refine ⟨0, strDest, if_pos h0, ?_⟩
      exact ⟨fun h => absurd h hnot, fun _ => rfl, fun h => by omega, fun h => absurd h hnot⟩
    · obtain ⟨n, rfl⟩ : ∃ n : Nat, nDestLen = n := ⟨nDestLen.toNat, by omega⟩
      by_cases hfits : Fits szSrc n
      · have hlt : (utf8 szSrc).length < n := by
          unfold Fits at hfits
          omega
        obtain ⟨out, hcall, htake, hzero⟩ := unicodeToUTF8_fits hns hlen (by omega) hlt
        refine ⟨_, out, hcall, fun _ => rfl, fun h => absurd hfits h, fun _ => ?_, fun _ => ?_⟩
        · refine ⟨_, by omega, hzero, ?_, fun _ => rfl⟩
          rw [htake]
        · intro wDest nWide hwlen hwmax hwroom
          obtain ⟨w, rfl⟩ : ∃ w : Nat, nWide = w := ⟨nWide.toNat, by omega⟩
          rw [Int.toNat_natCast, htake]
          exact utf8ToUnicode_utf8 (by omega) hwlen (by omega) (by omega)
      · have hunfit : n ≤ (utf8 szSrc).length := by
          unfold Fits at hfits
          omega
        obtain ⟨szPre, ch, szPost, rfl, hpre, hend⟩ :=
          exists_first_unfit szSrc (by omega) hunfit
        obtain ⟨out, hcall, htake, hzero⟩ := (unicodeToUTF8_unfit hns hlen (by omega) hpre hend).1
          (hno szPre ch szPost rfl (by omega))
        refine ⟨0, out, hcall, fun h => absurd h hfits, fun _ => rfl, fun _ => ?_,
          fun h => absurd h hfits⟩
        refine ⟨_, by omega, hzero, ?_, fun h => absurd h hfits⟩
        rw [htake, utf8_append]
        exact prefix_append _ _

/-- One character of each length, in a buffer one byte larger than the encoding. -/
theorem encodes_iff_noOverflow_small :
    ∃ ret out, unicodeToUTF8 [0x41, 0x7ff, 0x4e2d] (List.replicate 7 9) 7 = some (ret, out) ∧
      Encodes [0x41, 0x7ff, 0x4e2d] 7 ret out := by
  have hns : NoSurrogates [0x41, 0x7ff, 0x4e2d] := by
    intro ch hch
    simp only [mem_cons, not_mem_nil, or_false] at hch
    obtain rfl | rfl | rfl := hch <;> decide
  refine (encodes_iff_noOverflow hns (by decide) (by decide)).mpr ?_
  intro szPre ch szPost he hpre
  have hch := utf8Char_length ch
  rw [utf8_append, utf8_cons, utf8_nil, append_nil, length_append]
  omega

theorem utf8_replicate_length (m : Nat) (ch : UInt16) :
    (utf8 (replicate m ch)).length = m * (utf8Char ch).length := by
  induction m with
  | zero => rw [Nat.zero_mul]; rfl
  | succ m ih =>
    rw [replicate_succ, utf8_cons, length_append, ih, Nat.succ_mul, Nat.add_comm]

/-- A text of `m + 1` three byte characters into a buffer that the last one leaves. -/
theorem unicodeToUTF8_replicate {m : Nat} (hns : ch < 0xd800 ∨ 0xdfff < ch)
    (hthree : (utf8Char ch).length = 3) {nDestLen : Int} (hmax : nDestLen < 2147483648)
    (hpre : ((m * 3 : Nat) : Int) < nDestLen) (hbig : 2147483648 ≤ (m + 1) * 3) :
    unicodeToUTF8 (replicate (m + 1) ch) (replicate nDestLen.toNat 0) nDestLen =
      none := by
  have hall : NoSurrogates (replicate m ch ++ ch :: []) := by
    intro c hc
    rw [← replicate_succ'] at hc
    exact eq_of_mem_replicate hc ▸ hns
  rw [replicate_succ']
  refine unicodeToUTF8_overflow hall length_replicate hmax ?_ ?_
  · rw [utf8_replicate_length, hthree]
    exact hpre
  · rw [← replicate_succ', utf8_replicate_length, hthree]
    exact hbig

/-- A third of 2^31 characters of three bytes and the largest buffer: the last check overflows and
    the run leaves the buffer, where it should return 0. -/
theorem largest_buffer_overrun :
    unicodeToUTF8 (List.replicate (715827882 + 1) 0x4e2d)
        (List.replicate (Int.toNat 2147483647) 0) 2147483647 = none ∧
      ¬ ∃ ret out, unicodeToUTF8 (List.replicate (715827882 + 1) 0x4e2d)
          (List.replicate (Int.toNat 2147483647) 0) 2147483647 = some (ret, out) ∧
        Encodes (List.replicate (715827882 + 1) 0x4e2d) 2147483647 ret out := by
  have hnone : unicodeToUTF8 (List.replicate (715827882 + 1) 0x4e2d)
      (List.replicate (Int.toNat 2147483647) 0) 2147483647 = none :=
    unicodeToUTF8_replicate (Or.inl (by decide)) (by decide) (by decide) (by decide) (by decide)
  refine ⟨hnone, ?_⟩
  intro ⟨ret, out, hcall, _⟩
  rw [hnone] at hcall
  cases hcall

end OpenCore.OsclUtil
