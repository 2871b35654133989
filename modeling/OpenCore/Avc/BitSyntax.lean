/-
  File:      OpenCore/Avc/BitSyntax.lean
  Subject:   THE ELEMENTS OF THE SYNTAX: fixed-width values and Exp-Golomb codes, as the encoder
             writes them and as the decoder reads them.

  What the encoder writes is a list of calls of the bit writer (`callsBits` are their bits); the
  decoder reads from the cached reader (`Sees` is what is left to be read). Each element comes back
  (`gives_ue`, `gives_se`, `gives_se32`).
-/
import OpenCore.Lib.Reading
import OpenCore.Avc.Bitstream

namespace OpenCore.Avc

open MsbBits List
open Nat (log2)

/-! ## 1. The encoder -/

namespace Enc

/-- The loop of `SetEGBitstring`: one more than the leading zeros. -/
def egLoop (codeNum : Nat) : Nat → Nat → Nat
  | 0, leadingZeros => leadingZeros
  | fuel + 1, leadingZeros =>
    if (1 <<< leadingZeros) % 2 ^ 32 < (codeNum + 2) % 2 ^ 32 then
      egLoop codeNum fuel (leadingZeros + 1)
    else leadingZeros

def SetEGBitstring (codeNum : Nat) : List WriteCall :=
  if codeNum = 0 then [.bit 1]
  else
    let leadingZeros := egLoop codeNum 31 1 - 1
    let infobits := codeNum + 1 - (1 <<< leadingZeros)
    [.bits leadingZeros 0, .bits (leadingZeros + 1) (infobits ||| (1 <<< leadingZeros))]

/-- `BitstreamWriteBits`. -/
def writeBits (nBits code : Nat) : List WriteCall := [.bits nBits code]

/-- `BitstreamWrite1Bit`. -/
def write1Bit (code : Nat) : List WriteCall := [.bit code]

def ue_v (codeNum : Nat) : List WriteCall := SetEGBitstring codeNum

/-- The code of a signed value. -/
def codeOf (value : Int) : Nat := if value ≤ 0 then (-value * 2).toNat else (value * 2 - 1).toNat

def se_v (value : Int) : List WriteCall := ue_v (codeOf value)

end Enc

/-- The bits of calls without trailing bits. -/
def callsBits (calls : List WriteCall) : List Bool := calls.flatMap (callBits [])

@[simp] theorem callsBits_nil : callsBits [] = [] := rfl

@[simp] theorem callsBits_append (l m : List WriteCall) :
    callsBits (l ++ m) = callsBits l ++ callsBits m := flatMap_append

@[simp] theorem callsBits_bits (n code : Nat) : callsBits [.bits n code] = ofNum n code := by
  simp [callsBits, callBits]

@[simp] theorem callsBits_bit (code : Nat) : callsBits [.bit code] = ofNum 1 code := by
  simp [callsBits, callBits]

/-- The bits that are written behind others. -/
theorem allBits_eq (l : List Bool) (calls : List WriteCall)
    (h : ∀ c ∈ calls, c ≠ .trailing) : allBits l calls = l ++ callsBits calls := by
  induction calls generalizing l with
  | nil => simp [allBits]
  | cons c calls ih =>
    have hc : callBits l c = callBits [] c := by
      cases c with
      | bits => rfl
      | bit => rfl
      | trailing => exact absurd rfl (h .trailing mem_cons_self)
    rw [allBits, ih _ fun c hc => h c (mem_cons_of_mem _ hc), hc, append_assoc]
    rfl

/-! ## 2. The decoder -/

/-- Why the decoder stops before the end: a status, a loop that never ends, or a write behind the end
    of an array. -/
inductive Stop where
  | AVCDEC_FAIL
  | AVCDEC_NOT_SUPPORTED
  | AVCDEC_MEMORY_FAIL
  | endless
  | overrun
  deriving DecidableEq, Repr

/-- A function of the decoder. -/
abbrev DecM := ReadM Stop AVCDecBitstream

namespace Dec

/-- `BitstreamReadBits`. -/
def readBits (nBits : Nat) : DecM Nat := .step (·.BitstreamReadBits nBits)

/-- `BitstreamRead1Bit`. -/
def read1Bit : DecM Nat := .step (·.BitstreamRead1Bit)

def ue_v : DecM Nat := .step (·.ue_v)

def se_v : DecM Int := .step (·.se_v)

/-- The loop of `GetEGBitstring32bit`. -/
def egZeros : Nat → Nat → DecM Nat
  | 0, _ => throw .endless
  | fuel + 1, leadingZeros => do
      let bit_value ← read1Bit
      if bit_value ≠ 0 then return leadingZeros else egZeros fuel (leadingZeros + 1)

/-- The bits of the whole RBSP: behind them the reader gives zeros for ever. -/
def allBitsCount : DecM Nat := .step fun s => (s, 8 * s.data_end_pos)

/-- The information bits behind the zeros. -/
def egInfo (leadingZeros : Nat) : DecM (Nat × Nat) :=
  if leadingZeros > 0 then do return (leadingZeros, ← readBits leadingZeros)
  else return (leadingZeros, 0)

/-- `GetEGBitstring32bit`: the leading zeros and the information bits. -/
def GetEGBitstring32bit : DecM (Nat × Nat) := do
  let n ← allBitsCount
  let leadingZeros ← egZeros (n + 1) 0
  egInfo leadingZeros

/-- The value that `se_v32bit` makes of them. -/
def signedOf (w : Nat × Nat) : Int :=
  let codeNum := (2 ^ w.1 - 1 + w.2) % 2 ^ 32
  let value : Int := ((codeNum + 1) % 2 ^ 32 / 2 : Nat)
  if codeNum % 2 = 0 then -value else value

def se_v32bit : DecM Int := do return signedOf (← GetEGBitstring32bit)

/-- A check of the decoder. -/
def failIf (p : Prop) [Decidable p] (x : Stop) : DecM Unit := if p then throw x else pure ()

end Dec

/-- The bits of the RBSP that are left to be read, behind those that were read. -/
def Sees (r : List UInt8) (s : AVCDecBitstream) (l : List Bool) : Prop :=
  ∃ done n m, Reads r s done.length n m ∧ bits r = done ++ l

variable {r : List UInt8}

variable {l : List Bool}

/-- What is seen is behind the position. -/
theorem drop_done {done : List Bool} (hd : bits r = done ++ l) :
    (bits r).drop done.length = l ∧ done.length + l.length = 8 * r.length := by
  have hlen := congrArg length hd
  rw [bits_length, length_append] at hlen
  exact ⟨by rw [hd, drop_left], hlen.symm⟩

theorem Sees.opened (hl : bits r = l) : Sees r (.opened r r.length) l := by
  have h := Reads.opened r []
  rw [append_nil] at h
  exact ⟨[], 0, 0, h, hl⟩

variable {s : AVCDecBitstream}

/-- The position counts the bits read. -/
theorem Sees.bitcnt (h : Sees r s l) :
    s.bitcnt + l.length = 8 * r.length := by
  obtain ⟨done, n, m, h, hd⟩ := h
  rw [h.count]
  exact_mod_cast (drop_done hd).2

theorem gives_readBits {n v : Nat} (h1 : 1 ≤ n) (h31 : n ≤ 31) (hv : v < 2 ^ n) :
    Gives (Sees r) (Dec.readBits n) (ofNum n v) v := by
  refine .step fun s rest hs => ?_
  obtain ⟨done, a, b, h, hd⟩ := hs
  obtain ⟨hdrop, hlen⟩ := drop_done hd
  rw [length_append, ofNum_length] at hlen
  obtain ⟨⟨a', b', h'⟩, hval⟩ := h.readBits (k := n) (by omega) (by omega)
  have htake : ((bits r).drop done.length).take n = ofNum n v := by
    rw [hdrop, take_left' (ofNum_length n v)]
  rw [htake, num_ofNum_of_lt hv] at hval
  refine ⟨hval, done ++ ofNum n v, a', b', ?_, by rw [hd, append_assoc]⟩
  rw [length_append, ofNum_length]
  exact h'

theorem gives_read1Bit {v : Nat} (hv : v < 2) : Gives (Sees r) Dec.read1Bit (ofNum 1 v) v :=
  gives_readBits (Nat.le_refl 1) (by decide) (by rw [pow_one]; exact hv)

/-! ## 3. Exp-Golomb codes -/

/-- The code word of a number. -/
def egBits (codeNum : Nat) : List Bool :=
  List.replicate (log2 (codeNum + 1)) false ++
    ofNum (log2 (codeNum + 1) + 1) (codeNum + 1)

/-- The leading zeros: the number with the leading 1 has one digit more. -/
theorem log2_bounds (codeNum : Nat) :
    2 ^ log2 (codeNum + 1) ≤ codeNum + 1 ∧ codeNum + 1 < 2 ^ (log2 (codeNum + 1) + 1) :=
  ⟨Nat.log2_self_le (by omega), Nat.lt_log2_self⟩

/-- A code word is zeros, a 1 and as many bits. -/
theorem egBits_eq (codeNum : Nat) :
    egBits codeNum = replicate (log2 (codeNum + 1)) false ++
      true :: ofNum (log2 (codeNum + 1)) (codeNum + 1 - 2 ^ log2 (codeNum + 1)) := by
  obtain ⟨h1, h2⟩ := log2_bounds codeNum
  rw [egBits]
  congr 1
  obtain ⟨z, hz⟩ : ∃ z, log2 (codeNum + 1) = z := ⟨_, rfl⟩
  rw [hz] at h1 h2 ⊢
  rw [pow_succ] at h2
  refine num_inj (by simp) ?_
  rw [num_ofNum_of_lt (by rw [pow_succ]; exact h2), num_cons, ofNum_length,
    num_ofNum_of_lt (by omega), Bool.toNat_true]
  omega

theorem expGolomb_egBits (codeNum : Nat) (rest : List Bool) :
    expGolomb (egBits codeNum ++ rest) = some ((egBits codeNum).length, codeNum) ∧
      zerosInFront (egBits codeNum ++ rest) = log2 (codeNum + 1) := by
  obtain ⟨h1, h2⟩ := log2_bounds codeNum
  have hlen : (egBits codeNum).length = 2 * log2 (codeNum + 1) + 1 := by
    rw [egBits, length_append, length_replicate, ofNum_length]
    ring
  obtain ⟨z, hz⟩ : ∃ z, log2 (codeNum + 1) = z := ⟨_, rfl⟩
  have he := egBits_eq codeNum
  rw [hz] at h1 h2 he hlen
  have happ : egBits codeNum ++ rest =
      replicate z false ++ true :: (ofNum z (codeNum + 1 - 2 ^ z) ++ rest) := by
    rw [he, append_assoc, cons_append]
  have hzf : zerosInFront (egBits codeNum ++ rest) = z := by
    rw [happ, zerosInFront_replicate]
  have hdrop : (egBits codeNum ++ rest).drop (z + 1) = ofNum z (codeNum + 1 - 2 ^ z) ++ rest := by
    rw [happ, drop_append, length_replicate, drop_replicate]
    have h1 : z + 1 - z = 1 := by omega
    have h0 : z - (z + 1) = 0 := by omega
    rw [h1, h0]
    rfl
  refine ⟨?_, by rw [hzf, hz]⟩
  rw [pow_succ] at h2
  unfold expGolomb
  simp only
  rw [hzf, if_pos (by rw [length_append, hlen]; omega), hdrop,
    take_append_of_le_length (by simp), take_of_length_le (by simp),
    num_ofNum_of_lt (by omega), hlen]
  congr 2
  omega

/-- The loop stops one above the leading zeros. -/
theorem egLoop_eq {codeNum : Nat} (hc : codeNum + 2 < 2 ^ 32) (fuel lz : Nat)
    (hlz : lz ≤ log2 (codeNum + 1) + 1) (hf : log2 (codeNum + 1) + 1 ≤ lz + fuel)
    (h31 : log2 (codeNum + 1) ≤ 30) :
    Enc.egLoop codeNum fuel lz = log2 (codeNum + 1) + 1 := by
  obtain ⟨h1, h2⟩ := log2_bounds codeNum
  obtain ⟨z, hz⟩ : ∃ z, log2 (codeNum + 1) = z := ⟨_, rfl⟩
  rw [hz] at h1 h2 hlz hf h31 ⊢
  induction fuel generalizing lz with
  | zero =>
    rw [Enc.egLoop]
    omega
  | succ fuel ih =>
    have hpow : 2 ^ lz < 2 ^ 32 := Nat.pow_lt_pow_right (by decide) (by omega)
    rw [Enc.egLoop, Nat.one_shiftLeft, Nat.mod_eq_of_lt hpow, Nat.mod_eq_of_lt hc]
    by_cases hle : lz ≤ z
    · have : 2 ^ lz ≤ 2 ^ z := Nat.pow_le_pow_right (by decide) hle
      rw [if_pos (by omega)]
      exact ih (lz + 1) (by omega) (by omega)
    · have hlz' : lz = z + 1 := by omega
      rw [hlz', if_neg (by omega)]

/-- What `SetEGBitstring` writes is the code word. -/
theorem callsBits_ue {codeNum : Nat} (h : codeNum + 1 < 2 ^ 31) :
    callsBits (Enc.ue_v codeNum) = egBits codeNum ∧
      ∀ c ∈ Enc.ue_v codeNum, c.Fits ∧ c ≠ .trailing := by
  obtain ⟨h1, h2⟩ := log2_bounds codeNum
  have h30 : log2 (codeNum + 1) ≤ 30 := by
    by_contra hc
    have : 2 ^ 31 ≤ 2 ^ log2 (codeNum + 1) := Nat.pow_le_pow_right (by decide) (by omega)
    omega
  unfold Enc.ue_v Enc.SetEGBitstring
  by_cases h0 : codeNum = 0
  · subst h0
    refine ⟨by decide, ?_⟩
    rw [if_pos rfl]
    intro c hc
    rw [mem_singleton.mp hc]
    exact ⟨(by decide : 1 < 2), by simp⟩
  · have hz1 : 1 ≤ log2 (codeNum + 1) := (Nat.le_log2 (by omega)).mpr (by omega)
    rw [if_neg h0]
    simp only
    rw [egLoop_eq (by omega) 31 1 (by omega) (by omega) h30, Nat.add_sub_cancel,
      Nat.one_shiftLeft]
    obtain ⟨z, hz⟩ : ∃ z, log2 (codeNum + 1) = z := ⟨_, rfl⟩
    have he : egBits codeNum = replicate z false ++ ofNum (z + 1) (codeNum + 1) := by
      rw [egBits, hz]
    rw [hz] at h1 h2 ⊢
    have hor : (codeNum + 1 - 2 ^ z) ||| 2 ^ z = codeNum + 1 := by
      rw [pow_succ] at h2
      have hadd := Nat.shiftLeft_add_eq_or_of_lt (show codeNum + 1 - 2 ^ z < 2 ^ z by omega) 1
      rw [Nat.one_shiftLeft] at hadd
      rw [Nat.or_comm, ← hadd]
      omega
    have hzero : ofNum z 0 = replicate z false := by
      refine num_inj (by simp) ?_
      rw [num_ofNum, num_replicate_false, Nat.zero_mod]
    rw [hor]
    refine ⟨?_, ?_⟩
    · rw [he, ← hzero]
      simp [callsBits, callBits]
    · intro c hc
      rcases mem_cons.mp hc with rfl | hc
      · refine ⟨?_, by simp⟩
        show 0 < 2 ^ z
        positivity
      · rw [mem_singleton.mp hc]
        exact ⟨h2, by simp⟩

/-! ## 4. What comes back -/

/-- A code with at most 15 zeros in front is taken. -/
theorem readCode_egBits {v : Nat} (hv : v < 65535) {rest : List Bool}
    (hs : Sees r s (egBits v ++ rest)) : s.readCode.2 = v + 1 ∧ Sees r s.readCode.1 rest := by
  obtain ⟨done, n, m, h, hd⟩ := hs
  obtain ⟨he, hz⟩ := expGolomb_egBits v rest
  rw [← (drop_done hd).1] at he hz
  obtain ⟨h1, -⟩ := log2_bounds v
  have h15 : log2 (v + 1) ≤ 15 := by
    by_contra hc
    have : 2 ^ 16 ≤ 2 ^ log2 (v + 1) := Nat.pow_le_pow_right (by decide) (by omega)
    omega
  obtain ⟨hval, -, n', m', h'⟩ := (h.code he).1 (by rw [hz]; exact h15)
  refine ⟨hval, done ++ egBits v, n', m', ?_, by rw [hd, append_assoc]⟩
  rw [length_append]
  exact h'

theorem gives_ue {v : Nat} (hv : v < 65535) : Gives (Sees r) Dec.ue_v (egBits v) v := by
  refine .step fun s rest hs => ?_
  obtain ⟨hval, hs'⟩ := readCode_egBits hv hs
  refine ⟨?_, hs'⟩
  show sub32 s.readCode.2 1 = v
  rw [hval, sub32_eq (by omega) (by omega), Nat.add_sub_cancel]

theorem signed_codeOf (v : Int) : signed (Enc.codeOf v) = v := by
  unfold signed Enc.codeOf
  split <;> split <;> omega

theorem gives_se {v : Int} (hv : Enc.codeOf v < 65535) :
    Gives (Sees r) Dec.se_v (egBits (Enc.codeOf v)) v := by
  refine .step fun s rest hs => ?_
  obtain ⟨hval, hs'⟩ := readCode_egBits hv hs
  refine ⟨?_, hs'⟩
  have e := signed_of_code s.readCode.2 (by omega)
  rw [hval, Nat.add_sub_cancel, ← hval, signed_codeOf] at e
  exact e

/-- The loop counts the zeros in front of the first 1. -/
theorem gives_egZeros (z k fuel : Nat) (hf : z < fuel) :
    Gives (Sees r) (Dec.egZeros fuel k) (replicate z false ++ [true]) (k + z) := by
  induction z generalizing k fuel with
  | zero =>
    obtain ⟨fuel, rfl⟩ : ∃ f, fuel = f + 1 := ⟨fuel - 1, by omega⟩
    have h1 : Gives (Sees r) Dec.read1Bit [true] 1 := gives_read1Bit (v := 1) (by decide)
    exact h1.bind (k := fun b => if b ≠ 0 then pure k else Dec.egZeros fuel (k + 1)) (.pure k)
  | succ z ih =>
    obtain ⟨fuel, rfl⟩ : ∃ f, fuel = f + 1 := ⟨fuel - 1, by omega⟩
    have h0 : Gives (Sees r) Dec.read1Bit [false] 0 := gives_read1Bit (v := 0) (by decide)
    have hsum : k + (z + 1) = k + 1 + z := by omega
    rw [hsum]
    exact h0.bind (k := fun b => if b ≠ 0 then pure k else Dec.egZeros fuel (k + 1))
      (ih (k + 1) fuel (by omega))

/-- What is left to be read is no longer than the RBSP. -/
theorem Sees.length_le (h : Sees r s l) :
    l.length ≤ 8 * s.data_end_pos := by
  obtain ⟨done, n, m, h, hd⟩ := h
  have := (drop_done hd).2
  rw [h.end_pos]
  omega

/-- A code word of up to 61 bits, read by its zeros and its information bits. -/
theorem gives_egBits32 {c : Nat} (hc : c + 1 < 2 ^ 31) :
    Gives (Sees r) Dec.GetEGBitstring32bit (egBits c)
      (log2 (c + 1), c + 1 - 2 ^ log2 (c + 1)) := by
  intro s rest hs
  obtain ⟨h1, h2⟩ := log2_bounds c
  have he := egBits_eq c
  obtain ⟨z, hz⟩ : ∃ z, log2 (c + 1) = z := ⟨_, rfl⟩
  rw [hz] at h1 h2 he ⊢
  have h30 : z ≤ 30 := by
    by_contra hgt
    have : 2 ^ 31 ≤ 2 ^ z := Nat.pow_le_pow_right (by decide) (by omega)
    omega
  have hlen := hs.length_le
  rw [he, length_append, length_append, length_replicate] at hlen
  have hsplit : egBits c = (replicate z false ++ [true]) ++ ofNum z (c + 1 - 2 ^ z) := by
    rw [he, append_assoc]
    rfl
  rw [hsplit] at hs
  have hzeros : Gives (Sees r) (Dec.egZeros (8 * s.data_end_pos + 1) 0)
      (replicate z false ++ [true]) z := by
    have := gives_egZeros (r := r) z 0 (8 * s.data_end_pos + 1) (by omega)
    rwa [Nat.zero_add] at this
  have hinfo : Gives (Sees r) (Dec.egInfo z) (ofNum z (c + 1 - 2 ^ z)) (z, c + 1 - 2 ^ z) := by
    rw [pow_succ] at h2
    by_cases h0 : z > 0
    · rw [show Dec.egInfo z = (do return (z, ← Dec.readBits z)) from if_pos h0]
      exact (gives_readBits h0 (by omega) (by omega)).bind_pure
    · obtain rfl : z = 0 := by omega
      have hc0 : c + 1 - 2 ^ 0 = 0 := by omega
      rw [hc0]
      exact .pure _
  exact (hzeros.bind hinfo) s rest hs

theorem signedOf_code {c : Nat} (hc : c + 1 < 2 ^ 31) :
    Dec.signedOf (log2 (c + 1), c + 1 - 2 ^ log2 (c + 1)) = signed c := by
  obtain ⟨h1, -⟩ := log2_bounds c
  have hpos : 1 ≤ 2 ^ log2 (c + 1) := Nat.one_le_two_pow
  have hsum : (2 ^ log2 (c + 1) - 1 + (c + 1 - 2 ^ log2 (c + 1))) % 2 ^ 32 = c := by
    omega
  unfold Dec.signedOf signed
  simp only [hsum]
  split <;> split <;> omega

/-- The signed elements of the sequence parameter set come back up to 30 bits. -/
theorem gives_se32 {v : Int} (hv : Enc.codeOf v + 1 < 2 ^ 31) :
    Gives (Sees r) Dec.se_v32bit (egBits (Enc.codeOf v)) v := by
  have h := (gives_egBits32 (r := r) hv).bind_pure (f := Dec.signedOf)
  rw [signedOf_code hv, signed_codeOf] at h
  exact h

/-! ## 5. Encoder and decoder side by side -/

/-- The decoder's `m` takes what the encoder's `calls` write, whatever follows, and gives `v`. -/
structure Carries {α : Type} (calls : List WriteCall) (m : DecM α) (v : α) : Prop where
  fits : ∀ c ∈ calls, c.Fits ∧ c ≠ .trailing
  gives : ∀ r, Gives (Sees r) m (callsBits calls) v

namespace Carries

variable {α β : Type} {calls c₁ c₂ : List WriteCall} {m : DecM α} {k : α → DecM β} {v : α} {w : β}

theorem pure (v : α) : Carries [] (Pure.pure v) v where
  fits _ h := absurd h not_mem_nil
  gives _ := .pure v

/-- **Both sides go on side by side.** -/
theorem bind (h₁ : Carries c₁ m v) (h₂ : Carries c₂ (k v) w) : Carries (c₁ ++ c₂) (m >>= k) w where
  fits c hc := (mem_append.mp hc).elim (h₁.fits c) (h₂.fits c)
  gives r := by
    rw [callsBits_append]
    exact (h₁.gives r).bind (h₂.gives r)

theorem bind_pure {f : α → β} (h : Carries calls m v) :
    Carries calls (m >>= fun a => Pure.pure (f a)) (f v) where
  fits := h.fits
  gives r := (h.gives r).bind_pure

theorem check {p : Prop} [Decidable p] {x : Stop} {k : Unit → DecM β} (hp : ¬ p)
    (h : Carries calls (k ()) w) : Carries calls (Dec.failIf p x >>= k) w := by
  rw [Dec.failIf, if_neg hp]
  exact h

/-- What is read without being written. -/
theorem skip {m : DecM α} (h : Carries [] m v) (h₂ : Carries c₂ (k v) w) :
    Carries c₂ (m >>= k) w := h.bind h₂

theorem ite {p : Prop} [Decidable p] {c₁ c₂ : List WriteCall} {m₁ m₂ : DecM α} {v₁ v₂ : α}
    (h₁ : p → Carries c₁ m₁ v₁) (h₂ : ¬ p → Carries c₂ m₂ v₂) :
    Carries (if p then c₁ else c₂) (if p then m₁ else m₂) (if p then v₁ else v₂) := by
  by_cases hp : p
  · simp only [if_pos hp]
    exact h₁ hp
  · simp only [if_neg hp]
    exact h₂ hp

theorem readN {e : α → List WriteCall} {l : List α} (h : ∀ a ∈ l, Carries (e a) m a) :
    Carries (l.flatMap e) (OpenCore.readN l.length m) l where
  fits c hc := by
    obtain ⟨a, ha, hc⟩ := mem_flatMap.mp hc
    exact (h a ha).fits c hc
  gives r := by
    have := Gives.readN (e := fun a => callsBits (e a)) fun a ha => (h a ha).gives r
    rw [callsBits, flatMap_assoc]
    exact this

theorem bits {n v : Nat} (h1 : 1 ≤ n) (h31 : n ≤ 31) (hv : v < 2 ^ n) :
    Carries (Enc.writeBits n v) (Dec.readBits n) v where
  fits c hc := by
    rw [mem_singleton.mp hc]
    exact ⟨hv, by simp⟩
  gives r := by
    rw [Enc.writeBits, callsBits_bits]
    exact gives_readBits h1 h31 hv

theorem bit {v : Nat} (hv : v < 2) : Carries (Enc.write1Bit v) Dec.read1Bit v where
  fits c hc := by
    rw [mem_singleton.mp hc]
    exact ⟨hv, by simp⟩
  gives r := by
    rw [Enc.write1Bit, callsBits_bit]
    exact gives_read1Bit hv

theorem ue {v : Nat} (hv : v < 65535) : Carries (Enc.ue_v v) Dec.ue_v v where
  fits := (callsBits_ue (by omega)).2
  gives r := by
    rw [(callsBits_ue (by omega)).1]
    exact gives_ue hv

theorem se {v : Int} (hv : Enc.codeOf v < 65535) : Carries (Enc.se_v v) Dec.se_v v where
  fits := (callsBits_ue (by omega)).2
  gives r := by
    rw [Enc.se_v, (callsBits_ue (by omega)).1]
    exact gives_se hv

theorem se32 {v : Int} (hv : Enc.codeOf v + 1 < 2 ^ 31) :
    Carries (Enc.se_v v) Dec.se_v32bit v where
  fits := (callsBits_ue hv).2
  gives r := by
    rw [Enc.se_v, (callsBits_ue hv).1]
    exact gives_se32 hv

end Carries

end OpenCore.Avc
