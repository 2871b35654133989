/-
  File:      OpenCore/OsclUtil/BinStreamOutput.lean
  Subject:   SEQUENCES OF WRITES to one output stream: the bytes they emit, and that they fail
             where these do not fit.

  An encoder looks at its stream from time to time and ends with an error where the stream has
  failed. Wherever it looks: the bytes of all its writes are in the block when there is room for
  them, and otherwise it ends with the error and nothing behind the block is touched.

  **Main result**: `Emits.bind`, `Emits.measured`, `Emits.forM`.
-/
import OpenCore.OsclUtil.BinStream

namespace OpenCore.OsclUtil

open List

/-! ## 1. Writes without a look at the stream -/

/-- What is written is in the block. -/
def OsclBinOStream.Inside (s : OsclBinOStream) : Prop := s.tellg ≤ s.length

/-- These bytes are written where there is room for them, and else the stream fails. -/
structure Writes (w : OsclBinOStream → OsclBinOStream) (bytes : List UInt8) : Prop where
  length : ∀ s, (w s).length = s.length
  inside : ∀ s, s.Inside → (w s).Inside
  fits : ∀ s, s.fail = false → s.tellg + bytes.length ≤ s.length →
    (w s).fail = false ∧ (w s).written = s.written ++ bytes
  full : ∀ s, s.Inside → s.fail = true ∨ s.length < s.tellg + bytes.length → (w s).fail = true

variable {s : OsclBinOStream}

theorem tellg_append {s' : OsclBinOStream} {bytes : List UInt8}
    (h : s'.written = s.written ++ bytes) : s'.tellg = s.tellg + bytes.length := by
  unfold OsclBinOStream.tellg
  rw [h, length_append]

section Unchecked

variable {w w' : OsclBinOStream → OsclBinOStream} {bytes bytes' : List UInt8}

theorem writes_id : Writes id [] where
  length _ := rfl
  inside _ h := h
  fits s hs _ := ⟨hs, (append_nil s.written).symm⟩
  full _ hs h := h.elim id fun hlt => absurd hs (Nat.not_le.mpr hlt)

theorem writes_write (data : List UInt8) : Writes (fun s => s.write data) data where
  length s := by
    rcases write_cases s data with ⟨-, -, -, -, h⟩ | ⟨-, -, -, h⟩ <;> exact h
  inside s hs := by
    rcases write_cases s data with ⟨-, hroom, -, hw, hl⟩ | ⟨-, -, hw, hl⟩
    · unfold OsclBinOStream.Inside OsclBinOStream.tellg at *
      rw [hw, hl, length_append]
      exact hroom
    · unfold OsclBinOStream.Inside OsclBinOStream.tellg at *
      rw [hw, hl]
      exact hs
  fits s hs hroom := by
    obtain ⟨hf, hw, -⟩ := write_room hs hroom
    exact ⟨hf, hw⟩
  full s _ h := by
    rcases write_cases s data with ⟨hs, hroom, -, -, -⟩ | ⟨-, hf, -, -⟩
    · rcases h with h | h
      · rw [hs] at h
        cases h
      · exact absurd hroom (Nat.not_le.mpr h)
    · exact hf

/-- **One after the other**. -/
theorem Writes.comp (h : Writes w bytes) (h' : Writes w' bytes') :
    Writes (fun s => w' (w s)) (bytes ++ bytes') where
  length s := (h'.length _).trans (h.length s)
  inside s hs := h'.inside _ (h.inside s hs)
  fits s hs hroom := by
    rw [length_append] at hroom
    obtain ⟨hf, hw⟩ := h.fits s hs (by omega)
    have htellg := tellg_append hw
    obtain ⟨hf', hw'⟩ := h'.fits (w s) hf (by rw [htellg, h.length]; omega)
    exact ⟨hf', by rw [hw', hw, append_assoc]⟩
  full s hs hfull := by
    by_cases hroom : s.fail = true ∨ s.length < s.tellg + bytes.length
    · exact h'.full _ (h.inside s hs) (.inl (h.full s hs hroom))
    · obtain ⟨hok, hfit⟩ := not_or.mp hroom
      obtain ⟨-, hw⟩ := h.fits s (Bool.eq_false_of_not_eq_true hok) (Nat.le_of_not_lt hfit)
      have htellg := tellg_append hw
      refine h'.full _ (h.inside s hs) (.inr ?_)
      have hlt := hfull.resolve_left hok
      rw [length_append] at hlt
      rw [htellg, h.length]
      omega

theorem writes_put8 (data : UInt8) : Writes (fun s => s.put8 data) [data] := writes_write [data]

theorem writes_put32 (data : UInt32) : Writes (fun s => s.put32 data) (longBytes data) :=
  writes_write (longBytes data)

theorem writes_foldl_put8 (data : List UInt8) :
    Writes (fun s => data.foldl OsclBinOStream.put8 s) data := by
  induction data with
  | nil => exact writes_id
  | cons b data ih => exact (writes_write [b]).comp ih

end Unchecked

/-! ## 2. Encoders -/

/-- A sequence of writes that may end with an error. -/
abbrev Encoder (ε α : Type) := ExceptT ε (StateM OsclBinOStream) α

/-- Some writes, and the look at the stream behind them: `if (outStream.fail()) return e`. -/
def emitChecked {ε : Type} (e : ε) (w : OsclBinOStream → OsclBinOStream) : Encoder ε Unit := fun s =>
  if (w s).fail then (.error e, w s) else (.ok (), w s)

/-- What follows is told how many bytes were written: `len = outStream.tellg() - pos`. -/
def measured {ε : Type} (m : Encoder ε Unit) (k : Nat → Encoder ε Unit) : Encoder ε Unit := fun s =>
  (m >>= fun _ => fun s' => k (s'.tellg - s.tellg) s') s

/-- These bytes are written where there is room for them, and else the encoder ends with the
    error and has not left the block. -/
structure Emits {ε : Type} (e : ε) (m : Encoder ε Unit) (bytes : List UInt8) : Prop where
  fits : ∀ s, s.fail = false → s.tellg + bytes.length ≤ s.length →
    (m s).1 = .ok () ∧ (m s).2.fail = false ∧ (m s).2.written = s.written ++ bytes ∧
      (m s).2.length = s.length
  full : ∀ s, s.fail = false → s.Inside → s.length < s.tellg + bytes.length →
    (m s).1 = .error e ∧ (m s).2.Inside ∧ (m s).2.length = s.length

section Checked

variable {ε α : Type} {e : ε} {m m' : Encoder ε Unit} {bytes bytes' : List UInt8}

theorem emits_pure : Emits e (pure ()) [] where
  fits s hs _ := ⟨rfl, hs, (append_nil s.written).symm, rfl⟩
  full _ _ hs hlt := absurd hs (Nat.not_le.mpr hlt)

theorem emits_emitChecked {w : OsclBinOStream → OsclBinOStream} (h : Writes w bytes) :
    Emits e (emitChecked e w) bytes := by
  refine ⟨fun s hs hroom => ?_, fun s _ hin hlt => ?_⟩
  · obtain ⟨hf, hw⟩ := h.fits s hs hroom
    unfold emitChecked
    rw [if_neg (by rw [hf]; exact Bool.false_ne_true)]
    exact ⟨rfl, hf, hw, h.length s⟩
  · unfold emitChecked
    rw [if_pos (h.full s hin (.inr hlt))]
    exact ⟨rfl, h.inside s hin, h.length s⟩

/-- What follows starts from the stream that is left. -/
theorem bind_ok {k : Encoder ε Unit} (h : (m s).1 = .ok ()) :
    (m >>= fun _ => k) s = k (m s).2 := by
  have hbind : (m >>= fun _ => k) s = ExceptT.bindCont (fun _ => k) (m s).1 (m s).2 := rfl
  rw [hbind, h]
  rfl

theorem bind_error {k : Encoder ε Unit} (h : (m s).1 = .error e) :
    (m >>= fun _ => k) s = (.error e, (m s).2) := by
  have hbind : (m >>= fun _ => k) s = ExceptT.bindCont (fun _ => k) (m s).1 (m s).2 := rfl
  rw [hbind, h]
  rfl

/-- **What follows may depend** on the number of bytes in front of it. -/
theorem Emits.measured {k : Nat → Encoder ε Unit} (h : Emits e m bytes)
    (h' : Emits e (k bytes.length) bytes') : Emits e (measured m k) (bytes ++ bytes') := by
  have hend : ∀ s, s.fail = false → s.tellg + bytes.length ≤ s.length →
      OsclUtil.measured m k s = k bytes.length (m s).2 := by
    intro s hs hroom
    obtain ⟨hok, -, hw, -⟩ := h.fits s hs hroom
    unfold OsclUtil.measured
    rw [bind_ok hok, tellg_append hw, Nat.add_sub_cancel_left]
  refine ⟨fun s hs hroom => ?_, fun s hs hin hlt => ?_⟩
  · rw [length_append] at hroom
    have hfit : s.tellg + bytes.length ≤ s.length := by omega
    obtain ⟨-, hf, hw, hl⟩ := h.fits s hs hfit
    obtain ⟨hok', hf', hw', hl'⟩ := h'.fits (m s).2 hf (by rw [tellg_append hw, hl]; omega)
    rw [hend s hs hfit]
    exact ⟨hok', hf', by rw [hw', hw, append_assoc], hl'.trans hl⟩
  · rw [length_append] at hlt
    by_cases hfit : s.tellg + bytes.length ≤ s.length
    · obtain ⟨-, hf, hw, hl⟩ := h.fits s hs hfit
      have htellg := tellg_append hw
      obtain ⟨herr, hin', hl'⟩ := h'.full (m s).2 hf
        (by unfold OsclBinOStream.Inside; rw [htellg, hl]; exact hfit) (by rw [htellg, hl]; omega)
      rw [hend s hs hfit]
      exact ⟨herr, hin', hl'.trans hl⟩
    · obtain ⟨herr, hin', hl⟩ := h.full s hs hin (Nat.lt_of_not_le hfit)
      unfold OsclUtil.measured
      rw [bind_error herr]
      exact ⟨rfl, hin', hl⟩

/-- **One encoder after the other**. -/
theorem Emits.bind (h : Emits e m bytes) (h' : Emits e m' bytes') :
    Emits e (m >>= fun _ => m') (bytes ++ bytes') :=
  @Emits.measured _ _ _ _ _ (fun _ => m') h h'

/-- **A loop** over encoders. -/
theorem Emits.forM {l : List α} {f : α → Encoder ε Unit} {b : α → List UInt8}
    (h : ∀ x ∈ l, Emits e (f x) (b x)) : Emits e (forM l f) (l.flatMap b) := by
  induction l with
  | nil => exact emits_pure
  | cons x l ih =>
    rw [forM_cons, flatMap_cons]
    exact (h x mem_cons_self).bind (ih fun y hy => h y (mem_cons_of_mem x hy))

end Checked

end OpenCore.OsclUtil
