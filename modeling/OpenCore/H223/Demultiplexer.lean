/-
  File:      OpenCore/H223/Demultiplexer.lean
  Subject:   MUX-PDUS TAKEN APART by a multiplex table entry: `BreakPduData`.

  A sub-element list is walked by a recursive call as often as its repeat count says. The data
  pointer goes by reference, the PDU's size by value, and a call counts what it took only when the
  data ends in it. The model keeps the data pointer as a distance from the PDU's first byte, so that
  a byte handed over from behind the PDU shows.

  **Main result**: `BreakPduData_iff`.
-/
import OpenCore.H223.Multiplexer

namespace OpenCore.H223

open List

/-! ## 1. The walk -/

/-- `H223IncomingChannel`, as far as the walk looks at it. -/
structure IncomingChannel where
  lcn : Nat
  segmentable : Bool
  deriving DecidableEq, Repr

/-- What the walk does to a channel: bytes handed over (from, how many), an SDU dispatched. -/
inductive DemuxEvent where
  | alPduData (channel : IncomingChannel) (pdu n : Nat)
  | dispatch (channel : IncomingChannel)
  deriving DecidableEq, Repr

/-- What a call changes: the data pointer, the channels, and the channel a closing flag ends. -/
structure Demux where
  pdu : Nat
  events : List DemuxEvent
  iLcnEnd : Option IncomingChannel
  deriving DecidableEq, Repr

/-- The first open channel with the element's 16-bit number. -/
def openChannel (iIncomingChannels : List IncomingChannel) (lcn : Nat) : Option IncomingChannel :=
  iIncomingChannels.find? fun c => lcn == c.lcn % 65536

/-- The turns of an element in `size` bytes: the repeat count, or as many as there are bytes. -/
def RepeatCount.times (size : Nat) : RepeatCount → Nat
  | .finite n => n
  | .untilClosingFlag => size

/-- How the walk goes on behind an element: a `return`, or the next element with the sizes so
    far. -/
inductive Flow where
  | done (ret : Nat) (m : Demux)
  | next (pdu_size demuxed_size : Nat) (m : Demux)

/-- The turns of a sub-element list; `body` is the recursive call. Each turn moves the pointer by
    all that is counted so far. -/
def subElementTurns (body : Demux → Demux × Nat) (pdu_size : Nat) : Nat → Nat → Demux → Flow
  | 0, demuxed_size, m => .next pdu_size demuxed_size m
  | turns + 1, demuxed_size, m =>
    let r := body m
    let demuxed := demuxed_size + r.2
    let m' := { r.1 with pdu := r.1.pdu + demuxed }
    if pdu_size ≤ demuxed then .done demuxed m'
    else subElementTurns body pdu_size turns demuxed m'

/-- An open channel's element: its bytes are handed over, as a `uint16` number of them; a channel
    that is not segmentable has its SDU dispatched. -/
def takeElement (channel : IncomingChannel) (n pdu_size demuxed_size : Nat) (m : Demux) : Flow :=
  let m' := { m with
    events := m.events ++ [.alPduData channel m.pdu (n % 65536)]
    pdu := m.pdu + n }
  if channel.segmentable then
    if pdu_size - n = 0 then .done (demuxed_size + n) { m' with iLcnEnd := some channel }
    else .next (pdu_size - n) (demuxed_size + n) m'
  else
    let m'' := { m' with events := m'.events ++ [.dispatch channel] }
    if pdu_size - n = 0 then .done (demuxed_size + n) m''
    else .next (pdu_size - n) (demuxed_size + n) m''

mutual

/-- One turn of the loop over the element list. -/
def breakElement (iIncomingChannels : List IncomingChannel) :
    MultiplexElement → Nat → Nat → Demux → Flow
  | .logicalChannelNumber lcn repeatCount, pdu_size, demuxed_size, m =>
    match openChannel iIncomingChannels lcn with
    | none => .next pdu_size demuxed_size m
    | some channel =>
      takeElement channel (min pdu_size (repeatCount.times pdu_size)) pdu_size demuxed_size m
  | .subElementList elements repeatCount, pdu_size, demuxed_size, m =>
    subElementTurns (fun m => breakElements iIncomingChannels elements pdu_size 0 m) pdu_size
      (repeatCount.times pdu_size) demuxed_size m

/-- The loop over the element list; behind the last element `return false`. -/
def breakElements (iIncomingChannels : List IncomingChannel) :
    List MultiplexElement → Nat → Nat → Demux → Demux × Nat
  | [], _, _, m => (m, 0)
  | e :: es, pdu_size, demuxed_size, m =>
    match breakElement iIncomingChannels e pdu_size demuxed_size m with
    | .done ret m' => (m', ret)
    | .next pdu_size' demuxed_size' m' =>
      breakElements iIncomingChannels es pdu_size' demuxed_size' m'

end

/-- `BreakPduData`, from the PDU's first byte: what it does and what it returns. -/
def BreakPduData (iIncomingChannels : List IncomingChannel) (pdu_size : Nat)
    (pElement : List MultiplexElement) (iLcnEnd : Option IncomingChannel) : Demux × Nat :=
  breakElements iIncomingChannels pElement pdu_size 0 ⟨0, [], iLcnEnd⟩

/-- The byte positions handed over, in order, each with its channel. -/
def handed (events : List DemuxEvent) : List (Nat × IncomingChannel) :=
  events.flatMap fun e =>
    match e with
    | .alPduData channel pdu n => (List.range' pdu n).map fun i => (i, channel)
    | .dispatch _ => []

/-! ## 2. The reading of the descriptor -/

mutual

/-- The channel numbers an element assigns to consecutive bytes, repeated as far as `size` bytes
    can need. -/
def MultiplexElement.slots (size : Nat) : MultiplexElement → List Nat
  | .logicalChannelNumber lcn repeatCount => List.replicate (repeatCount.times size) lcn
  | .subElementList elements repeatCount =>
    (List.replicate (repeatCount.times size) (slotsOf size elements)).flatten

/-- The channel numbers of a list of elements, one element after the other. -/
def slotsOf (size : Nat) : List MultiplexElement → List Nat
  | [] => []
  | e :: es => e.slots size ++ slotsOf size es

end

/-- The channel number of each byte of a PDU, as far as the entry goes. -/
def assignment (pdu_size : Nat) (entry : List MultiplexElement) : List Nat :=
  (slotsOf pdu_size entry).take pdu_size

/-- The byte positions from `start` on with the open channel each belongs to; the bytes of the
    other channels are discarded. -/
def assigned (iIncomingChannels : List IncomingChannel) (start : Nat) (slots : List Nat) :
    List (Nat × IncomingChannel) :=
  (slots.zipIdx start).filterMap fun p =>
    (openChannel iIncomingChannels p.1).map fun c => (p.2, c)

/-- The PDU is demultiplexed as the descriptor says: each byte to its channel, exactly once and in
    order, and the bytes consumed (handed over or discarded) returned. -/
def DemuxesRight (iIncomingChannels : List IncomingChannel) (pdu_size : Nat)
    (entry : List MultiplexElement) (iLcnEnd : Option IncomingChannel) : Prop :=
  let r := BreakPduData iIncomingChannels pdu_size entry iLcnEnd
  handed r.1.events = assigned iIncomingChannels 0 (assignment pdu_size entry) ∧
  r.2 = (assignment pdu_size entry).length

mutual

/-- Repeat counts are at least one and sub-element lists have an element, as the decoder of the
    multiplex entry messages makes them. -/
def MultiplexElement.WellFormed : MultiplexElement → Prop
  | .logicalChannelNumber _ repeatCount => 1 ≤ repeatCount.times 1
  | .subElementList elements repeatCount =>
    1 ≤ repeatCount.times 1 ∧ elements ≠ [] ∧ AllWellFormed elements

/-- All elements of a list are well formed. -/
def AllWellFormed : List MultiplexElement → Prop
  | [] => True
  | e :: es => e.WellFormed ∧ AllWellFormed es

end

mutual

/-- `size` bytes end in this element, or in what follows it. -/
def MultiplexElement.endsIn (iIncomingChannels : List IncomingChannel) :
    MultiplexElement → Nat → (Nat → Bool) → Bool
  | .logicalChannelNumber lcn repeatCount, size, rest =>
    (openChannel iIncomingChannels lcn).isSome &&
      (decide (size ≤ repeatCount.times size) || rest (size - repeatCount.times size))
  | .subElementList elements _, size, _ => endsInList iIncomingChannels elements size

/-- The data ends in the walk over the elements: all channels met up to there are open, and it ends
    in the first turn of each sub-element list met. -/
def endsInList (iIncomingChannels : List IncomingChannel) : List MultiplexElement → Nat → Bool
  | [], _ => false
  | e :: es, size => e.endsIn iIncomingChannels size (endsInList iIncomingChannels es)

end

/-! ## 3. Small lemmas -/

open MultiplexElement (endsIn slots)

variable {channels : List IncomingChannel}

variable {r : RepeatCount}

theorem RepeatCount.one_le_times (size : Nat) (h : 1 ≤ r.times 1)
    (hs : 1 ≤ size) : 1 ≤ r.times size := by
  cases r with
  | finite n => exact h
  | untilClosingFlag => exact hs

variable {size : Nat}

theorem RepeatCount.times_mono {size' : Nat} (h : size ≤ size') :
    r.times size ≤ r.times size' := by
  cases r with
  | finite n => exact le_rfl
  | untilClosingFlag => exact h

/-- Fewer turns than bytes: the repeat count is finite, the same for any size. -/
theorem RepeatCount.times_eq_of_lt (h : r.times size < size)
    (size' : Nat) : r.times size' = r.times size := by
  cases r with
  | finite n => rfl
  | untilClosingFlag => exact absurd h (lt_irrefl size)

@[simp] theorem handed_append (a b : List DemuxEvent) : handed (a ++ b) = handed a ++ handed b :=
  flatMap_append

@[simp] theorem handed_alPduData (c : IncomingChannel) (pdu n : Nat) :
    handed [.alPduData c pdu n] = (range' pdu n).map fun i => (i, c) := by
  simp [handed]

@[simp] theorem handed_dispatch (c : IncomingChannel) : handed [.dispatch c] = [] := by
  simp [handed]

theorem assigned_append (start : Nat) (a b : List Nat) :
    assigned channels start (a ++ b)
      = assigned channels start a ++ assigned channels (start + a.length) b := by
  rw [assigned, zipIdx_append, filterMap_append]
  rfl

/-- A run of bytes of one open channel. -/
theorem assigned_replicate {lcn : Nat} {c : IncomingChannel}
    (hc : openChannel channels lcn = some c) (start n : Nat) :
    assigned channels start (replicate n lcn)
      = (range' start n).map fun i => (i, c) := by
  induction n generalizing start with
  | zero => rfl
  | succ n ih =>
    have hone : assigned channels start [lcn] = [(start, c)] := by
      simp [assigned, hc]
    rw [replicate_succ, ← singleton_append, assigned_append, hone, length_singleton,
      ih, range'_succ, map_cons, singleton_append]

theorem assigned_length_le (channels : List IncomingChannel) (start : Nat) (slots : List Nat) :
    (assigned channels start slots).length ≤ slots.length := by
  rw [assigned]
  exact (length_filterMap_le _ _).trans (by rw [length_zipIdx])

/-- Where no byte is discarded, every channel named is open. -/
theorem isSome_of_assigned_length {slots : List Nat} (start : Nat)
    (h : (assigned channels start slots).length = slots.length) :
    ∀ lcn ∈ slots, (openChannel channels lcn).isSome := by
  induction slots generalizing start with
  | nil => exact fun lcn hm => absurd hm not_mem_nil
  | cons l slots ih =>
    have hlen := h
    rw [← singleton_append, assigned_append, length_append, length_append] at hlen
    have h1 := assigned_length_le channels start [l]
    have h2 := assigned_length_le channels (start + [l].length) slots
    intro lcn hm
    rcases mem_cons.mp hm with rfl | hm
    · by_contra hno
      have hnone : openChannel channels lcn = none := by simpa using hno
      have hzero : (assigned channels start [lcn]).length = 0 := by simp [assigned, hnone]
      simp only [length_singleton] at hlen h2
      omega
    · exact ih (start + [l].length) (by simp only [length_singleton] at *; omega) lcn hm

/-- What an open channel's element hands over, and how the walk goes on behind it. -/
theorem takeElement_eq (c : IncomingChannel) (n size demuxed : Nat) (m : Demux) :
    ∃ m', handed m'.events = handed m.events ++ (range' m.pdu (n % 65536)).map (·, c) ∧
      m'.pdu = m.pdu + n ∧
      takeElement c n size demuxed m
        = if size - n = 0 then .done (demuxed + n) m' else .next (size - n) (demuxed + n) m' := by
  unfold takeElement
  by_cases hseg : c.segmentable
  · by_cases hz : size - n = 0
    · refine ⟨_, ?_, ?_, by rw [if_pos hseg, if_pos hz, if_pos hz]⟩ <;> simp
    · refine ⟨_, ?_, ?_, by rw [if_pos hseg, if_neg hz, if_neg hz]⟩ <;> simp
  · refine ⟨_, ?_, ?_, by rw [if_neg hseg]⟩
    · rw [handed_append, handed_append, handed_alPduData, handed_dispatch, append_nil]
    · rfl

/-! ## 4. Where the data ends in the walk -/

open RepeatCount (one_le_times times_eq_of_lt times_mono)

/-- Where the data ends in the walk, the descriptor assigns all of it. -/
theorem le_slotsOf_length : ∀ (es : List MultiplexElement) (size K : Nat),
    endsInList channels es size = true → size ≤ K → 1 ≤ size → AllWellFormed es →
      size ≤ (slotsOf K es).length
  | [], _, _, h, _, _, _ => absurd h (by simp [endsInList])
  | .logicalChannelNumber lcn r :: es, size, K, h, hK, _, hwf => by
    simp only [endsInList, endsIn, Bool.and_eq_true, Bool.or_eq_true,
      decide_eq_true_eq] at h
    rw [slotsOf, length_append, slots, length_replicate]
    have hmono := times_mono (r := r) hK
    by_cases hend : size ≤ r.times size
    · omega
    · rcases h.2 with h2 | h2
      · omega
      · have := le_slotsOf_length es _ K h2 (by omega) (by omega) hwf.2
        omega
  | .subElementList sub r :: es, size, K, h, hK, h1, hwf => by
    simp only [endsInList, endsIn] at h
    have hsub := le_slotsOf_length sub size K h hK h1 hwf.1.2.2
    have hone := one_le_times K hwf.1.1 (by omega)
    obtain ⟨k, hk⟩ := Nat.exists_eq_add_of_le hone
    rw [slotsOf, slots, hk, Nat.add_comm 1 k, replicate_succ,
      flatten_cons]
    simp only [length_append]
    omega

/-- **The data ends in the walk**: every byte goes to its channel and all bytes are counted. -/
theorem breakElements_endsIn : ∀ (es : List MultiplexElement) (size K demuxed : Nat) (m : Demux),
    endsInList channels es size = true → 1 ≤ size → size ≤ K → size < 65536 → AllWellFormed es →
      ∃ m', breakElements channels es size demuxed m = (m', demuxed + size) ∧
        handed m'.events
          = handed m.events ++ assigned channels m.pdu ((slotsOf K es).take size)
  | [], _, _, _, _, h, _, _, _, _ => absurd h (by simp [endsInList])
  | .logicalChannelNumber lcn r :: es, size, K, demuxed, m, h, h1, hK, hlt, hwf => by
    simp only [endsInList, endsIn, Bool.and_eq_true, Bool.or_eq_true,
      decide_eq_true_eq] at h
    obtain ⟨c, hc⟩ := Option.isSome_iff_exists.mp h.1
    obtain ⟨m₁, hev, hpdu, htake⟩ :=
      takeElement_eq c (min size (r.times size)) size demuxed m
    have hmono := times_mono (r := r) hK
    rw [slotsOf, slots]
    by_cases hend : size ≤ r.times size
    · -- the data ends in this element
      rw [Nat.min_eq_left hend] at hev hpdu htake
      rw [if_pos (Nat.sub_self size)] at htake
      refine ⟨m₁, ?_, ?_⟩
      · simp only [breakElements, breakElement, hc, Nat.min_eq_left hend, htake]
      · rw [take_append_of_le_length (by rw [length_replicate]; omega),
          take_replicate, Nat.min_eq_left (by omega), assigned_replicate hc, hev,
          Nat.mod_eq_of_lt hlt]
    · -- the element takes all it may, the rest goes to the next ones
      have htimes := times_eq_of_lt (r := r) (Nat.lt_of_not_le hend) K
      rw [Nat.min_eq_right (by omega)] at hev hpdu htake
      rw [if_neg (by omega)] at htake
      rcases h.2 with h2 | h2
      · exact absurd h2 hend
      · obtain ⟨m', hrun, hm'⟩ := breakElements_endsIn es (size - r.times size) K
          (demuxed + r.times size) m₁ h2 (by omega) (by omega) (by omega) hwf.2
        refine ⟨m', ?_, ?_⟩
        · simp only [breakElements, breakElement, hc, Nat.min_eq_right (Nat.le_of_not_le hend),
            htake, hrun]
          exact Prod.ext rfl (by simp only; omega)
        · have hall : (replicate (r.times size) lcn).take size
              = replicate (r.times size) lcn :=
            take_of_length_le (by rw [length_replicate]; omega)
          rw [hm', hev, hpdu, htimes, take_append, length_replicate, hall,
            assigned_append, assigned_replicate hc, length_replicate,
            Nat.mod_eq_of_lt (by omega), append_assoc]
  | .subElementList sub r :: es, size, K, demuxed, m, h, h1, hK, hlt, hwf => by
    simp only [endsInList, endsIn] at h
    -- the first turn of the list takes all of the data
    obtain ⟨m', hrun, hm'⟩ := breakElements_endsIn sub size K 0 m h h1 hK hlt hwf.1.2.2
    obtain ⟨k, hk⟩ := Nat.exists_eq_add_of_le (one_le_times size hwf.1.1 h1)
    obtain ⟨k', hk'⟩ :=
      Nat.exists_eq_add_of_le (one_le_times K hwf.1.1 (by omega))
    have hlen := le_slotsOf_length sub size K h hK h1 hwf.1.2.2
    refine ⟨{ m' with pdu := m'.pdu + (demuxed + size) }, ?_, ?_⟩
    · simp only [breakElements, breakElement, hk, Nat.add_comm 1 k, subElementTurns, hrun,
        Nat.zero_add, if_pos (Nat.le_add_left size demuxed)]
    · rw [slotsOf, slots, hk', Nat.add_comm 1 k', replicate_succ,
        flatten_cons, append_assoc, take_append_of_le_length hlen]
      exact hm'

/-! ## 5. What is counted is handed over -/

/-- The number of bytes handed over so far. -/
def Demux.total (m : Demux) : Nat := (handed m.events).length

/-- From a count and a state to a later count and state: no more is counted than is handed over. -/
structure Counts (demuxed : Nat) (m : Demux) (ret : Nat) (m' : Demux) : Prop where
  le : ret + m.total ≤ demuxed + m'.total
  mono : m.total ≤ m'.total

theorem Counts.refl (demuxed : Nat) (m : Demux) : Counts demuxed m demuxed m := ⟨le_rfl, le_rfl⟩

theorem Counts.trans {d₁ d₂ d₃ : Nat} {m₁ m₂ m₃ : Demux} (h : Counts d₁ m₁ d₂ m₂)
    (h' : Counts d₂ m₂ d₃ m₃) : Counts d₁ m₁ d₃ m₃ where
  le := by have := h.le; have := h'.le; omega
  mono := h.mono.trans h'.mono

/-- The same for what an element does; the size never grows. -/
def Flow.Counts (demuxed : Nat) (m : Demux) (size : Nat) : Flow → Prop
  | .done ret m' => H223.Counts demuxed m ret m'
  | .next size' demuxed' m' => H223.Counts demuxed m demuxed' m' ∧ size' ≤ size

theorem Flow.Counts.of_trans {d₁ d₂ : Nat} {m₁ m₂ : Demux} {f : Flow}
    (h : H223.Counts d₁ m₁ d₂ m₂) (hf : f.Counts d₂ m₂ size) : f.Counts d₁ m₁ size := by
  cases f with
  | done ret m' => exact h.trans hf
  | next size' d' m' => exact ⟨h.trans hf.1, hf.2⟩

/-- Moving the data pointer hands nothing over. -/
theorem Counts.of_pdu {d d' : Nat} {m m' : Demux} (h : Counts d m d' m') (pdu : Nat) :
    Counts d m d' { m' with pdu := pdu } := ⟨h.le, h.mono⟩

/-- An open channel's element counts what it hands over. -/
theorem takeElement_counts (c : IncomingChannel) {n : Nat} (size : Nat) (hn : n < 65536)
    (demuxed : Nat) (m : Demux) : (takeElement c n size demuxed m).Counts demuxed m size := by
  obtain ⟨m', hev, -, htake⟩ := takeElement_eq c n size demuxed m
  have htotal : m'.total = m.total + n := by
    simp [Demux.total, hev, Nat.mod_eq_of_lt hn]
  have hc : Counts demuxed m (demuxed + n) m' := ⟨by omega, by omega⟩
  rw [htake]
  by_cases hz : size - n = 0
  · rw [if_pos hz]
    exact hc
  · rw [if_neg hz]
    exact ⟨hc, Nat.sub_le _ _⟩

/-- The turns of a list whose calls count no more than they hand over. -/
theorem subElementTurns_counts (body : Demux → Demux × Nat) (size : Nat)
    (hbody : ∀ m, Counts 0 m (body m).2 (body m).1) (turns demuxed : Nat) (m : Demux) :
    (subElementTurns body size turns demuxed m).Counts demuxed m size := by
  induction turns generalizing demuxed m with
  | zero => exact ⟨Counts.refl _ _, le_rfl⟩
  | succ turns ih =>
    have hone : Counts demuxed m (demuxed + (body m).2)
        { (body m).1 with pdu := (body m).1.pdu + (demuxed + (body m).2) } := by
      have h := hbody m
      refine Counts.of_pdu ⟨?_, h.mono⟩ _
      have := h.le
      omega
    simp only [subElementTurns]
    split
    · exact hone
    · exact (ih _ _).of_trans hone

/-- **No call returns more than it handed over**, on PDUs of 16-bit size. -/
theorem breakElements_counts (channels : List IncomingChannel) :
    ∀ (es : List MultiplexElement) (size demuxed : Nat) (m : Demux), size < 65536 →
      Counts demuxed m (breakElements channels es size demuxed m).2
        (breakElements channels es size demuxed m).1
  | [], _, _, _, _ => ⟨by simp only [breakElements]; omega, le_rfl⟩
  | .logicalChannelNumber lcn r :: es, size, demuxed, m, hs => by
    cases hc : openChannel channels lcn with
    | none =>
      simp only [breakElements, breakElement, hc]
      exact breakElements_counts channels es size demuxed m hs
    | some c =>
      have hn : min size (r.times size) < 65536 := by omega
      have hone := takeElement_counts c size hn demuxed m
      simp only [breakElements, breakElement, hc]
      cases hflow : takeElement c (min size (r.times size)) size demuxed m with
      | done ret m' =>
        rw [hflow] at hone
        exact hone
      | next size' demuxed' m' =>
        rw [hflow] at hone
        exact hone.1.trans (breakElements_counts channels es size' demuxed' m' (by have := hone.2; omega))
  | .subElementList sub r :: es, size, demuxed, m, hs => by
    have hone := subElementTurns_counts (fun m => breakElements channels sub size 0 m) size
      (fun m => breakElements_counts channels sub size 0 m hs) (r.times size) demuxed m
    simp only [breakElements, breakElement]
    cases hflow : subElementTurns (fun m => breakElements channels sub size 0 m) size
        (r.times size) demuxed m with
    | done ret m' =>
      rw [hflow] at hone
      exact hone
    | next size' demuxed' m' =>
      rw [hflow] at hone
      exact hone.1.trans (breakElements_counts channels es size' demuxed' m' (by have := hone.2; omega))

/-! ## 6. What a walk without discarded bytes tells -/

open Demux (total)

/-- The channels of the first `size` bytes are open. -/
def AllOpen (iIncomingChannels : List IncomingChannel) (size : Nat) (slots : List Nat) : Prop :=
  ∀ lcn ∈ slots.take size, (openChannel iIncomingChannels lcn).isSome

theorem AllOpen.left {a b : List Nat} (h : AllOpen channels size (a ++ b)) :
    AllOpen channels size a := fun lcn hm => h lcn (by
  rw [take_append]
  exact mem_append_left _ hm)

variable {es : List MultiplexElement}

/-- The first element's channel number is among them. -/
theorem AllOpen.first {K lcn : Nat}
    (h : AllOpen channels size (slotsOf K (.logicalChannelNumber lcn r :: es)))
    (hr : 1 ≤ r.times 1) (h1 : 1 ≤ size) (hK : size ≤ K) :
    ∃ c, openChannel channels lcn = some c := by
  have hone := one_le_times K hr (by omega)
  rw [slotsOf, slots] at h
  refine Option.isSome_iff_exists.mp (h.left lcn ?_)
  rw [take_replicate]
  exact mem_replicate.mpr ⟨by omega, rfl⟩

/-- The first turn of a sub-element list walks over its first bytes. -/
theorem AllOpen.sub {K : Nat} {sub : List MultiplexElement}
    (h : AllOpen channels size (slotsOf K (.subElementList sub r :: es)))
    (hr : 1 ≤ r.times 1) (h1 : 1 ≤ size) (hK : size ≤ K) :
    AllOpen channels size (slotsOf K sub) := by
  obtain ⟨k, hk⟩ :=
    Nat.exists_eq_add_of_le (one_le_times K hr (by omega))
  rw [slotsOf, slots, hk, Nat.add_comm 1 k, replicate_succ,
    flatten_cons, append_assoc] at h
  exact h.left

/-- What is walked over behind an element that takes fewer bytes than there are. -/
theorem AllOpen.next {K lcn : Nat}
    (h : AllOpen channels size (slotsOf K (.logicalChannelNumber lcn r :: es)))
    (hlt : r.times size < size) : AllOpen channels (size - r.times size) (slotsOf K es) := by
  intro l hm
  refine h l ?_
  rw [slotsOf, slots, times_eq_of_lt hlt, take_append,
    length_replicate]
  exact mem_append_right _ hm

/-- How a walk over a list splits at an element: its flow, then the rest. -/
theorem breakElements_cons_counts {e : MultiplexElement} (es : List MultiplexElement)
    {demuxed : Nat} {m : Demux} {d : Nat} {m₁ : Demux} (hs : size < 65536)
    (h : (breakElement channels e size demuxed m).Counts d m₁ size) :
    Counts d m₁ (breakElements channels (e :: es) size demuxed m).2
      (breakElements channels (e :: es) size demuxed m).1 := by
  simp only [breakElements]
  cases hflow : breakElement channels e size demuxed m with
  | done ret m' =>
    rw [hflow] at h
    exact h
  | next size' demuxed' m' =>
    rw [hflow] at h
    exact h.1.trans (breakElements_counts channels es size' demuxed' m' (by have := h.2; omega))

/-- The first turn of a sub-element list, and what follows it. -/
theorem subElement_counts (channels : List IncomingChannel) (sub : List MultiplexElement)
    (hs : size < 65536) (hr : 1 ≤ r.times size) (demuxed : Nat) (m : Demux) :
    ∃ pdu, (breakElement channels (.subElementList sub r) size demuxed m).Counts
      (demuxed + (breakElements channels sub size 0 m).2)
      { (breakElements channels sub size 0 m).1 with pdu := pdu } size := by
  obtain ⟨k, hk⟩ := Nat.exists_eq_add_of_le hr
  refine ⟨(breakElements channels sub size 0 m).1.pdu
    + (demuxed + (breakElements channels sub size 0 m).2), ?_⟩
  simp only [breakElement, hk, Nat.add_comm 1 k, subElementTurns]
  split
  · exact Counts.refl _ _
  · exact subElementTurns_counts (fun m => breakElements channels sub size 0 m) size
      (fun m => breakElements_counts channels sub size 0 m hs) k _ _

/-- A walk whose first channel is open hands something over. -/
theorem breakElements_progress : ∀ (es : List MultiplexElement) (size K demuxed : Nat) (m : Demux),
    es ≠ [] → AllWellFormed es → 1 ≤ size → size ≤ K → size < 65536 →
      AllOpen channels size (slotsOf K es) →
      m.total < (breakElements channels es size demuxed m).1.total
  | [], _, _, _, _, h, _, _, _, _, _ => absurd rfl h
  | .logicalChannelNumber lcn r :: es, size, K, demuxed, m, _, hwf, h1, hK, hs, hopen => by
    obtain ⟨c, hc⟩ := hopen.first hwf.1 h1 hK
    have hone := one_le_times size hwf.1 h1
    obtain ⟨m', hev, -, htake⟩ := takeElement_eq c (min size (r.times size)) size demuxed m
    have htotal : m'.total = m.total + min size (r.times size) := by
      rw [total, hev, Nat.mod_eq_of_lt (by omega)]
      simp [total]
    have hflow : (breakElement channels (.logicalChannelNumber lcn r) size demuxed m).Counts
        (demuxed + min size (r.times size)) m' size := by
      simp only [breakElement, hc, htake]
      split
      · exact Counts.refl _ _
      · exact ⟨Counts.refl _ _, Nat.sub_le _ _⟩
    have hmono := (breakElements_cons_counts es hs hflow).mono
    omega
  | .subElementList sub r :: es, size, K, demuxed, m, _, hwf, h1, hK, hs, hopen => by
    have hsub := breakElements_progress sub size K 0 m hwf.1.2.1 hwf.1.2.2 h1 hK hs
      (hopen.sub hwf.1.1 h1 hK)
    obtain ⟨pdu, hflow⟩ := subElement_counts channels sub hs
      (one_le_times _ hwf.1.1 h1) demuxed m
    have hmono := (breakElements_cons_counts es hs hflow).mono
    exact lt_of_lt_of_le hsub hmono

/-- **A walk without discarded bytes that counts all it hands over** is one in which the data
    ends. -/
theorem endsInList_of_exact : ∀ (es : List MultiplexElement) (size K demuxed : Nat) (m : Demux),
    AllWellFormed es → 1 ≤ size → size ≤ K → size < 65536 →
      AllOpen channels size (slotsOf K es) →
      0 < (breakElements channels es size demuxed m).2 →
      (breakElements channels es size demuxed m).2 + m.total
        = demuxed + (breakElements channels es size demuxed m).1.total →
      endsInList channels es size = true
  | [], _, _, _, _, _, _, _, _, _, hret, _ => absurd hret (by simp [breakElements])
  | .logicalChannelNumber lcn r :: es, size, K, demuxed, m, hwf, h1, hK, hs, hopen, hret, heq => by
    obtain ⟨c, hc⟩ := hopen.first hwf.1 h1 hK
    simp only [endsInList, endsIn, hc, Option.isSome_some, Bool.true_and,
      Bool.or_eq_true, decide_eq_true_eq]
    by_cases hend : size ≤ r.times size
    · exact Or.inl hend
    · obtain ⟨m', hev, -, htake⟩ := takeElement_eq c (r.times size) size demuxed m
      have htotal : m'.total = m.total + r.times size := by
        rw [total, hev, Nat.mod_eq_of_lt (by omega)]
        simp [total]
      rw [if_neg (by omega)] at htake
      simp only [breakElements, breakElement, hc, Nat.min_eq_right (Nat.le_of_not_le hend),
        htake] at hret heq
      exact Or.inr (endsInList_of_exact es (size - r.times size) K _ m' hwf.2 (by omega)
        (by omega) (by omega) (hopen.next (by omega)) hret (by omega))
  | .subElementList sub r :: es, size, K, demuxed, m, hwf, h1, hK, hs, hopen, hret, heq => by
    simp only [endsInList, endsIn]
    have hsubopen := hopen.sub hwf.1.1 h1 hK
    have hcount := breakElements_counts channels sub size 0 m hs
    have hprog :=
      breakElements_progress sub size K 0 m hwf.1.2.1 hwf.1.2.2 h1 hK hs hsubopen
    obtain ⟨pdu, hflow⟩ := subElement_counts channels sub hs
      (one_le_times _ hwf.1.1 h1) demuxed m
    have hall := (breakElements_cons_counts es hs hflow).le
    have hle := hcount.le
    have htotal : ∀ x : Demux, total { x with pdu := pdu } = x.total := fun x => rfl
    rw [htotal] at hall
    -- what the first turn hands over without counting it is never made up for
    exact endsInList_of_exact sub size K 0 m hwf.1.2.2 h1 hK hs hsubopen (by omega) (by omega)

/-! ## 7. The demultiplexer against the descriptor -/

/-- A PDU without bytes: nothing is handed over and nothing counted. -/
theorem breakElements_zero (channels : List IncomingChannel) : ∀ (es : List MultiplexElement) (m : Demux),
    ∃ m', breakElements channels es 0 0 m = (m', 0) ∧ handed m'.events = handed m.events
  | [], m => ⟨m, rfl, rfl⟩
  | .logicalChannelNumber lcn r :: es, m => by
    cases hc : openChannel channels lcn with
    | none =>
      obtain ⟨m', hrun, hev⟩ := breakElements_zero channels es m
      exact ⟨m', by simp only [breakElements, breakElement, hc, hrun], hev⟩
    | some c =>
      obtain ⟨m', hev, -, htake⟩ := takeElement_eq c 0 0 0 m
      exact ⟨m', by simp [breakElements, breakElement, hc, htake], by simpa using hev⟩
  | .subElementList sub r :: es, m => by
    obtain ⟨m₁, hsub, hev₁⟩ := breakElements_zero channels sub m
    cases hturns : r.times 0 with
    | zero =>
      obtain ⟨m', hrun, hev⟩ := breakElements_zero channels es m
      exact ⟨m', by simp only [breakElements, breakElement, hturns, subElementTurns, hrun], hev⟩
    | succ k =>
      exact ⟨{ m₁ with pdu := m₁.pdu + (0 + 0) },
        by simp [breakElements, breakElement, hturns, subElementTurns, hsub], hev₁⟩

/-- **The demultiplexer** hands each byte of a PDU to the channel the descriptor assigns it to, and
    returns the bytes consumed, exactly when the PDU is empty or the data ends in the walk: every
    element up to the end of the data names an open channel, and the data ends in the first turn
    of each sub-element list met. -/
theorem BreakPduData_iff (iIncomingChannels : List IncomingChannel) (pdu_size : Nat)
    (entry : List MultiplexElement) (iLcnEnd : Option IncomingChannel) (hne : entry ≠ [])
    (hwf : AllWellFormed entry) (hsize : pdu_size < 65536) :
    DemuxesRight iIncomingChannels pdu_size entry iLcnEnd ↔
      pdu_size = 0 ∨ endsInList iIncomingChannels entry pdu_size = true := by
  constructor
  · intro h
    obtain ⟨hhanded, hret⟩ := h
    rcases Nat.eq_zero_or_pos pdu_size with h0 | h1
    · exact Or.inl h0
    · refine Or.inr ?_
      have hcount := breakElements_counts iIncomingChannels entry pdu_size 0
        ⟨0, [], iLcnEnd⟩ hsize
      have htotal := congrArg List.length hhanded
      have hle := assigned_length_le iIncomingChannels 0 (assignment pdu_size entry)
      have hcle := hcount.le
      have hstart : total ⟨0, [], iLcnEnd⟩ = 0 := rfl
      unfold BreakPduData at htotal hret
      simp only [total] at hcle hstart
      -- all bytes counted are handed over, so none was to be discarded
      have hopen : AllOpen iIncomingChannels pdu_size (slotsOf pdu_size entry) := by
        refine isSome_of_assigned_length 0 ?_
        unfold assignment at *
        omega
      have hprog := breakElements_progress entry pdu_size pdu_size 0 ⟨0, [], iLcnEnd⟩ hne hwf h1
        le_rfl hsize hopen
      refine endsInList_of_exact entry pdu_size pdu_size 0 ⟨0, [], iLcnEnd⟩ hwf h1 le_rfl hsize
        hopen ?_ ?_ <;> simp only [total] at hprog ⊢ <;> omega
  · intro h
    rcases Nat.eq_zero_or_pos pdu_size with rfl | h1
    · obtain ⟨m', hrun, hev⟩ := breakElements_zero iIncomingChannels entry
        ⟨0, [], iLcnEnd⟩
      simp only [DemuxesRight, BreakPduData, hrun, hev]
      exact ⟨rfl, rfl⟩
    · have h := h.resolve_left (by omega)
      obtain ⟨m', hrun, hev⟩ := breakElements_endsIn entry pdu_size pdu_size 0 ⟨0, [], iLcnEnd⟩
        h h1 le_rfl hsize hwf
      have hlen := le_slotsOf_length entry pdu_size pdu_size h le_rfl h1 hwf
      simp only [DemuxesRight, BreakPduData, hrun, hev]
      refine ⟨rfl, ?_⟩
      rw [assignment, length_take, Nat.min_eq_left hlen, Nat.zero_add]

/-- A PDU of three bytes that ends in the first turn of a sub-element list. -/
theorem BreakPduData_iff_nested :
    DemuxesRight [⟨1, true⟩, ⟨2, true⟩] 3
      [.logicalChannelNumber 1 (.finite 1),
       .subElementList [.logicalChannelNumber 2 (.finite 1),
         .logicalChannelNumber 1 .untilClosingFlag] .untilClosingFlag] none := by
  refine (BreakPduData_iff [⟨1, true⟩, ⟨2, true⟩] 3 _ none (cons_ne_nil _ _) ?_
    (by decide)).mpr (Or.inr (by decide))
  simp [AllWellFormed, MultiplexElement.WellFormed, RepeatCount.times]

/-- Where the walk goes wrong. Two channels of one byte each, repeated until the closing flag: of a
    PDU of four bytes eight are handed over and none is counted. A slot of a channel that is not
    open: its byte goes to the next channel. A PDU longer than its entry: nothing is counted. -/
theorem BreakPduData_hands_over_too_much :
    (BreakPduData [⟨1, true⟩, ⟨2, true⟩] 4
        [.subElementList [.logicalChannelNumber 1 (.finite 1),
          .logicalChannelNumber 2 (.finite 1)] .untilClosingFlag] none).2 = 0 ∧
    (handed (BreakPduData [⟨1, true⟩, ⟨2, true⟩] 4
        [.subElementList [.logicalChannelNumber 1 (.finite 1),
          .logicalChannelNumber 2 (.finite 1)] .untilClosingFlag] none).1.events).map
        (fun p => (p.1, p.2.lcn))
      = [(0, 1), (1, 2), (2, 1), (3, 2), (4, 1), (5, 2), (6, 1), (7, 2)] ∧
    ¬ DemuxesRight [⟨1, true⟩, ⟨2, true⟩] 4
        [.subElementList [.logicalChannelNumber 1 (.finite 1),
          .logicalChannelNumber 2 (.finite 1)] .untilClosingFlag] none ∧
    ¬ DemuxesRight [⟨1, true⟩] 2
        [.logicalChannelNumber 3 (.finite 1), .logicalChannelNumber 1 .untilClosingFlag] none ∧
    ¬ DemuxesRight [⟨1, true⟩] 5 [.logicalChannelNumber 1 (.finite 3)] none := by
  refine ⟨by decide, by decide, fun h => ?_, fun h => ?_, fun h => ?_⟩
  · exact absurd h.2 (by decide)
  · exact absurd h.1 (by decide)
  · exact absurd h.2 (by decide)

end OpenCore.H223
