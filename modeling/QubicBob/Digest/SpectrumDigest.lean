import QubicBob.Ledger.Spectrum
import QubicBob.Lib.HashTree

set_option autoImplicit false

/-! # The spectrum digest

`computeSpectrumDigest` keeps the hash tree over the spectrum. Called with a tick window it
rehashes only the records whose latest incoming or outgoing transfer lies in the window; called
with `UINT32_MAX` it rehashes everything. No writer marks the records it touches: the incremental
mode rests on every handler stamping the records it writes with the tick of its event
(`Stamped`), and on these ticks lying in the window of the batch.
-/

namespace QubicBob

open BitWords HashTree

def UINT32_MAX : BitVec 32 := BitVec.allOnes 32

/-- The spectrum with its digest tree and change flags. -/
structure SpectrumState where
  spectrum : Spectrum
  spectrumDigests : Nat → m256i
  spectrumChangeFlags : Words

/-- The window test: one of the two latest-transfer ticks lies in `[tickStart, tickEnd]`. -/
def EntityRecord.inWindow (r : EntityRecord) (tickStart tickEnd : BitVec 32) : Bool :=
  (decide (tickStart ≤ r.latestIncomingTransferTick)
      && decide (r.latestIncomingTransferTick ≤ tickEnd))
    || (decide (tickStart ≤ r.latestOutgoingTransferTick)
      && decide (r.latestOutgoingTransferTick ≤ tickEnd))

section Digest

variable (K : KangarooTwelve) (depth : Nat)

/-- The leaf of a record: the hash of its 64 bytes. -/
def entityDigest (spectrum : Spectrum) (i : Nat) : m256i := K.hash32 (spectrum i).bytes

/-- The level loops on rehashed leaves. -/
def SpectrumState.refreshTree (st : SpectrumState) (leaves : (Nat → m256i) × Words) :
    SpectrumState :=
  let tree := refresh (kangarooTwelve64To32 K) depth leaves.1 leaves.2
  { st with spectrumDigests := tree.1, spectrumChangeFlags := tree.2 }

def computeSpectrumDigest (tickStart tickEnd : BitVec 32) (st : SpectrumState) : SpectrumState :=
  if tickStart ≠ UINT32_MAX then
    st.refreshTree K depth
      (rehashAndMark (fun i => (st.spectrum i).inWindow tickStart tickEnd)
        (entityDigest K st.spectrum) (2 ^ depth) st.spectrumDigests st.spectrumChangeFlags)
  else
    st.refreshTree K depth
      (rehashAndMark (fun _ => true)
        (entityDigest K st.spectrum) (2 ^ depth) st.spectrumDigests st.spectrumChangeFlags)

/-- The digest tree is the one over the current records. -/
structure SpectrumState.Digested (st : SpectrumState) : Prop where
  valid : Valid (kangarooTwelve64To32 K) (2 ^ depth) st.spectrumDigests
  leaves : ∀ i, i < 2 ^ depth → st.spectrumDigests i = entityDigest K st.spectrum i

variable {K depth}

@[simp] theorem computeSpectrumDigest_spectrum (a b : BitVec 32) (st : SpectrumState) :
    (computeSpectrumDigest K depth a b st).spectrum = st.spectrum := by
  unfold computeSpectrumDigest
  split <;> rfl

/-- A refreshed tree over the right leaves is the digest tree. -/
theorem SpectrumState.refreshTree_digested {st : SpectrumState} {leaves : (Nat → m256i) × Words}
    (hr : Refreshed (kangarooTwelve64To32 K) depth leaves.1
      (refresh (kangarooTwelve64To32 K) depth leaves.1 leaves.2))
    (hleaf : ∀ i, i < 2 ^ depth → leaves.1 i = entityDigest K st.spectrum i) :
    (st.refreshTree K depth leaves).Digested K depth := by
  refine ⟨hr.valid, ?_⟩
  intro i hi
  exact (hr.leaves i hi).trans (hleaf i hi)

/-- The full mode computes the tree whatever was stored before. -/
theorem computeSpectrumDigest_full (b : BitVec 32) (st : SpectrumState) :
    (computeSpectrumDigest K depth UINT32_MAX b st).Digested K depth := by
  rw [computeSpectrumDigest, if_neg (by simp)]
  apply SpectrumState.refreshTree_digested
  · apply refresh_of_all
    intro i hi
    rw [rehashAndMark_flags]
    simp [hi]
  · intro i hi
    rw [rehashAndMark_nodes, rehash_apply, if_pos ⟨hi, rfl⟩]

/-! ## Stamps -/

/-- Every record that differs between `s` and `s'` carries a tick of the window. -/
def Stamped (depth : Nat) (tickStart tickEnd : BitVec 32) (s s' : Spectrum) : Prop :=
  ∀ i, i < 2 ^ depth → s' i = s i ∨ (s' i).inWindow tickStart tickEnd = true

section Stamped

variable {tickStart tickEnd tick : BitVec 32} {s s' s'' : Spectrum}

theorem Stamped.refl (s : Spectrum) : Stamped depth tickStart tickEnd s s :=
  fun _ _ => Or.inl rfl

theorem Stamped.trans (h : Stamped depth tickStart tickEnd s s')
    (h' : Stamped depth tickStart tickEnd s' s'') : Stamped depth tickStart tickEnd s s'' := by
  intro i hi
  rcases h' i hi with heq | hin
  · rw [heq]; exact h i hi
  · exact Or.inr hin

/-- Writing one stamped record. -/
theorem Stamped.update {i : Nat} {r : EntityRecord}
    (hr : r.inWindow tickStart tickEnd = true) :
    Stamped depth tickStart tickEnd s (Function.update s i r) := by
  intro j _
  by_cases hj : j = i
  · subst hj; rw [Function.update_self]; exact Or.inr hr
  · rw [Function.update_of_ne hj]; exact Or.inl rfl

theorem inWindow_of_incoming {r : EntityRecord} (hr : r.latestIncomingTransferTick = tick)
    (hlo : tickStart ≤ tick) (hhi : tick ≤ tickEnd) : r.inWindow tickStart tickEnd = true := by
  simp [EntityRecord.inWindow, hr, hlo, hhi]

theorem inWindow_of_outgoing {r : EntityRecord} (hr : r.latestOutgoingTransferTick = tick)
    (hlo : tickStart ≤ tick) (hhi : tick ≤ tickEnd) : r.inWindow tickStart tickEnd = true := by
  simp [EntityRecord.inWindow, hr, hlo, hhi]

variable (hlo : tickStart ≤ tick) (hhi : tick ≤ tickEnd)

include hlo hhi

theorem increaseEnergy_stamped {key : m256i} {amount : BitVec 64}
    (h : increaseEnergy depth s key amount tick = .ok s') :
    Stamped depth tickStart tickEnd s s' := by
  rcases increaseEnergy_cases h with rfl | ⟨i, r, _, rfl, hr⟩
  · exact Stamped.refl _
  · exact Stamped.update (inWindow_of_incoming hr hlo hhi)

theorem decreaseEnergy_stamped (i : Nat) (amount : BitVec 64) :
    Stamped depth tickStart tickEnd s (decreaseEnergy s i amount tick).1 := by
  rcases decreaseEnergy_cases s i amount tick with heq | ⟨r, heq, hr⟩
  · rw [heq]; exact Stamped.refl _
  · rw [heq]; exact Stamped.update (inWindow_of_outgoing hr hlo hhi)

theorem creditAll_stamped (vle : List LogEvent) :
    ∀ s, creditAll depth tick vle s = .ok s' → Stamped depth tickStart tickEnd s s' := by
  induction vle with
  | nil =>
      intro s h
      rw [Except.ok.inj h]
      exact Stamped.refl _
  | cons le vle ih =>
      intro s h
      rw [creditAll, bind_eq_ok] at h
      obtain ⟨s₁, h₁, h₂⟩ := h
      exact (increaseEnergy_stamped hlo hhi h₁).trans (ih s₁ h₂)

end Stamped

/-! ## Events and batches -/

/-- The events that change the spectrum, as the simulation hands them to their handlers. -/
inductive SpectrumEvent where
  | quTransfer (le : LogEvent)
  | quBurn (le : LogEvent)
  | distributeDividends (vle : List LogEvent)

/-- The log events behind a spectrum event. -/
def SpectrumEvent.logs : SpectrumEvent → List LogEvent
  | .quTransfer le => [le]
  | .quBurn le => [le]
  | .distributeDividends vle => vle

def SpectrumEvent.process (depth : Nat) (s : Spectrum) : SpectrumEvent → Except Halt Spectrum
  | .quTransfer le => processQuTransfer depth s le
  | .quBurn le => processQuBurn depth s le
  | .distributeDividends vle => (processDistributeDividends depth s vle).map Prod.fst

/-- Each handler stamps what it writes with the tick of its event. -/
theorem SpectrumEvent.process_stamped {tickStart tickEnd : BitVec 32} {s s' : Spectrum}
    {e : SpectrumEvent}
    (hticks : ∀ le ∈ e.logs, tickStart ≤ le.getTick ∧ le.getTick ≤ tickEnd)
    (h : e.process depth s = .ok s') : Stamped depth tickStart tickEnd s s' := by
  cases e with
  | quTransfer le =>
      obtain ⟨hlo, hhi⟩ := hticks le (by simp [logs])
      rw [process, processQuTransfer, bind_eq_ok] at h
      obtain ⟨idx, _, h⟩ := h
      cases idx with
      | none => exact increaseEnergy_stamped hlo hhi h
      | some i => exact (decreaseEnergy_stamped hlo hhi i _).trans (increaseEnergy_stamped hlo hhi h)
  | quBurn le =>
      obtain ⟨hlo, hhi⟩ := hticks le (by simp [logs])
      rw [process, processQuBurn, bind_eq_ok] at h
      obtain ⟨idx, _, h⟩ := h
      cases idx with
      | none => rw [← Except.ok.inj h]; exact Stamped.refl _
      | some i => rw [← Except.ok.inj h]; exact decreaseEnergy_stamped hlo hhi i _
  | distributeDividends vle =>
      obtain ⟨b, h⟩ := map_fst_eq_ok h
      rcases processDistributeDividends_cases h with rfl | ⟨first, rest, total, i, rfl, _, _, _, hcr⟩
      · exact Stamped.refl _
      · obtain ⟨hlo, hhi⟩ := hticks first (by simp [logs])
        exact (decreaseEnergy_stamped hlo hhi i _).trans (creditAll_stamped hlo hhi _ _ hcr)

/-- A batch: the events of the ticks `[tickStart, tickEnd]`. -/
structure SpectrumBatch where
  tickStart : BitVec 32
  tickEnd : BitVec 32
  events : List SpectrumEvent

/-- What a batch of the verifier promises: a window that is not the full-mode mark, and events of
that window only. -/
structure SpectrumBatch.InWindow (b : SpectrumBatch) : Prop where
  notFull : b.tickStart ≠ UINT32_MAX
  ticks : ∀ e ∈ b.events, ∀ le ∈ e.logs, b.tickStart ≤ le.getTick ∧ le.getTick ≤ b.tickEnd

def processSpectrumEvents (depth : Nat) : List SpectrumEvent → Spectrum → Except Halt Spectrum
  | [], s => pure s
  | e :: es, s => do
      let s ← e.process depth s
      processSpectrumEvents depth es s

/-- The events of a batch and the incremental digest after them. -/
def runSpectrumBatch (K : KangarooTwelve) (depth : Nat) (b : SpectrumBatch) (st : SpectrumState) :
    Except Halt SpectrumState := do
  let s ← processSpectrumEvents depth b.events st.spectrum
  pure (computeSpectrumDigest K depth b.tickStart b.tickEnd { st with spectrum := s })

def runSpectrumBatches (K : KangarooTwelve) (depth : Nat) :
    List SpectrumBatch → SpectrumState → Except Halt SpectrumState
  | [], st => pure st
  | b :: bs, st => do
      let st ← runSpectrumBatch K depth b st
      runSpectrumBatches K depth bs st

theorem processSpectrumEvents_stamped {tickStart tickEnd : BitVec 32} {s' : Spectrum}
    (es : List SpectrumEvent)
    (hticks : ∀ e ∈ es, ∀ le ∈ e.logs, tickStart ≤ le.getTick ∧ le.getTick ≤ tickEnd) :
    ∀ s, processSpectrumEvents depth es s = .ok s' → Stamped depth tickStart tickEnd s s' := by
  induction es with
  | nil =>
      intro s h
      rw [Except.ok.inj h]
      exact Stamped.refl _
  | cons e es ih =>
      intro s h
      rw [processSpectrumEvents, bind_eq_ok] at h
      obtain ⟨s₁, h₁, h₂⟩ := h
      exact (e.process_stamped (hticks e (by simp)) h₁).trans
        (ih (fun e' he' => hticks e' (by simp [he'])) s₁ h₂)

/-- **The incremental mode** on a tree that was valid before stamped changes. -/
theorem computeSpectrumDigest_incremental {a b : BitVec 32} {st : SpectrumState} {s : Spectrum}
    (ha : a ≠ UINT32_MAX) (hd : st.Digested K depth) (hs : Stamped depth a b st.spectrum s) :
    (computeSpectrumDigest K depth a b { st with spectrum := s }).Digested K depth ∧
      ∀ i, i < 2 ^ depth →
        getBit (computeSpectrumDigest K depth a b { st with spectrum := s }).spectrumChangeFlags i
          = false := by
  rw [computeSpectrumDigest, if_pos ha]
  -- a record outside the window was not written, so its stored leaf is still right
  have hold : ∀ i, i < 2 ^ depth → (s i).inWindow a b = false →
      st.spectrumDigests i = entityDigest K s i := by
    intro i hi hout
    rcases hs i hi with heq | hin
    · rw [hd.leaves i hi, entityDigest, entityDigest, heq]
    · rw [hout] at hin; exact absurd hin (by simp)
  set leaves := rehashAndMark (fun i => (s i).inWindow a b) (entityDigest K s) (2 ^ depth)
    st.spectrumDigests st.spectrumChangeFlags with hleaves
  have hr : Refreshed (kangarooTwelve64To32 K) depth leaves.1
      (refresh (kangarooTwelve64To32 K) depth leaves.1 leaves.2) := by
    refine refresh_of_valid _ hd.valid ?_ ?_
    · intro x hx
      rw [hleaves, rehashAndMark_nodes, rehash_apply, if_neg (by omega)]
    · intro x hx hbit
      rw [hleaves, rehashAndMark_flags, Bool.or_eq_false_iff, decide_eq_false_iff_not] at hbit
      rw [hleaves, rehashAndMark_nodes, rehash_apply, if_neg hbit.2]
  refine ⟨SpectrumState.refreshTree_digested hr ?_, hr.clear⟩
  intro i hi
  rw [hleaves, rehashAndMark_nodes, rehash_apply]
  by_cases hin : (s i).inWindow a b = true
  · rw [if_pos ⟨hi, hin⟩]
  · rw [if_neg (fun h => hin h.2)]
    exact hold i hi (by simpa using hin)

/-- One batch keeps the tree valid and clears the flags. -/
theorem runSpectrumBatch_digested {b : SpectrumBatch} {st st' : SpectrumState}
    (hb : b.InWindow) (hd : st.Digested K depth) (h : runSpectrumBatch K depth b st = .ok st') :
    st'.Digested K depth ∧
      ∀ i, i < 2 ^ depth → getBit st'.spectrumChangeFlags i = false := by
  rw [runSpectrumBatch, bind_eq_ok] at h
  obtain ⟨s, hs, h⟩ := h
  rw [← Except.ok.inj h]
  exact computeSpectrumDigest_incremental hb.notFull hd
    (processSpectrumEvents_stamped b.events hb.ticks _ hs)

theorem runSpectrumBatches_digested (bs : List SpectrumBatch) (hbs : ∀ b ∈ bs, b.InWindow) :
    ∀ {st st' : SpectrumState}, st.Digested K depth →
      runSpectrumBatches K depth bs st = .ok st' → st'.Digested K depth := by
  induction bs with
  | nil =>
      intro st st' hd h
      rw [← Except.ok.inj h]
      exact hd
  | cons b bs ih =>
      intro st st' hd h
      rw [runSpectrumBatches, bind_eq_ok] at h
      obtain ⟨st₁, h₁, h₂⟩ := h
      exact ih (fun b' hb' => hbs b' (by simp [hb']))
        (runSpectrumBatch_digested (hbs b (by simp)) hd h₁).1 h₂

theorem runSpectrumBatches_append (bs : List SpectrumBatch) (b : SpectrumBatch) :
    ∀ st, runSpectrumBatches K depth (bs ++ [b]) st
      = runSpectrumBatches K depth bs st >>= runSpectrumBatch K depth b := by
  induction bs with
  | nil =>
      intro st
      show (runSpectrumBatch K depth b st >>= fun st => pure st) = runSpectrumBatch K depth b st
      cases runSpectrumBatch K depth b st <;> rfl
  | cons b' bs ih =>
      intro st
      show (runSpectrumBatch K depth b' st >>= fun st => runSpectrumBatches K depth (bs ++ [b]) st)
        = (runSpectrumBatch K depth b' st >>= fun st => runSpectrumBatches K depth bs st)
          >>= runSpectrumBatch K depth b
      cases runSpectrumBatch K depth b' st with
      | error e => rfl
      | ok st₁ => exact ih st₁

/-- **Incremental equals full.** Start from a spectrum with a valid digest tree and process any
sequence of batches, each with its events' ticks in its own window and followed by the incremental
digest of that window. After every batch the tree is the one the full mode computes from the same
spectrum, whatever digests and flags it starts with, and no change flag is left. -/
theorem spectrumDigest_incremental_eq_full (hdepth : 6 ≤ depth) {st st' : SpectrumState}
    (hd : st.Digested K depth) (bs : List SpectrumBatch) (b : SpectrumBatch)
    (hbs : ∀ x ∈ bs ++ [b], x.InWindow)
    (h : runSpectrumBatches K depth (bs ++ [b]) st = .ok st') :
    (∀ (full : SpectrumState) (tickEnd : BitVec 32), full.spectrum = st'.spectrum →
        ∀ x, x < 2 * 2 ^ depth - 1 →
          st'.spectrumDigests x
            = (computeSpectrumDigest K depth UINT32_MAX tickEnd full).spectrumDigests x) ∧
      ∀ w, w < 2 ^ depth / 64 → st'.spectrumChangeFlags w = 0#64 := by
  rw [runSpectrumBatches_append, bind_eq_ok] at h
  obtain ⟨st₁, h₁, h₂⟩ := h
  have hd₁ := runSpectrumBatches_digested bs (fun x hx => hbs x (by simp [hx])) hd h₁
  obtain ⟨hd₂, hclear⟩ := runSpectrumBatch_digested (hbs b (by simp)) hd₁ h₂
  constructor
  · intro full tickEnd hsp
    have hfull := @computeSpectrumDigest_full K depth tickEnd full
    refine Valid.unique _ hd₂.valid hfull.valid ?_
    intro j hj
    rw [hd₂.leaves j hj, hfull.leaves j hj, computeSpectrumDigest_spectrum, hsp]
  · intro w hw
    apply BitWords.word_eq_zero
    intro o ho
    have hdvd : 64 ∣ 2 ^ depth := pow_dvd_pow 2 hdepth
    exact hclear _ (by omega)

/-- The theorem at 64 slots and a batch with a mint, a transfer, a dividend window and a burn. -/
theorem spectrumDigest_incremental_eq_full_at_four_events :
    let K : KangarooTwelve := ⟨fun _ => 0, fun _ => 0⟩
    let event (src dst : m256i) (amount : BitVec 64) : LogEvent :=
      LogEvent.pack 150 6 QU_TRANSFER 0 0 (QuTransfer.bytes ⟨src, dst, amount⟩)
    let batch : SpectrumBatch := ⟨5, 7,
      [.quTransfer (event 0 1 100), .quTransfer (event 1 2 30),
        .distributeDividends [event 2 1 5, event 2 65 5],
        .quBurn (LogEvent.pack 150 7 BURNING 0 0 (leBytes 32 (65 : m256i) ++ leBytes 12 (3 : BitVec 96)))]⟩
    ∃ st', runSpectrumBatches K 6 ([] ++ [batch])
        ⟨fun _ => EntityRecord.empty, fun _ => 0, fun _ => 0⟩ = .ok st' ∧
      ∀ w, w < 2 ^ 6 / 64 → st'.spectrumChangeFlags w = 0#64 := by
  intro K event batch
  obtain ⟨st', h⟩ := exists_ok_of_isOk (x := runSpectrumBatches K 6 ([] ++ [batch])
    ⟨fun _ => EntityRecord.empty, fun _ => 0, fun _ => 0⟩) (by decide +kernel)
  have hin : ∀ x ∈ [] ++ [batch], x.InWindow := by
    intro x hx
    have hxb : x = batch := by simpa using hx
    subst hxb
    exact ⟨by decide, by decide +kernel⟩
  exact ⟨st', h, (spectrumDigest_incremental_eq_full (K := K) (by decide)
    ⟨fun _ _ => rfl, fun _ _ => rfl⟩ [] batch hin h).2⟩

end Digest

end QubicBob
