import FzDaq.Parser.Numbers
import FzDaq.Parser.Stage
import FzDaq.Parser.Walk

/-!
# Sine and cosine of ADC data

Each is sent as three words that make a number of 37 bits in two's complement. It
is put together in an `int`, which has 32.
-/

namespace FzDaq.Parser

open Machine

namespace Fsm

variable {E : Env} {s t : Fsm} {w : Word} {bs : List FzBlock} {b : FzBlock} {r : FzFee}
  {h : FzHit} {d : FzData}

/-! ## The turn behind the length word -/

theorem AtData.sineCosineGathered (ha : s.AtData bs b r h d) (hsec : s.Section E d)
    (hsome : d.waveform.isSome) (w0 w1 w2 w3 w4 w5 : Word) (ws : List Word) :
    ((s.sineCosineRead w0 w1 w2 w3 w4 w5).gathered ws).stepBack.AtData bs b r h
      { d with
        sine := some (adcOf w0 w1 w2)
        cosine := some (adcOf w3 w4 w5)
        waveform := d.waveform.map fun wf =>
          { wf with sample := wf.sample ++ ws.map (·.toNat) } } := by
  rw [gathered_eq]
  exact AtData.onWf (s := s.sineCosineRead w0 w1 w2 w3 w4 w5)
    (ha.sineCosineRead hsec w0 w1 w2 w3 w4 w5).1 (hsec.wf hsome) _

/-- From `c` to `d` the six words are decoded and counted, and the words `ws` behind them
are the samples. -/
structure Decodes (c d : Fsm) (a0 a1 a2 a3 a4 a5 : Word) (ws : List Word) : Prop where
  sine : (d.ev.getData c.d).sine.map Int64.toInt = some (adcValue a0 a1 a2)
  cosine : (d.ev.getData c.d).cosine.map Int64.toInt = some (adcValue a3 a4 a5)
  blklen : d.blklen = c.blklen + (6 + ws.length)
  feelen : d.feelen = c.feelen + (6 + ws.length)
  sample : ((d.ev.getData c.d).waveform.getD {}).sample =
    ((c.ev.getData c.d).waveform.getD {}).sample ++ ws.map (·.toNat)

variable {c : Fsm} {a0 a1 a2 a3 a4 a5 : Word}

theorem trans08Basic_adc (hadc : c.dType = .ADC) (hlen : c.wflenDone = true)
    (hsix : E.Reads c.eventIndex [a0, a1, a2, a3, a4, a5]) (hu : c.trans08Basic E w = some t) :
    ∃ ws, ws.length = c.rdWflen.toNat ∧ E.Reads (c.eventIndex + 6) ws ∧
      t = (((((c.updateBlk w).updateFee w).restoreCrc.sineCosineRead a0 a1 a2 a3 a4 a5).gathered
        ws).stepBack) := by
  rw [trans08Basic_eq_count (by rw [hadc]; rfl)] at hu
  rcases waveformByCount_eq_some hu with ⟨hnot, _⟩ | ⟨_, hnot, _⟩ |
    ⟨_, _, u, ws, hsine, hws, hreads, rfl⟩
  · rw [show ((c.updateBlk w).updateFee w).wflenDone = true from hlen] at hnot
    cases hnot
  · exact absurd hadc hnot
  · obtain ⟨w0, w1, w2, w3, w4, w5, hread, rfl⟩ := readSineCosine_eq_some.1 hsine
    have hsame := hread.unique hsix rfl
    simp only [List.cons.injEq, and_true] at hsame
    obtain ⟨rfl, rfl, rfl, rfl, rfl, rfl⟩ := hsame
    exact ⟨ws, hws, hreads, rfl⟩

theorem decodes_iff {ws : List Word} (ha : c.AtData bs b r h d) (hsec : c.Section E d)
    (hsome : d.waveform.isSome) (hdata : ∀ a ∈ [a0, a1, a2, a3, a4, a5], a ≤ 0x7FFF) :
    c.Decodes { (((((c.updateBlk w).updateFee w).restoreCrc.sineCosineRead
        a0 a1 a2 a3 a4 a5).gathered ws).stepBack) with stateId := .s5 }.advance
        a0 a1 a2 a3 a4 a5 ws ↔ a0.toNat < 512 ∧ a3.toNat < 512 := by
  have hlt (a : Word) (ha : a ∈ [a0, a1, a2, a3, a4, a5]) : a.toNat < 2 ^ 15 :=
    Nat.lt_succ_of_le (UInt16.le_iff_toNat_le.1 (hdata a ha))
  have hsine : (adcOf a0 a1 a2).toInt = adcValue a0 a1 a2 ↔ a0.toNat < 512 :=
    adcOf_eq_iff (hlt a0 (by simp)) (hlt a1 (by simp)) (hlt a2 (by simp))
  have hcosine : (adcOf a3 a4 a5).toInt = adcValue a3 a4 a5 ↔ a3.toNat < 512 :=
    adcOf_eq_iff (hlt a3 (by simp)) (hlt a4 (by simp)) (hlt a5 (by simp))
  have hat := AtData.sineCosineGathered (s := ((c.updateBlk w).updateFee w).restoreCrc) ha hsec
    hsome a0 a1 a2 a3 a4 a5 ws
  rw [gathered_eq] at hat ⊢
  have hget := hat.getData
  obtain ⟨wf, hwaveform⟩ := Option.isSome_iff_exists.1 hsome
  rw [← hsine, ← hcosine]
  constructor
  · intro hdecodes
    have hfirst := hdecodes.sine
    have hsecond := hdecodes.cosine
    constructor
    · exact Option.some.inj ((congrArg (·.sine.map Int64.toInt) hget).symm.trans hfirst)
    · exact Option.some.inj ((congrArg (·.cosine.map Int64.toInt) hget).symm.trans hsecond)
  · rintro ⟨hfirst, hsecond⟩
    refine ⟨?_, ?_, ?_, ?_, ?_⟩
    · exact (congrArg (·.sine.map Int64.toInt) hget).trans (congrArg some hfirst)
    · exact (congrArg (·.cosine.map Int64.toInt) hget).trans (congrArg some hsecond)
    · change c.blklen + 1 + 6 + ws.length - 1 = c.blklen + (6 + ws.length)
      omega
    · change c.feelen + 1 + 6 + ws.length - 1 = c.feelen + (6 + ws.length)
      omega
    · refine (congrArg (fun d => (d.waveform.getD {}).sample) hget).trans ?_
      rw [ha.getData, hwaveform]
      rfl

/-- In every call the six words behind the length word of an ADC section are decoded as
they should be exactly if sine and cosine fit in an `int`. -/
theorem sineCosine_iff {ch : Chunk} (hE : E.Carries ch) (hf : E.evformat = .basic)
    (hc : E.loop.Visits (E.entry s) c) (htakes : c.Takes E a0 .t08) (hadc : c.dType = .ADC)
    (hlen : c.wflenDone = true) (hsix : E.Reads c.eventIndex [a0, a1, a2, a3, a4, a5])
    (hdata : ∀ a ∈ [a0, a1, a2, a3, a4, a5], a ≤ 0x7FFF) (hnext : E.loop.Next c t) :
    ∃ ws, ws.length = c.rdWflen.toNat ∧ E.Reads (c.eventIndex + 6) ws ∧
      (c.Decodes t a0 a1 a2 a3 a4 a5 ws ↔ a0.toNat < 512 ∧ a3.toNat < 512) := by
  obtain ⟨_, ⟨hskip, _⟩ | ⟨x, tr, v, htakes', hfires, rfl⟩⟩ := next_cases hnext
  · exact absurd htakes hskip.not_takes
  obtain ⟨rfl, rfl⟩ := htakes'.unique htakes
  cases hfires with
  | t08Tag htag => rw [hf] at htag; cases htag
  | t08Basic _ hu =>
      obtain ⟨ws, hws, hreads, rfl⟩ := trans08Basic_adc hadc hlen hsix hu
      refine ⟨ws, hws, hreads, ?_⟩
      obtain ⟨σ, ha⟩ := visits_at hE hc
      obtain ⟨bs, b, r, h, d, rfl, hat, hsec, _⟩ := ha.of_data (.inr (ttable_eq htakes.2.2).1)
      have hsome := (hsec.basic hf).1
      exact decodes_iff hat hsec hsome hdata

/-- An ADC section with one sample. -/
def adcSample : Chunk where
  body := [0xE001, 0x9800, 1, 2, 0x901E, 7, 1, 511, 1, 0x100, 511, 0, 0, 9, 0xA00F]
  regid := 0xC800
  regid_id := getwordId_c800
  body_id := Chunk.ne_regid_of_all rfl

def adcEnv : Env := adcSample.env .basic .zero

/-- `sineCosine_iff` at the highest first words that fit. -/
theorem adcSample_decodes : ∃ c t ws, adcEnv.loop.Visits (adcEnv.entry {}) c ∧
    adcEnv.loop.Next c t ∧ ws.length = 1 ∧ c.Decodes t 511 1 0x100 511 0 0 ws := by
  obtain ⟨c, t, hrun, hbody, hadc, hlen, hcount, hidx, hst⟩ : ∃ c t,
      adcEnv.loop.run 7 (adcEnv.entry {}) = .running c ∧ adcEnv.loop.body c = some t ∧
      c.dType = .ADC ∧ c.wflenDone = true ∧ c.rdWflen = 1 ∧ c.eventIndex = 7 ∧ c.stateId = .s5 :=
    ⟨_, _, rfl, rfl, rfl, rfl, rfl, rfl, rfl⟩
  have hc := Loop.visits_of_run hrun
  have hsix : adcEnv.Reads c.eventIndex [511, 1, 0x100, 511, 0, 0] := by
    rw [hidx]
    exact ⟨rfl, rfl, rfl, rfl, rfl, rfl, trivial⟩
  have htakes : c.Takes adcEnv 511 .t08 := ⟨hsix.1, by decide, by rw [hst]; rfl⟩
  obtain ⟨ws, hws, -, hiff⟩ := sineCosine_iff (adcSample.env_carries .basic .zero) rfl hc htakes
    hadc hlen hsix (by simp) ⟨hc.2, hbody⟩
  rw [hcount] at hws
  exact ⟨c, t, ws, hc, ⟨hc.2, hbody⟩, hws, hiff.2 ⟨by decide, by decide⟩⟩

/-- The same section with the next sine. -/
def adcWide : Chunk where
  body := [0xE001, 0x9800, 1, 2, 0x901E, 7, 1, 512, 1, 0x100, 511, 0, 0, 9, 0xA00F]
  regid := 0xC800
  regid_id := getwordId_c800
  body_id := Chunk.ne_regid_of_all rfl

/-- The sine 2147483777 is stored as a negative number. -/
theorem adcWide_sine : ∃ c t,
    (adcWide.env .basic .zero).loop.run 7 ((adcWide.env .basic .zero).entry {}) = .running c ∧
      (adcWide.env .basic .zero).loop.body c = some t ∧ c.dType = .ADC ∧ c.wflenDone = true ∧
      (t.ev.getData c.d).sine.map Int64.toInt = some (-139586436991) ∧
      adcValue 512 1 0x100 = 2147483777 :=
  ⟨_, _, rfl, rfl, rfl, rfl, by decide, by decide⟩

end Fsm

end FzDaq.Parser
