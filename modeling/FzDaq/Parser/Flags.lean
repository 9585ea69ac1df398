import FzDaq.Parser.Sections

/-!
# The good verdict and the error flags

An event is counted as good when `err_in_event` was never raised. Every flag of
blocks, fees and energies that stays raised has raised it; the waveform of a
section in the tag format is checked by its WAVEFORM record only, so a section
that opened a waveform and never read it carries a raised flag into a good event.
-/

namespace FzDaq.Parser

open Machine

/-! ## Events without a raised flag -/

def FzData.isClean (d : FzData) : Bool :=
  d.type != some .UNKDT && d.energy.all (·.lenError == some false) &&
    d.waveform.all (·.lenError == some false)

def FzHit.isClean (h : FzHit) : Bool := h.data.all FzData.isClean

def FzFee.isClean (r : FzFee) : Bool :=
  r.lenError == some false && r.crcError == some false && r.hit.all FzHit.isClean

def FzBlock.isClean (b : FzBlock) : Bool :=
  b.lenError == some false && b.crcError == some false && b.fee.all FzFee.isClean

/-- No flag `len_error` or `crc_error` is raised and no data is of an unknown type. -/
def FzEvent.isClean (e : FzEvent) : Bool := e.block.all FzBlock.isClean

/-- What holds of the data message of an open section while `err_in_event` is down. -/
structure FzData.Calm (fmt : Format) (d : FzData) : Prop where
  type : d.type ≠ some .UNKDT
  en : fmt = .tag → ∀ flag, d.enFlag = some flag → flag = some false

namespace FzData

variable {d d' : FzData} {fmt : Format}

theorem Calm.filled (hd : d.Calm fmt) (hfill : d.Filled d') : d'.Calm fmt := by
  refine ⟨hfill.type ▸ hd.type, fun hf flag hflag => ?_⟩
  rcases hfill.en with hen | hen
  · exact hd.en hf flag (hen ▸ hflag)
  · rw [hen, Option.some.injEq] at hflag
    exact hflag.symm

theorem sectionData_calm {t : FzDataType} (ht : t ≠ .UNKDT) (enError : Bool) :
    (sectionData fmt t enError).Calm fmt := by
  cases fmt with
  | basic => exact ⟨by simpa [sectionData] using ht, by simp⟩
  | tag => exact ⟨by simpa [sectionData] using ht, by simp [sectionData, enFlag]⟩

/-- A section that ends without raising `err_in_event`. In the tag format its
waveform must have been verified. -/
theorem Calm.closed (hd : d.Calm fmt) (hclose : d.Closed fmt d' false)
    (hwf : fmt = .tag → d.waveform.all (·.lenError == some false)) : d'.isClean = true := by
  cases fmt with
  | tag =>
      obtain rfl : d' = d := hclose
      have hen := hd.en rfl
      have htype := hd.type
      have hwf := hwf rfl
      unfold isClean
      cases hE : d'.energy <;> simp_all [enFlag]
  | basic =>
      obtain ⟨htype, _, ⟨bad, hwf', hbad⟩, hen⟩ := (hclose : d.Judged d' false)
      have hnot := hd.type
      have hen' : d'.energy.all (·.lenError == some false) := by
        rcases hen with hnone | ⟨bad', hen, hbad'⟩ <;> cases hE : d'.energy <;> simp_all [enFlag]
      unfold isClean
      cases hW : d'.waveform <;> simp_all [wfFlag]

end FzData

namespace Fsm

variable {E : Env} {s t r : Fsm} {ch : Chunk} {fuel : Nat}

/-- The waveform that is being filled has been verified, if there is one at all. -/
def waveformVerified (c : Fsm) : Bool := c.openData.waveform.all (·.lenError == some false)

/-- What a section of the tag format must meet for the flags to agree with the verdict:
the waveform it has opened has been read, or the event is known to be bad. -/
def Verified (E : Env) (s c : Fsm) : Prop :=
  E.evformat = .tag → c.errInEvent = false → WaveformRead E s c

/-- While `err_in_event` is down no flag of a closed part is raised. -/
def Calm (E : Env) (s : Fsm) (σ : Site) : Prop :=
  s.errInEvent = false →
    match σ with
    | .none => True
    | .blk bs b => (∀ x ∈ bs, FzBlock.isClean x = true) ∧ ∀ x ∈ b.fee, FzFee.isClean x = true
    | .hit bs b r h => (∀ x ∈ bs, FzBlock.isClean x = true) ∧
        (∀ x ∈ b.fee, FzFee.isClean x = true) ∧ (∀ x ∈ r.hit, FzHit.isClean x = true) ∧
        h.isClean = true
    | .data bs b r h d => (∀ x ∈ bs, FzBlock.isClean x = true) ∧
        (∀ x ∈ b.fee, FzFee.isClean x = true) ∧ (∀ x ∈ r.hit, FzHit.isClean x = true) ∧
        h.isClean = true ∧ d.Calm E.evformat
    | .fee bs b r => (∀ x ∈ bs, FzBlock.isClean x = true) ∧
        (∀ x ∈ b.fee, FzFee.isClean x = true) ∧ ∀ x ∈ r.hit, FzHit.isClean x = true
    | .done bs => ∀ x ∈ bs, FzBlock.isClean x = true

theorem Calm.advance {σ : Site} (hc : s.Calm E σ) : s.advance.Calm E σ := hc

theorem FzHit.isClean_addData {h : FzHit} {d : FzData} (hh : h.isClean = true)
    (hd : d.isClean = true) : (h.addData d).isClean = true := by
  simp_all [FzHit.isClean, FzHit.addData]

theorem Calm.step_data {w : Word} {tr : Trans} {σ' : Site} {bs b q h d}
    (hc : s.Calm E (.data bs b q h d)) (hσ : Site.Step E.evformat s t w tr (.data bs b q h d) σ')
    (hbefore : tr ≠ .notValid → s.errInEvent = false)
    (hturn : endsSection tr = true → E.evformat = .tag →
      d.waveform.all (·.lenError == some false)) :
    t.Calm E σ' := by
  intro herr
  cases hσ with
  | reset => trivial
  | t07 hfill | t08 hfill =>
      obtain ⟨hbs, hfees, hhits, hclean, hcalm⟩ := hc (hbefore (by decide))
      exact ⟨hbs, hfees, hhits, hclean, hcalm.filled hfill⟩
  | t09 hclose hunk =>
      obtain ⟨hbs, hfees, hhits, hclean, hcalm⟩ := hc (hbefore (by decide))
      have htype : sectionType w ≠ .UNKDT := fun h => by simp [hunk h] at herr
      rw [herr] at hclose
      have hdone := hcalm.closed hclose (hturn rfl)
      exact ⟨hbs, hfees, forall_mem_concat hhits (FzHit.isClean_addData hclean hdone), rfl,
        FzData.sectionData_calm htype true⟩
  | t10 hclose =>
      obtain ⟨hbs, hfees, hhits, hclean, hcalm⟩ := hc (hbefore (by decide))
      rw [herr] at hclose
      have hdone := hcalm.closed hclose (hturn rfl)
      exact ⟨hbs, hfees, forall_mem_concat hhits (FzHit.isClean_addData hclean hdone), rfl⟩
  | t11 hclose =>
      obtain ⟨hbs, hfees, hhits, hclean, hcalm⟩ := hc (hbefore (by decide))
      rw [herr] at hclose
      have hdone := hcalm.closed hclose (hturn rfl)
      exact ⟨hbs, hfees, forall_mem_concat hhits (FzHit.isClean_addData hclean hdone)⟩

/-- The step lemma: the flags stay down if at the end of a section its waveform has been
verified. -/
theorem Calm.step {w : Word} {tr : Trans} {σ σ' : Site} (hc : s.Calm E σ)
    (htakes : s.Takes E w tr) (hfires : Fires E s w tr t) (ha : s.At E σ)
    (hσ : Site.Step E.evformat s t w tr σ σ')
    (hturn : endsSection tr = true → E.evformat = .tag → s.errInEvent = false →
      s.waveformVerified = true) :
    t.Calm E σ' := by
  intro herr
  have hbefore (htr : tr ∉ [.notValid, .t02, .t13, .t17, .t18]) : s.errInEvent = false := by
    by_contra hs
    have := (hfires.frame htakes.1 htr).err (by simpa using hs)
    simp [herr] at this
  by_cases hdata : ∃ bs b q h d, σ = .data bs b q h d
  · obtain ⟨bs, b, q, h, d, rfl⟩ := hdata
    have hregid : tr ∉ [.t02, .t13, .t17, .t18] := by cases hσ <;> decide
    refine hc.step_data hσ (fun hreset => hbefore ?_) (fun hends hf => ?_) herr
    · simpa [hreset] using hregid
    · have hset := hturn hends hf (hbefore (by cases hσ <;> first | decide | cases hends))
      rwa [waveformVerified, openData, ha.getData] at hset
  cases hσ with
  | reset | t01 => trivial
  | t02 => simp [newBlk]
  | t03 =>
      obtain ⟨hbs, hfees⟩ := hc (hbefore (by decide))
      exact ⟨hbs, hfees, by simp [newFee], rfl⟩
  | t04 | t05Dettag | t05Trigpat => exact hc (hbefore (by decide))
  | t06 hunk =>
      obtain ⟨hbs, hfees, hhits, hclean⟩ := hc (hbefore (by decide))
      have htype : sectionType w ≠ .UNKDT := fun h => by simp [hunk h] at herr
      exact ⟨hbs, hfees, hhits, hclean, FzData.sectionData_calm htype false⟩
  | t07 | t08 | t09 | t10 | t11 => exact absurd ⟨_, _, _, _, _, rfl⟩ hdata
  | t12 lenBad crcBad hbad =>
      obtain ⟨hbs, hfees, hhits⟩ := hc (hbefore (by decide))
      obtain ⟨⟨_, rfl⟩, rfl⟩ : (s.errInEvent = false ∧ lenBad = false) ∧ crcBad = false := by
        simpa [herr] using hbad.symm
      exact ⟨hbs, forall_mem_concat hfees (List.all_eq_true.2 hhits)⟩
  | t13 =>
      cases hfires
      exact hc herr
  | t14 | t15 => exact hc (hbefore (by decide))
  | t16 lenBad crcBad hbad =>
      obtain ⟨hbs, hfees⟩ := hc (hbefore (by decide))
      obtain ⟨⟨_, rfl⟩, rfl⟩ : (s.errInEvent = false ∧ lenBad = false) ∧ crcBad = false := by
        simpa [herr] using hbad.symm
      exact forall_mem_concat hbs (List.all_eq_true.2 hfees)
  | t16Trigger => exact (hc (hbefore (by decide))).1
  | t17 =>
      cases hfires
      exact ⟨hc herr, by simp [newBlk]⟩

/-- A section ends in S5, and there the flag says what has been read. -/
theorem verified_iff (hE : E.Carries ch) {c : Fsm} (hc : E.loop.Visits (E.entry s) c)
    (hs : c.stateId = .s5) :
    Verified E s c ↔
      (E.evformat = .tag → c.errInEvent = false → c.waveformVerified = true) := by
  refine forall_congr' fun hf => forall_congr' fun herr => ?_
  exact waveformRead_iff hE hf hc hs herr

/-- A good event carries no raised flag, if every section of the tag format was
`Verified` when it ended. -/
theorem good_isClean (hE : E.Carries ch)
    (hturns : ∀ c w tr, E.loop.Visits (E.entry s) c → c.Takes E w tr → endsSection tr = true →
      Verified E s c)
    (hrun : s.parse E fuel = .ended r) (hgood : s.report.eventsGood < r.report.eventsGood) :
    r.ev.isClean = true := by
  obtain ⟨c, hc, htakes, herr, hev⟩ := good_verdict hE hrun hgood
  obtain ⟨σ, ha, hcalm⟩ := visits_site hE (Calm E) (fun _ => trivial) (fun _ _ _ _ hI => hI.advance)
    (fun c w tr _ _ _ hvisit htakes hfires _ ha hσ hI =>
      (hI.step htakes hfires ha hσ fun hends => (verified_iff hE hvisit
        (htakes.of_endsSection hends)).1 (hturns c w tr hvisit htakes hends)).advance) hc
  obtain rfl := ha.of_s10 htakes.stateId_s10
  rw [hev]
  exact List.all_eq_true.2 (hcalm herr)

/-- A section with a pretrigger and a waveform of two samples. -/
def sampled : Chunk where
  body := [0xE001, 0x9800, 1, 2, 3, 0x9000, 0x7004, 1, 9, 0x7005, 2, 5, 6, 0xA00D, 0xBE10,
    0xE001, 0xC001, 0xA013, 0xD710]
  regid := 0xC800
  regid_id := getwordId_c800
  body_id := Chunk.ne_regid_of_all rfl

/-- `good_isClean` on an event with a waveform. -/
theorem sampled_isClean :
    ∃ r, Fsm.parse (sampled.env .tag .zero) 20 {} = .ended r ∧ r.report.eventsGood = 1 ∧
      r.ev.isClean = true := by
  obtain ⟨r, hrun, hgood⟩ : ∃ r, Fsm.parse (sampled.env .tag .zero) 20 {} = .ended r ∧
      r.report.eventsGood = 1 := ⟨_, rfl, rfl⟩
  have hE := sampled.env_carries .tag .zero
  have hflags := takes_of_everyTurn (P := fun c _ tr => !endsSection tr || c.waveformVerified)
    hrun rfl
  refine ⟨r, hrun, hgood, good_isClean hE (fun c w tr hc htakes hends => ?_) hrun
    (by rw [hgood]; exact Nat.one_pos)⟩
  refine (verified_iff hE hc (htakes.of_endsSection hends)).2 fun _ _ => ?_
  have hset := hflags c w tr hc htakes
  rwa [hends] at hset

/-- The same section without its waveform record. -/
def pretrigOnly : Chunk where
  body := [0xE001, 0x9800, 1, 2, 3, 0x9000, 0x7004, 1, 9, 0xA009, 0xB950, 0xE001, 0xC001,
    0xA00F, 0xD5A0]
  regid := 0xC800
  regid_id := getwordId_c800
  body_id := Chunk.ne_regid_of_all rfl

/-- It is counted as good with the `len_error` of its waveform raised. -/
theorem pretrigOnly_not_isClean :
    ∃ r, Fsm.parse (pretrigOnly.env .tag .zero) 16 {} = .ended r ∧ r.report.eventsGood = 1 ∧
      r.ev.isClean = false :=
  ⟨_, rfl, rfl, rfl⟩

end Fsm

end FzDaq.Parser
