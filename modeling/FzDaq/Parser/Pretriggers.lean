import FzDaq.Parser.Sections

/-!
# The pretrigger of a section

In the basic format a section has room for a pretrigger from its header on, in the tag
format from the tag that opens its waveform on. It is set by one word, and a section may
end before that word.
-/

namespace FzDaq.Parser

open Machine

/-- The field `pretrig` of the waveform, if there is one. -/
def FzData.pretrig? (D : FzData) : Option (Option UInt32) := D.waveform.map (·.pretrig)

namespace Fsm

variable {E : Env} {s u c d : Fsm} {w : Word} {bs : List FzBlock} {b : FzBlock} {r : FzFee}
  {h : FzHit} {D : FzData} {ch : Chunk}

/-- The waveform of the section has its pretrigger. -/
def Pretriggered (c : Fsm) : Prop :=
  ∃ wf, c.openData.waveform = some wf ∧ wf.pretrig.isSome = true

/-! ## Tag format -/

theorem pretriggered_tag (hE : E.Carries ch) (hf : E.evformat = .tag)
    (hc : E.loop.Visits (E.entry s) c) (hs : c.stateId = .s5) :
    InSection E s (fun c => ∃ w, c.ReadsRecord E w TAG_PRETRIGGER ∨ c.ReadsPretrig E w) c ↔
      c.Pretriggered := by
  refine inSection_iff (Q := Pretriggered) hc hs fun b c hb hnext hs => ?_
  have hnever (w : Word) : ¬ b.ReadsPretrig E w := fun h => by cases hf.symm.trans h.evformat
  have hstay {wf : Waveform} (hwf : b.openData.waveform = some wf)
      (hpre : wf.pretrig.isSome = true) : b.stateId = .s5 ∧ b.Pretriggered :=
    ⟨stateId_of_waveform hE hf hb hnext hs hwf, wf, hwf, hpre⟩
  have hkeep (hnot : ∀ w, ¬ b.ReadsRecord E w TAG_PRETRIGGER)
      (hsame : c.Pretriggered ↔ b.Pretriggered) :
      c.Pretriggered ↔ (∃ w, b.ReadsRecord E w TAG_PRETRIGGER ∨ b.ReadsPretrig E w) ∨
        b.stateId = .s5 ∧ b.Pretriggered := by
    rw [hsame]
    constructor
    · rintro ⟨wf, hwf, hpre⟩
      exact .inr (hstay hwf hpre)
    · rintro (⟨w, hread | hread⟩ | ⟨_, hpre⟩)
      · exact absurd hread (hnot w)
      · exact absurd hread (hnever w)
      · exact hpre
  cases next_waveformTurn hE hf hb hnext hs with
  | same _ _ hnot hafter => exact hkeep hnot (by rw [Pretriggered, hafter, Pretriggered])
  | tag w htag hafter =>
      refine hkeep (fun x hx => hx.not_tag htag) ?_
      rw [Pretriggered, hafter, waveform_tagData, Pretriggered]
      split
      · rename_i hopens
        simp [hopens.2]
      · rfl
  | pretrig w hread wf _ hafter => exact ⟨fun _ => .inl ⟨w, .inl hread⟩, fun _ => ⟨_, hafter, rfl⟩⟩
  | samples w hread wf xs bad hbefore hafter =>
      refine hkeep (fun x hx => ?_) ?_
      · obtain ⟨rfl, _⟩ := hread.takes.unique hx.takes
        exact absurd (hread.tag.symm.trans hx.tag) (by decide)
      · rw [Pretriggered, hafter, Pretriggered, hbefore]
        simp

/-! ## Basic format -/

theorem pretriggered_congr (h : d.openData.pretrig? = c.openData.pretrig?) :
    d.Pretriggered ↔ c.Pretriggered := by
  have hdef (c : Fsm) : c.Pretriggered ↔ ∃ p, c.openData.pretrig? = some (some p) := by
    unfold Pretriggered FzData.pretrig?
    cases c.openData.waveform with
    | none => simp
    | some wf => simp [Option.isSome_iff_exists]
  rw [hdef, hdef, h]

theorem pretrig?_onEn (s : Fsm) (f : Energy → Energy) :
    (s.onEn f).openData.pretrig? = s.openData.pretrig? :=
  FzEvent.getData_modData_proj FzData.pretrig? s.ev s.en s.d
    (f := fun D => { D with energy := D.energy.map f }) fun _ => rfl

theorem pretrig?_onWf (s : Fsm) {f : Waveform → Waveform}
    (hf : ∀ wf, (f wf).pretrig = wf.pretrig) :
    (s.onWf f).openData.pretrig? = s.openData.pretrig? :=
  FzEvent.getData_modData_proj FzData.pretrig? s.ev s.wf s.d
    (f := fun D => { D with waveform := D.waveform.map f })
    fun D => by cases hwf : D.waveform <;> simp [FzData.pretrig?, hwf, hf]

theorem pretrig?_gathered (s : Fsm) (ws : List Word) :
    (s.gathered ws).stepBack.openData.pretrig? = s.openData.pretrig? := by
  rw [gathered_eq]
  exact pretrig?_onWf s fun _ => rfl

theorem pretrig?_waveformByCount (hu : s.waveformByCount E w = some u) :
    u.openData.pretrig? = s.openData.pretrig? := by
  rcases waveformByCount_eq_some hu with ⟨_, rfl⟩ | ⟨_, _, ws, _, _, rfl⟩ |
    ⟨_, _, t, ws, hsine, _, _, rfl⟩
  · rfl
  · exact pretrig?_gathered s.restoreCrc ws
  · obtain ⟨w0, w1, w2, w3, w4, w5, _, rfl⟩ := readSineCosine_eq_some.1 hsine
    rw [pretrig?_gathered]
    exact FzEvent.getData_modData_proj FzData.pretrig? s.ev s.d s.d
      (f := fun D => { D with sine := some (adcOf w0 w1 w2), cosine := some (adcOf w3 w4 w5) })
      fun _ => rfl

theorem pretrig?_waveformByData (hpre : s.pretrigDone = true)
    (hu : s.waveformByData E w = some u) : u.openData.pretrig? = s.openData.pretrig? := by
  rcases waveformByData_eq_some hu with ⟨hnot, _⟩ | ⟨_, rfl⟩ | ⟨_, _, ws, _, _, _, _, _, rfl⟩
  · exact absurd (hpre.symm.trans hnot) (by decide)
  · rfl
  · exact pretrig?_gathered s.restoreCrc ws

theorem AtData.pretriggered_onWf (ha : s.AtData bs b r h D) (hsec : s.Section E D)
    (hf : E.evformat = .basic) (p : UInt32) :
    (s.onWf fun wf => { wf with pretrig := some p }).Pretriggered := by
  obtain ⟨wf, hwf⟩ := Option.isSome_iff_exists.1 (hsec.basic hf).1
  obtain ⟨hat, _⟩ := ha.fillWf hsec (hsec.basic hf).1 fun wf => { wf with pretrig := some p }
  exact ⟨_, (congrArg FzData.waveform hat.openData).trans (by rw [hwf]; rfl), rfl⟩

/-- A turn of the basic format reads the pretrigger and sets it, or it does neither. -/
theorem AtData.trans08Basic_pretrig (ha : c.AtData bs b r h D) (hsec : c.Section E D)
    (hf : E.evformat = .basic) (htakes : c.Takes E w .t08) (hu : c.trans08Basic E w = some u) :
    c.ReadsPretrig E w ∧ u.Pretriggered ∨
      ¬ c.ReadsPretrig E w ∧ u.openData.pretrig? = c.openData.pretrig? := by
  have hnot (hno : ¬ (c.dType.hasEnergy = true ∧ c.energy1Done = true ∧
      (c.dType = .Q3 → c.energy2Done = true) ∧ c.pretrigDone = false)) : ¬ c.ReadsPretrig E w := by
    intro hread
    rcases hread.takes with ⟨h, _⟩ | ⟨_, h⟩
    · cases (htakes.unique h).2
    · exact hno h
  rw [trans08Basic_eq] at hu
  split_ifs at hu with henergy hfirst hsecond
  · obtain ⟨f, _, rfl⟩ := lowEnergy1_eq_some hu
    exact .inr ⟨hnot fun h => by simp [h.2.1] at hfirst, pretrig?_onEn _ f⟩
  · obtain ⟨f, _, _, rfl⟩ := energy2_eq_some hu
    exact .inr ⟨hnot fun h => by simp [h.2.2.1 hsecond.1] at hsecond, pretrig?_onEn _ f⟩
  · have hdone : c.energy1Done = true := by simpa using hfirst
    have hdone' : c.dType = .Q3 → c.energy2Done = true := by simpa using hsecond
    cases hpre : c.pretrigDone with
    | true =>
        have hsame := pretrig?_waveformByData (s := (c.updateBlk w).updateFee w) hpre hu
        exact .inr ⟨hnot fun h => absurd (hpre.symm.trans h.2.2.2) (by decide), hsame⟩
    | false =>
        rw [waveformByData, if_pos (by change (!c.pretrigDone) = true; rw [hpre]; rfl)] at hu
        cases hu
        have hset := AtData.pretriggered_onWf (s := (c.updateBlk w).updateFee w) ha hsec hf
          w.toUInt32
        exact .inl ⟨⟨hf, .inr ⟨htakes, henergy, hdone, hdone', hpre⟩⟩, hset⟩
  · have hsame := pretrig?_waveformByCount hu
    exact .inr ⟨hnot fun h => henergy h.1, hsame⟩

theorem AtData.trans07Basic_pretrig (ha : c.AtData bs b r h D) (hsec : c.Section E D)
    (hf : E.evformat = .basic) (htakes : c.Takes E w .t07) :
    c.ReadsPretrig E w ∧ (c.trans07Basic w).Pretriggered ∨
      ¬ c.ReadsPretrig E w ∧ (c.trans07Basic w).openData.pretrig? = c.openData.pretrig? := by
  let v := ({ c with
    energy1Done := false
    energy2Done := false
    pretrigDone := false
    wflenDone := false
    rdWflen := 0 }.updateBlk w).updateFee w
  cases henergy : c.dType.hasEnergy with
  | true =>
      have hsame : (v.addValue w.toUInt32).openData.pretrig? = c.openData.pretrig? :=
        pretrig?_onEn v _
      rw [trans07Basic_eq, henergy]
      refine .inr ⟨fun hread => ?_, hsame⟩
      rcases hread.takes with ⟨_, h⟩ | ⟨h, _⟩
      · exact absurd (henergy.symm.trans h) (by decide)
      · cases (htakes.unique h).2
  | false =>
      have hset := AtData.pretriggered_onWf (s := v) ha hsec hf w.toUInt32
      rw [trans07Basic_eq, henergy]
      exact .inl ⟨⟨hf, .inl ⟨htakes, henergy⟩⟩, hset⟩

theorem pretriggered_basic (hE : E.Carries ch) (hf : E.evformat = .basic)
    (hc : E.loop.Visits (E.entry s) c) (hs : c.stateId = .s5) :
    InSection E s (fun c => ∃ w, c.ReadsRecord E w TAG_PRETRIGGER ∨ c.ReadsPretrig E w) c ↔
      c.Pretriggered := by
  refine inSection_iff (Q := Pretriggered) hc hs fun b c hb hnext hs => ?_
  have hnever (w : Word) : ¬ b.ReadsRecord E w TAG_PRETRIGGER :=
    fun h => by cases hf.symm.trans h.evformat
  obtain ⟨σ, ha⟩ := visits_at hE hb
  have hturn {w : Word} {tr : Trans} {u : Fsm} (htakes : b.Takes E w tr)
      (hor : b.ReadsPretrig E w ∧ u.Pretriggered ∨
        ¬ b.ReadsPretrig E w ∧ u.openData.pretrig? = b.openData.pretrig?)
      (hstay : b.Pretriggered → b.stateId = .s5) :
      u.Pretriggered ↔ (∃ w, b.ReadsRecord E w TAG_PRETRIGGER ∨ b.ReadsPretrig E w) ∨
        b.stateId = .s5 ∧ b.Pretriggered := by
    rcases hor with ⟨hread, hset⟩ | ⟨hnot, hsame⟩
    · exact ⟨fun _ => .inl ⟨w, .inr hread⟩, fun _ => hset⟩
    · rw [pretriggered_congr hsame]
      constructor
      · intro hpre
        exact .inr ⟨hstay hpre, hpre⟩
      · rintro (⟨x, hread | hread⟩ | ⟨_, hpre⟩)
        · exact absurd hread (hnever x)
        · have hword : x = w := by
            rcases hread.takes with ⟨h, _⟩ | ⟨h, _⟩ <;> exact (htakes.unique h).1
          exact absurd (hword ▸ hread) hnot
        · exact hpre
  rcases next_inSection hnext hs with ⟨hskip, hs', rfl⟩ | ⟨w, u, htakes, hfires, rfl⟩ |
    ⟨w, u, htakes, hfires, rfl⟩
  · refine ⟨fun hpre => .inr ⟨hs', hpre⟩, ?_⟩
    rintro (⟨x, hread | hread⟩ | ⟨_, hpre⟩)
    · exact absurd hread (hnever x)
    · rcases hread.takes with ⟨h, _⟩ | ⟨h, _⟩ <;> exact absurd h hskip.not_takes
    · exact hpre
  · have hstate := (ttable_eq htakes.2.2).1
    cases hfires with
    | t07Basic =>
        obtain ⟨bs, b', r, h, D, rfl, hat, hsec, _⟩ := ha.of_data (.inl hstate)
        refine hturn htakes (hat.trans07Basic_pretrig hsec hf htakes) fun ⟨wf, hwf, hpre⟩ => ?_
        obtain ⟨t, enError, hdata⟩ := openData_of_s4 hE hb hstate
        rw [hdata, hf] at hwf
        cases hwf
        cases hpre
    | t07Tag hf' => cases hf.symm.trans hf'
  · have hstate := (ttable_eq htakes.2.2).1
    cases hfires with
    | t08Basic _ hu =>
        obtain ⟨bs, b', r, h, D, rfl, hat, hsec, _⟩ := ha.of_data (.inr hstate)
        have hor := hat.trans08Basic_pretrig hsec hf htakes hu
        exact hturn htakes hor fun _ => hstate
    | t08Tag hf' => cases hf.symm.trans hf'

/-! ## Both formats -/

/-- In S5 a waveform has its pretrigger exactly if that has been read in the section. -/
theorem pretrigRead_iff (hE : E.Carries ch) (hc : E.loop.Visits (E.entry s) c)
    (hs : c.stateId = .s5) :
    PretrigRead E s c ↔ c.openData.waveform.all (·.pretrig.isSome) = true := by
  cases hf : E.evformat with
  | basic =>
      have hopened : WaveformOpened E s c := fun htag => by cases hf.symm.trans htag
      rw [PretrigRead, forall_prop_of_true hopened, pretriggered_basic hE hf hc hs]
      obtain ⟨σ, ha⟩ := visits_at hE hc
      obtain ⟨bs, b, r, h, D, rfl, hat, hsec, _⟩ := ha.of_data (.inr hs)
      obtain ⟨wf, hwf⟩ := Option.isSome_iff_exists.1 (hsec.basic hf).1
      simp [Pretriggered, hat.openData, hwf]
  | tag =>
      rw [PretrigRead, waveformOpened_iff hE hf hc hs, pretriggered_tag hE hf hc hs]
      unfold Pretriggered
      cases hwf : c.openData.waveform with
      | none => simp
      | some wf => simp

end Fsm

end FzDaq.Parser
