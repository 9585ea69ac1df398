import FzDaq.Parser.Stage

/-!
# The samples of an open section

What the turns of a section do to the waveform that is being filled: which words they
append to its samples, and with what verdict it is left.
-/

namespace FzDaq.Parser

open Machine

/-- The flag `len_error` and the samples of the waveform, if there is one. -/
def FzData.shape (d : FzData) : Option (Option Bool × List Nat) :=
  d.waveform.map fun wf => (wf.lenError, wf.sample)

namespace FzData

variable {d d' : FzData} {e : Option Bool} {xs : List Nat}

theorem shape_onWf (d : FzData) {f : Waveform → Waveform}
    (hf : ∀ wf, (f wf).lenError = wf.lenError ∧ (f wf).sample = wf.sample) :
    FzData.shape { d with waveform := d.waveform.map f } = d.shape := by
  simp only [shape, Option.map_map]
  congr 1
  funext wf
  simp only [Function.comp, (hf wf).1, (hf wf).2]

theorem shape_addSamples (h : d.shape = some (e, xs)) (ws : List Word) :
    FzData.shape { d with waveform := d.waveform.map fun wf =>
      { wf with sample := wf.sample ++ ws.map (·.toNat) } } =
      some (e, xs ++ ws.map (·.toNat)) := by
  obtain ⟨wf, hwf, hpair⟩ := Option.map_eq_some_iff.1 h
  cases hpair
  simp only [shape, hwf, Option.map_some]

theorem shape_verdict (h : d.shape = some (e, xs)) (bad : Bool) :
    FzData.shape { d with waveform := d.waveform.map fun wf =>
      { wf with lenError := some bad } } = some (some bad, xs) := by
  obtain ⟨wf, hwf, hpair⟩ := Option.map_eq_some_iff.1 h
  cases hpair
  simp only [shape, hwf, Option.map_some]

theorem isSome_of_shape (h : d.shape = some (e, xs)) : d.waveform.isSome = true := by
  obtain ⟨wf, hwf, _⟩ := Option.map_eq_some_iff.1 h
  rw [hwf]
  rfl

end FzData

/-- The words of sine and cosine in front of the samples. -/
def FzDataType.lead (t : FzDataType) : Nat := if t = .ADC then 6 else 0

/-- In the basic format the length is read behind the energies and the pretrigger. -/
def Flags.Ordered (f : Flags) (t : FzDataType) : Prop :=
  f.wflenDone = true → t.hasEnergy = true →
    f.energy1Done = true ∧ (t = .Q3 → f.energy2Done = true) ∧ f.pretrigDone = true

namespace Fsm

variable {E : Env} {s t u : Fsm} {w : Word} {bs : List FzBlock} {b : FzBlock} {r : FzFee}
  {h : FzHit} {d : FzData} {e : Option Bool} {xs : List Nat}

theorem AtData.sample (ha : s.AtData bs b r h d) (hsec : s.Section E d)
    (hshape : d.shape = some (e, xs)) : s.curWaveform.sample = xs := by
  obtain ⟨wf, hwf, hpair⟩ := Option.map_eq_some_iff.1 hshape
  cases hpair
  rw [ha.curWaveform (hsec.wf (by rw [hwf]; rfl)), hwf]
  rfl

/-! ## Basic format -/

theorem AtData.trans07Basic_shape (ha : s.AtData bs b r h d) (hsec : s.Section E d)
    (hf : E.evformat = .basic) (w : Word) :
    ∃ d', (s.trans07Basic w).AtData bs b r h d' ∧ d'.shape = d.shape := by
  have hbasic := hsec.basic hf
  rw [trans07Basic_eq, ha.dType]
  dsimp only
  split
  · rename_i hen
    exact ⟨_, (AtData.fillEn (s := Fsm.updateFee _ w) ha hsec (by rw [hbasic.2, hen]) _).1, rfl⟩
  · exact ⟨_, (AtData.fillWf (s := Fsm.updateFee _ w) ha hsec hbasic.1 _).1,
      d.shape_onWf fun _ => ⟨rfl, rfl⟩⟩

/-- What a DATA word of the basic format does in S5: an energy word or the pretrigger,
the length word, or the words of the samples. -/
inductive BasicTurn (E : Env) (s t : Fsm) (w : Word) (d d' : FzData) : Prop
  | other (hbefore : s.wflenDone = false) (hbehind : t.wflenDone = false)
      (hidx : t.eventIndex = s.eventIndex) (hshape : d'.shape = d.shape)
  | length (hbefore : s.wflenDone = false) (hbehind : t.wflenDone = true) (hrd : t.rdWflen = w)
      (hord : t.Ordered s.dType) (hidx : t.eventIndex = s.eventIndex) (hshape : d'.shape = d.shape)
  | samples (ws : List Word) (hbefore : s.wflenDone = true) (hflags : t.toFlags = s.toFlags)
      (hidx : t.eventIndex = s.eventIndex + s.dType.lead + ws.length - 1)
      (hreads : E.Reads (s.eventIndex + s.dType.lead) ws)
      (hdata : s.dType.hasEnergy = true → (∀ x ∈ ws, x ≤ 0x7FFF) ∧
        ∃ stop, E.event (s.eventIndex + s.dType.lead + ws.length) = some stop ∧ ¬stop ≤ 0x7FFF)
      (hcount : s.dType.hasEnergy = false → ws.length = s.rdWflen.toNat)
      (hshape : ∀ e xs, d.shape = some (e, xs) → d'.shape = some (e, xs ++ ws.map (·.toNat)))

theorem AtData.gathered_shape (ha : s.AtData bs b r h d) (hsec : s.Section E d)
    (hwf : d.waveform.isSome) (ws : List Word) :
    ∃ d', (s.gathered ws).stepBack.AtData bs b r h d' ∧
      ∀ e xs, d.shape = some (e, xs) → d'.shape = some (e, xs ++ ws.map (·.toNat)) := by
  rw [gathered_eq]
  exact ⟨_, (ha.fillWf hsec hwf _).1, fun e xs hshape => FzData.shape_addSamples hshape ws⟩

theorem AtData.waveformByCount_turn (ha : s.AtData bs b r h d) (hsec : s.Section E d)
    (hf : E.evformat = .basic) (henergy : s.dType.hasEnergy = false)
    (hu : ((s.updateBlk w).updateFee w).waveformByCount E w = some t) :
    ∃ d', t.AtData bs b r h d' ∧ BasicTurn E s t w d d' := by
  have hwf := (hsec.basic hf).1
  rcases waveformByCount_eq_some hu with ⟨hlen, rfl⟩ | ⟨hlen, hadc, ws, hcount, hreads, rfl⟩ |
    ⟨hlen, hadc, u, ws, hsine, hcount, hreads, rfl⟩
  · exact ⟨d, ha, .length hlen rfl rfl (fun _ hen => absurd (henergy.symm.trans hen) (by decide))
      rfl rfl⟩
  · have hlead : s.dType.lead = 0 := if_neg hadc
    obtain ⟨d', hat, hshape⟩ :=
      AtData.gathered_shape (s := ((s.updateBlk w).updateFee w).restoreCrc) ha hsec hwf ws
    refine ⟨d', hat, .samples ws hlen ?_ ?_ ?_ ?_ (fun _ => hcount) hshape⟩
    · rw [gathered_eq]
      rfl
    · rw [gathered_eq, hlead]
      rfl
    · rw [hlead]
      exact hreads
    · exact fun hen => absurd (henergy.symm.trans hen) (by decide)
  · obtain ⟨w0, w1, w2, w3, w4, w5, _, rfl⟩ := readSineCosine_eq_some.1 hsine
    have hlead : s.dType.lead = 6 := if_pos hadc
    obtain ⟨hset, hsec'⟩ := AtData.sineCosineRead
      (s := ((s.updateBlk w).updateFee w).restoreCrc) ha hsec w0 w1 w2 w3 w4 w5
    obtain ⟨d', hat, hshape⟩ := hset.gathered_shape hsec' hwf ws
    refine ⟨d', hat, .samples ws hlen ?_ ?_ ?_ ?_ (fun _ => hcount) hshape⟩
    · rw [gathered_eq]
      rfl
    · rw [gathered_eq, hlead]
      rfl
    · rw [hlead]
      exact hreads
    · exact fun hen => absurd (henergy.symm.trans hen) (by decide)

theorem AtData.waveformByData_turn (ha : s.AtData bs b r h d) (hsec : s.Section E d)
    (hf : E.evformat = .basic) (henergy : s.dType.hasEnergy = true) (hfirst : s.energy1Done = true)
    (hsecond : s.dType = .Q3 → s.energy2Done = true)
    (hord : s.Ordered s.dType)
    (hu : ((s.updateBlk w).updateFee w).waveformByData E w = some t) :
    ∃ d', t.AtData bs b r h d' ∧ BasicTurn E s t w d d' := by
  have hwf := (hsec.basic hf).1
  have hlead : s.dType.lead = 0 := by
    cases hd : s.dType <;> rw [hd] at henergy <;> first | rfl | cases henergy
  cases hpre : s.pretrigDone with
  | false =>
    have ht := hu
    rw [waveformByData, if_pos (by change (!s.pretrigDone) = true; rw [hpre]; rfl)] at ht
    cases ht
    have hbefore : s.wflenDone = false := by
      by_contra hdone
      have hdone' := (hord (by simpa using hdone) henergy).2.2
      exact absurd (hdone'.symm.trans hpre) (by decide)
    exact ⟨_, (AtData.fillWf (s := (s.updateBlk w).updateFee w) ha hsec hwf _).1,
      .other hbefore hbefore rfl (d.shape_onWf fun _ => ⟨rfl, rfl⟩)⟩
  | true =>
    rcases waveformByData_eq_some hu with ⟨hnot, _⟩ | ⟨hlen, rfl⟩ |
      ⟨_, hlen, ws, stop, _, hreads, hdata, hstop, rfl⟩
    · exact absurd (hpre.symm.trans hnot) (by decide)
    · exact ⟨d, ha, .length hlen rfl rfl (fun _ _ => ⟨hfirst, hsecond, hpre⟩) rfl rfl⟩
    · obtain ⟨d', hat, hshape⟩ :=
        AtData.gathered_shape (s := ((s.updateBlk w).updateFee w).restoreCrc) ha hsec hwf ws
      obtain ⟨hws, hend⟩ := Env.reads_append.1 hreads
      refine ⟨d', hat, .samples ws hlen ?_ ?_ ?_ (fun _ => ⟨hdata, stop, ?_, hstop⟩) ?_ hshape⟩
      · rw [gathered_eq]
        rfl
      · rw [gathered_eq, hlead]
        rfl
      · rw [hlead]
        exact hws
      · rw [hlead]
        exact hend.1
      · exact fun hnone => absurd (hnone.symm.trans henergy) (by decide)

theorem AtData.trans08Basic_turn (ha : s.AtData bs b r h d) (hsec : s.Section E d)
    (hf : E.evformat = .basic) (hord : s.Ordered s.dType) (hu : s.trans08Basic E w = some t) :
    ∃ d', t.AtData bs b r h d' ∧ BasicTurn E s t w d d' := by
  have hen := (hsec.basic hf).2
  rw [← ha.dType] at hen
  rw [trans08Basic_eq] at hu
  split_ifs at hu with henergy hfirst hsecond
  · have hbefore : s.wflenDone = false := by
      by_contra hdone
      have hdone' := (hord (by simpa using hdone) henergy).1
      rw [hdone'] at hfirst
      cases hfirst
    obtain ⟨f, _, rfl⟩ := lowEnergy1_eq_some hu
    exact ⟨_, (AtData.fillEn (s := (s.updateBlk w).updateFee w) ha hsec (hen.trans henergy) f).1,
      .other hbefore hbefore rfl rfl⟩
  · have hbefore : s.wflenDone = false := by
      by_contra hdone
      have hdone' := (hord (by simpa using hdone) henergy).2.1 hsecond.1
      exact absurd (hdone'.symm.trans hsecond.2) (by decide)
    obtain ⟨f, _, _, rfl⟩ := energy2_eq_some hu
    exact ⟨_, (AtData.fillEn (s := (s.updateBlk w).updateFee w) ha hsec (hen.trans henergy) f).1,
      .other hbefore hbefore rfl rfl⟩
  · have hdone : s.energy1Done = true := by simpa using hfirst
    have hdone' : s.dType = .Q3 → s.energy2Done = true := by simpa using hsecond
    exact ha.waveformByData_turn hsec hf henergy hdone hdone' hord hu
  · exact ha.waveformByCount_turn hsec hf (by simpa using henergy) hu

theorem AtData.verifySection_shape (ha : s.AtData bs b r h d) (hsec : s.Section E d)
    (hf : E.evformat = .basic) (hshape : d.shape = some (e, xs))
    (hu : s.verifyWaveform E = some u) (ht : u.verifyEnergy E = some t) :
    ∃ d' bad, t.AtData bs b r h d' ∧ d'.shape = some (some bad, xs) ∧
      (bad = false ↔ s.rdWflen.toNat = xs.length) := by
  have hwf := (hsec.basic hf).1
  obtain ⟨bad, hbad, rfl⟩ := verifyWaveform_eq_some hu
  rw [ha.sample hsec hshape] at hbad
  obtain ⟨hat, hsec'⟩ := ha.fillWf hsec hwf fun wf => { wf with lenError := some bad }
  have hverdict := FzData.shape_verdict hshape bad
  rcases AtData.verifyEnergy (s := { s.onWf fun wf => { wf with lenError := some bad } with
    errInEvent := s.errInEvent || bad }) hat hsec' hf ht with ⟨_, rfl⟩ | ⟨_, d', hat', _, _, rfl⟩
  · exact ⟨_, bad, hat, hverdict, hbad⟩
  · exact ⟨_, bad, hat', hverdict, hbad⟩

/-! ## Tag format -/

/-- What a DATA word of the tag format does in S5: a tag, a length word, or the payload
of a record. Only a waveform record touches the samples, and it is judged at once. -/
inductive TagTurn (E : Env) (s t : Fsm) (w : Word) (d d' : FzData) : Prop
  | tag (htag : s.tagDone = false) (hlen : t.wflenDone = s.wflenDone)
      (hshape : d'.shape = d.shape ∨ d'.shape = some (some true, []))
  | length (htag : s.tagDone = true) (hbefore : s.wflenDone = false) (hbehind : t.wflenDone = true)
      (hdone : t.tagDone = true) (hsame : t.tag = s.tag) (hrd : t.rdWflen = w)
      (hidx : t.eventIndex = s.eventIndex) (hshape : d'.shape = d.shape)
  | record (hbefore : s.wflenDone = true) (hother : s.tag ≠ TAG_WAVEFORM)
      (hbehind : t.wflenDone = false) (hshape : d'.shape = d.shape)
  | samples (ws : List Word) (bad : Bool) (htag : s.tagDone = true) (hbefore : s.wflenDone = true)
      (hwav : s.tag = TAG_WAVEFORM) (hbehind : t.wflenDone = false)
      (hcount : ws.length = s.rdWflen.toNat) (hreads : E.Reads s.eventIndex ws)
      (hshape : ∃ e xs, d.shape = some (e, xs) ∧
        d'.shape = some (some bad, xs ++ ws.map (·.toNat)) ∧
        (bad = false ↔ s.rdWflen.toNat = (xs ++ ws.map (·.toNat)).length))

theorem tagData_shape (d : FzData) (w : Word) :
    (tagData d w).shape = d.shape ∨ (tagData d w).shape = some (some true, []) := by
  unfold tagData
  split_ifs
  · exact .inr rfl
  · exact .inl rfl
  · exact .inl rfl
  · exact .inl rfl

theorem AtData.readRecord_shape (ha : s.AtData bs b r h d) (hsec : s.Section E d)
    (htag : Tagged s.toFlags d) (hdone : s.tagDone = true) (hother : s.tag ≠ TAG_WAVEFORM)
    (hw : E.event s.eventIndex = some w) (ht : s.readRecord E w = some t) :
    ∃ d', t.AtData bs b r h d' ∧ d'.shape = d.shape := by
  obtain ⟨hwf, hen⟩ := htag hdone
  rcases readRecord_cases hw ht with ⟨hpre, rfl⟩ | ⟨hwav, _⟩ | ⟨hwav, _⟩ |
    ⟨hslow, ws, f, _, _, _, rfl⟩ | ⟨_, x, v, _, rfl⟩ | ⟨_, ws, ts, _, _, _, rfl⟩
  · exact ⟨_, (ha.fillWf hsec (hwf (.inl hpre)) _).1, d.shape_onWf fun _ => ⟨rfl, rfl⟩⟩
  · exact absurd hwav hother
  · exact absurd hwav hother
  · exact ⟨_, (AtData.fillEn (s := s.movedOver ws) ha hsec (hen hslow) f).1, rfl⟩
  · exact ⟨_, ha.modData fun d => { d with baseline := some v }, rfl⟩
  · exact ⟨d, ha, rfl⟩

theorem AtData.readRecord_samples (ha : s.AtData bs b r h d) (hsec : s.Section E d)
    (hshape : d.shape = some (e, xs)) (hwav : s.tag = TAG_WAVEFORM)
    (hw : E.event s.eventIndex = some w) (ht : s.readRecord E w = some t) :
    ∃ d' ws, t.AtData bs b r h d' ∧ t.Section E d' ∧ ws.length = s.rdWflen.toNat ∧
      E.Reads s.eventIndex ws ∧ d'.shape = some (e, xs ++ ws.map (·.toNat)) ∧
      t.rdWflen = s.rdWflen := by
  have hwf := FzData.isSome_of_shape hshape
  rcases readRecord_cases hw ht with ⟨hpre, _⟩ | ⟨_, hzero, rfl⟩ |
    ⟨_, ws, stop, hlen, hreads, rfl⟩ | ⟨hslow, _⟩ | ⟨hbase, _⟩ | ⟨hother, _⟩
  · exact absurd (hwav.symm.trans hpre) (by decide)
  · exact ⟨d, [], ha, hsec, by rw [hzero]; rfl, trivial, by simpa using hshape, rfl⟩
  · obtain ⟨hat, hsec'⟩ := ha.fillWf hsec hwf fun wf =>
      { wf with sample := wf.sample ++ (w :: ws).map (·.toNat) }
    exact ⟨_, w :: ws, hat, hsec', hlen, ⟨hw, (Env.reads_append.1 hreads).1⟩,
      FzData.shape_addSamples hshape (w :: ws), rfl⟩
  · rcases hslow with hslow | hslow <;> exact absurd (hwav.symm.trans hslow) (by decide)
  · exact absurd (hwav.symm.trans hbase) (by decide)
  · exact absurd (by simp [hwav]) hother

theorem AtData.trans08Tag_turn (ha : s.AtData bs b r h d) (hsec : s.Section E d)
    (htagged : Tagged s.toFlags d) (hf : E.evformat = .tag) (hw : E.event s.eventIndex = some w)
    (ht : s.trans08Tag E w = some t) :
    ∃ d', t.AtData bs b r h d' ∧ TagTurn E s t w d d' := by
  rcases trans08Tag_cases hw ht with ⟨htag, rfl⟩ | ⟨htag, hlen, rfl⟩ |
    ⟨htag, hlen, u, v, hu, hv, rfl⟩
  · exact ⟨_, (AtData.readTag (s := (s.updateBlk w).updateFee w) ha hsec hf w).1,
      .tag htag (readTag_quiet _ w).2 (tagData_shape d w)⟩
  · exact ⟨d, ha, .length htag hlen rfl htag rfl rfl rfl rfl⟩
  by_cases hwav : s.tag = TAG_WAVEFORM
  · rw [if_pos hwav] at hv
    obtain ⟨wf, hwf⟩ := Option.isSome_iff_exists.1 ((htagged htag).1 (.inr hwav))
    have hshape : d.shape = some (wf.lenError, wf.sample) := by rw [FzData.shape, hwf]; rfl
    obtain ⟨d₁, ws, hat, hsec₁, hcount, hreads, hshape₁, hrd⟩ := AtData.readRecord_samples
      (s := (s.updateBlk w).updateFee w) ha hsec hshape hwav hw hu
    obtain ⟨bad, hbad, rfl⟩ := verifyWaveform_eq_some hv
    rw [hat.sample hsec₁ hshape₁, hrd] at hbad
    have hwf₁ := FzData.isSome_of_shape hshape₁
    exact ⟨_, (hat.fillWf hsec₁ hwf₁ fun wf => { wf with lenError := some bad }).1,
      .samples ws bad htag hlen hwav rfl hcount hreads
        ⟨_, _, hshape, FzData.shape_verdict hshape₁ bad, hbad⟩⟩
  · rw [if_neg hwav] at hv
    subst hv
    obtain ⟨d', hat, hshape⟩ := AtData.readRecord_shape
      (s := (s.updateBlk w).updateFee w) ha hsec htagged htag hwav hw hu
    exact ⟨d', hat, .record hlen hwav rfl hshape⟩

end Fsm

end FzDaq.Parser
