import FzDaq.Parser.Pretriggers

/-!
# Events that the receivers can decode

A receiver rejects an event that lacks a required field or holds an undeclared
enumeration value. The header words are not checked well enough to exclude
that, so the result is conditional: `decodable` collects what must hold of the
turns at TELID and DETID words, a section must not end before its pretrigger
has been read, and `parse_isInitialized` shows that then every event sent is
complete.
-/

namespace FzDaq.Parser

open Machine

/-- Types and flags are set; only the pretrigger of the waveform may be missing. -/
structure FzData.Flagged (d : FzData) : Prop where
  type : d.type.isSome
  en : ∀ flag, d.enFlag = some flag → flag.isSome
  wf : ∀ flag, d.wfFlag = some flag → flag.isSome

namespace FzData

variable {d d' : FzData}

theorem Flagged.filled (hd : d.Flagged) (hfill : d.Filled d') : d'.Flagged := by
  refine ⟨hfill.type ▸ hd.type, fun flag hflag => ?_, fun flag hflag => ?_⟩
  · rcases hfill.en with hen | hen
    · exact hd.en flag (hen ▸ hflag)
    · rw [hen, Option.some.injEq] at hflag
      exact hflag ▸ rfl
  · rcases hfill.wf with hwf | ⟨bad, hwf⟩
    · exact hd.wf flag (hwf ▸ hflag)
    · rw [hwf, Option.some.injEq] at hflag
      exact hflag ▸ rfl

theorem Flagged.judged {err : Bool} (hd : d.Flagged) (hj : d.Judged d' err) : d'.Flagged := by
  refine ⟨hj.type ▸ hd.type, fun flag hflag => ?_, fun flag hflag => ?_⟩
  · rcases hj.en with hen | ⟨bad, hen, _⟩ <;> rw [hen] at hflag <;> cases hflag
    rfl
  · obtain ⟨bad, hwf, _⟩ := hj.wf
    rw [hwf] at hflag
    cases hflag
    rfl

theorem sectionData_flagged (fmt : Format) (t : FzDataType) (enError : Bool) :
    (sectionData fmt t enError).Flagged := by
  cases fmt <;> cases t <;> refine ⟨rfl, fun _ h => ?_, fun _ h => ?_⟩ <;> cases h <;> rfl

theorem Flagged.isInitialized (hd : d.Flagged)
    (hpre : d.waveform.all fun wf => wf.pretrig.isSome) : d.isInitialized = true := by
  obtain ⟨htype, hen, hwf⟩ := hd
  unfold FzData.isInitialized
  cases hE : d.energy <;> cases hW : d.waveform <;>
    simp_all [enFlag, wfFlag, Energy.isInitialized, Waveform.isInitialized]

theorem Flagged.closed {fmt : Format} {err : Bool} (hd : d.Flagged)
    (hclose : d.Closed fmt d' err) (hpre : d.waveform.all fun wf => wf.pretrig.isSome) :
    d'.isInitialized = true := by
  cases fmt with
  | tag =>
      obtain rfl : d' = d := hclose
      exact hd.isInitialized hpre
  | basic =>
      have hj : d.Judged d' err := hclose
      refine (hd.judged hj).isInitialized ?_
      have hsame := hj.pretrig
      cases hW : d.waveform <;> cases hW' : d'.waveform <;> simp_all

end FzData

/-- The fields that a TELID word sets. -/
structure FzHit.Headed (h : FzHit) : Prop where
  ec : h.ec.isSome
  telid : h.telid.any FzTelescope.isValid
  feeid : h.feeid.any FzFec.isValid
  data : h.data = []

theorem checkTelid_isValid (n : Word) : FzTelescope.isValid (checkTelid n) = true := by
  unfold checkTelid
  split
  · rfl
  · rename_i hrange
    simp [FzTelescope.A, FzTelescope.B] at hrange
    have hle : n.toNat ≤ FzTelescope.UNKT := Nat.le_succ_of_le hrange
    exact decide_eq_true hle

/-- The range check lets the undeclared numbers between FEC7 and ADCF through. -/
theorem checkFeeid_isValid {n : Word} (hn : FzFec.isValid n.toNat = true) :
    FzFec.isValid (checkFeeid n) = true := by
  unfold checkFeeid
  split
  · rfl
  · exact hn

theorem telescopeHit_headed {ec : UInt32} {w : Word}
    (hw : FzFec.isValid (feeidOf w).toNat = true) : (telescopeHit (some ec) w).Headed :=
  ⟨rfl, checkTelid_isValid _, checkFeeid_isValid hw, rfl⟩

/-- A hit whose tags and detector are set too. -/
structure FzHit.Opened (h : FzHit) : Prop extends h.Headed where
  gttag : h.gttag.isSome
  dettag : h.dettag.isSome
  detid : h.detid.any FzDetector.isValid

theorem FzHit.Opened.isInitialized {h : FzHit} {d : FzData} (hh : h.Opened)
    (hd : d.isInitialized = true) : (h.addData d).isInitialized = true := by
  obtain ⟨⟨hec, htelid, hfeeid, hdata⟩, hgttag, hdettag, hdetid⟩ := hh
  simp [FzHit.isInitialized, FzHit.addData, *]

namespace Fsm

variable {E : Env} {s t r : Fsm} {ch : Chunk} {fuel : Nat}

/-- The waveform that is being filled has a pretrigger, if there is one at all. -/
def pretrigSet (c : Fsm) : Bool := c.openData.waveform.all (·.pretrig.isSome)

/-- What a header word must meet for the event to be complete: the FEEID of a
telescope header and the detector of a DETID word are declared, and both tags
precede the DETID word. -/
def decodable (c : Fsm) (w : Word) : Trans → Bool
  | .t03 | .t10 => FzFec.isValid (feeidOf w).toNat
  | .t06 => FzDetector.isValid (detidOf w).toNat && c.dettagDone
  | .t09 => FzFec.isValid (feeidOf w).toNat && FzDetector.isValid (detidOf w).toNat
  | _ => true

/-- Required fields outside of the blocks. -/
def Kept (s : Fsm) : Prop :=
  s.ev.ec.isSome ∧ ∀ tri ∈ s.ev.trinfo, FzTrigInfo.isInitialized tri = true

theorem Kept.frame (hs : s.Kept) (hst : s.Frame t) : t.Kept := by
  obtain ⟨ts, hts, htri⟩ := hst.trinfo
  refine ⟨hst.ec ▸ hs.1, fun tri hmem => ?_⟩
  rw [htri] at hmem
  rcases List.mem_append.1 hmem with hmem | hmem
  · exact hs.2 tri hmem
  · exact hts tri hmem

/-- The parts of an event under construction that are complete, as far as it has come. -/
def Complete (s : Fsm) : Site → Prop
  | .none => s.ev.trinfo = []
  | .blk bs b => s.Kept ∧ (∀ x ∈ bs, FzBlock.isInitialized x = true) ∧
      (∀ x ∈ b.fee, FzFee.isInitialized x = true) ∧
      (s.stateId = .s8 ∨ s.stateId = .s9 → b.blkid.isSome)
  | .hit bs b r h => s.Kept ∧ (∀ x ∈ bs, FzBlock.isInitialized x = true) ∧
      (∀ x ∈ b.fee, FzFee.isInitialized x = true) ∧ r.feeid.any FzFec.isValid ∧
      (∀ x ∈ r.hit, FzHit.isInitialized x = true) ∧ h.Headed ∧
      (s.stateId = .s3 → h.gttag.isSome ∧ (s.dettagDone = true → h.dettag.isSome))
  | .data bs b r h d => s.Kept ∧ (∀ x ∈ bs, FzBlock.isInitialized x = true) ∧
      (∀ x ∈ b.fee, FzFee.isInitialized x = true) ∧ r.feeid.any FzFec.isValid ∧
      (∀ x ∈ r.hit, FzHit.isInitialized x = true) ∧ h.Opened ∧ d.Flagged
  | .fee bs b r => s.Kept ∧ (∀ x ∈ bs, FzBlock.isInitialized x = true) ∧
      (∀ x ∈ b.fee, FzFee.isInitialized x = true) ∧ r.feeid.any FzFec.isValid ∧
      (∀ x ∈ r.hit, FzHit.isInitialized x = true)
  | .done bs => s.Kept ∧ ∀ x ∈ bs, FzBlock.isInitialized x = true

theorem Complete.advance {σ : Site} (hc : s.Complete σ) : s.advance.Complete σ := by
  cases σ <;> exact hc

theorem Complete.step_hit {w : Word} {tr : Trans} {σ' : Site} {bs b r h}
    (hc : s.Complete (.hit bs b r h)) (htakes : s.Takes E w tr) (hfires : Fires E s w tr t)
    (hσ : Site.Step E.evformat s t w tr (.hit bs b r h) σ') (hturn : s.decodable w tr = true) :
    t.Complete σ' := by
  have hframe := hfires.frame htakes.1
  obtain ⟨hkept, hbs, hfees, hfeeid, hhits, hhead, htags⟩ := hc
  have hsame : FzHit.Headed { h with gttag := some w.toUInt32 } ∧
      FzHit.Headed { h with dettag := some w.toUInt32 } ∧
      FzHit.Headed { h with trigpat := some w.toUInt32 } ∧
      FzHit.Headed { h with detid := some (detidOf w).toNat } := by
    obtain ⟨hec, htelid, hfeeid, hdata⟩ := hhead
    exact ⟨⟨hec, htelid, hfeeid, hdata⟩, ⟨hec, htelid, hfeeid, hdata⟩,
      ⟨hec, htelid, hfeeid, hdata⟩, ⟨hec, htelid, hfeeid, hdata⟩⟩
  cases hσ with
  | reset =>
      cases hfires
      rfl
  | t04 hdone =>
      exact ⟨hkept.frame (hframe (by decide)), hbs, hfees, hfeeid, hhits, hsame.1,
        fun _ => ⟨rfl, by simp [hdone]⟩⟩
  | t05Dettag =>
      have htags := htags (ttable_eq htakes.2.2).1
      exact ⟨hkept.frame (hframe (by decide)), hbs, hfees, hfeeid, hhits, hsame.2.1,
        fun _ => ⟨htags.1, fun _ => rfl⟩⟩
  | t05Trigpat hdone =>
      have htags := htags (ttable_eq htakes.2.2).1
      exact ⟨hkept.frame (hframe (by decide)), hbs, hfees, hfeeid, hhits, hsame.2.2.1,
        fun _ => ⟨htags.1, fun _ => htags.2 hdone⟩⟩
  | t06 =>
      have htags := htags (ttable_eq htakes.2.2).1
      obtain ⟨hdetid, hdone⟩ := Bool.and_eq_true_iff.1 hturn
      exact ⟨hkept.frame (hframe (by decide)), hbs, hfees, hfeeid, hhits,
        ⟨hsame.2.2.2, htags.1, htags.2 hdone, hdetid⟩, FzData.sectionData_flagged _ _ _⟩

theorem Complete.step_data {w : Word} {tr : Trans} {σ' : Site} {bs b r h d}
    (hc : s.Complete (.data bs b r h d)) (htakes : s.Takes E w tr) (hfires : Fires E s w tr t)
    (hσ : Site.Step E.evformat s t w tr (.data bs b r h d) σ') (hturn : s.decodable w tr = true)
    (hset : endsSection tr = true → d.waveform.all fun wf => wf.pretrig.isSome) :
    t.Complete σ' := by
  have hframe := hfires.frame htakes.1
  obtain ⟨hkept, hbs, hfees, hfeeid, hhits, hopen, hflag⟩ := hc
  cases hσ with
  | reset =>
      cases hfires
      rfl
  | t07 hfill | t08 hfill =>
      exact ⟨hkept.frame (hframe (by decide)), hbs, hfees, hfeeid, hhits, hopen,
        hflag.filled hfill⟩
  | t09 hclose =>
      obtain ⟨hfee, hdetid⟩ := Bool.and_eq_true_iff.1 hturn
      have hdone := hopen.isInitialized (hflag.closed hclose (hset rfl))
      exact ⟨hkept.frame (hframe (by decide)), hbs, hfees, hfeeid, forall_mem_concat hhits hdone,
        ⟨⟨rfl, checkTelid_isValid _, checkFeeid_isValid hfee, rfl⟩, rfl, rfl, hdetid⟩,
        FzData.sectionData_flagged _ _ _⟩
  | t10 hclose =>
      have hdone := hopen.isInitialized (hflag.closed hclose (hset rfl))
      refine ⟨hkept.frame (hframe (by decide)), hbs, hfees, hfeeid, forall_mem_concat hhits hdone,
        telescopeHit_headed hturn, fun hs => ?_⟩
      rw [hfires.stateId (by simp)] at hs
      cases hs
  | t11 hclose =>
      have hdone := hopen.isInitialized (hflag.closed hclose (hset rfl))
      exact ⟨hkept.frame (hframe (by decide)), hbs, hfees, hfeeid, forall_mem_concat hhits hdone⟩

theorem Complete.step_blk {w : Word} {tr : Trans} {σ' : Site} {bs b}
    (hc : s.Complete (.blk bs b)) (htakes : s.Takes E w tr) (hfires : Fires E s w tr t)
    (hσ : Site.Step E.evformat s t w tr (.blk bs b) σ') (hturn : s.decodable w tr = true) :
    t.Complete σ' := by
  have hframe := hfires.frame htakes.1
  obtain ⟨hkept, hbs, hfees, hid⟩ := hc
  cases hσ with
  | reset =>
      cases hfires
      rfl
  | t03 =>
      exact ⟨hkept.frame (hframe (by decide)), hbs, hfees, checkFeeid_isValid hturn,
        by simp [newFee], telescopeHit_headed hturn, by cases hfires; simp⟩
  | t13 =>
      cases hfires
      exact ⟨hkept, hbs, hfees, by simp⟩
  | t14 => exact ⟨hkept.frame (hframe (by decide)), hbs, hfees, fun _ => rfl⟩
  | t15 =>
      exact ⟨hkept.frame (hframe (by decide)), hbs, hfees,
        fun _ => hid (.inl (ttable_eq htakes.2.2).1)⟩
  | t16 =>
      have hid := hid (.inr (ttable_eq htakes.2.2).1)
      refine ⟨hkept.frame (hframe (by decide)), forall_mem_concat hbs ?_⟩
      simp only [FzBlock.isInitialized, hid, Bool.true_and, Option.isSome_some, Bool.and_true]
      exact List.all_eq_true.2 hfees
  | t16Trigger => exact ⟨hkept.frame (hframe (by decide)), hbs⟩

theorem Complete.step_fee {w : Word} {tr : Trans} {σ' : Site} {bs b r}
    (hc : s.Complete (.fee bs b r)) (htakes : s.Takes E w tr) (hfires : Fires E s w tr t)
    (hσ : Site.Step E.evformat s t w tr (.fee bs b r) σ') : t.Complete σ' := by
  have hframe := hfires.frame htakes.1
  obtain ⟨hkept, hbs, hfees, hfeeid, hhits⟩ := hc
  cases hσ with
  | reset =>
      cases hfires
      rfl
  | t12 =>
      refine ⟨hkept.frame (hframe (by decide)), hbs, forall_mem_concat hfees ?_, fun hs => ?_⟩
      · simp only [FzFee.isInitialized, hfeeid, Bool.true_and, Option.isSome_some, Bool.and_true]
        exact List.all_eq_true.2 hhits
      · rw [hfires.stateId (by simp)] at hs
        simp [Trans.target] at hs

/-- The step lemma: a turn that is `decodable` keeps the complete parts complete, if at the
end of a section its pretrigger is set. -/
theorem Complete.step {w : Word} {tr : Trans} {σ σ' : Site} (hc : s.Complete σ)
    (htakes : s.Takes E w tr) (hfires : Fires E s w tr t) (ha : s.At E σ)
    (hσ : Site.Step E.evformat s t w tr σ σ') (hturn : s.decodable w tr = true)
    (hset : endsSection tr = true → s.pretrigSet = true) : t.Complete σ' := by
  cases σ with
  | none =>
      cases hσ with
      | reset =>
          cases hfires
          rfl
      | t01 =>
          cases hfires
          exact hc
      | t02 =>
          cases hfires
          refine ⟨⟨rfl, ?_⟩, by simp, by simp [newBlk], by simp⟩
          change ∀ tri ∈ s.ev.trinfo, _
          simp [show s.ev.trinfo = [] from hc]
  | blk bs b => exact hc.step_blk htakes hfires hσ hturn
  | hit bs b r h => exact hc.step_hit htakes hfires hσ hturn
  | data bs b r h d =>
      refine hc.step_data htakes hfires hσ hturn fun hends => ?_
      have hpre := hset hends
      rwa [pretrigSet, openData, ha.getData] at hpre
  | fee bs b r => exact hc.step_fee htakes hfires hσ
  | done bs =>
      obtain ⟨hkept, hbs⟩ := hc
      cases hσ with
      | reset =>
          cases hfires
          rfl
      | t17 =>
          cases hfires
          exact ⟨⟨rfl, hkept.2⟩, hbs, by simp [newBlk], by simp⟩

/-- The run lemma: in a call all of whose turns are `decodable`, and whose sections do not
end before their pretrigger, the parts that have been closed are complete. -/
theorem visits_complete (hE : E.Carries ch)
    (hturns : ∀ c w tr, E.loop.Visits (E.entry s) c → c.Takes E w tr → c.decodable w tr = true)
    (hpre : ∀ c w tr, E.loop.Visits (E.entry s) c → c.Takes E w tr → endsSection tr = true →
      PretrigRead E s c)
    {c : Fsm}
    (hc : E.loop.Visits (E.entry s) c) : ∃ σ, c.At E σ ∧ c.Complete σ :=
  visits_site hE Complete rfl (fun _ _ _ _ hI => hI.advance)
    (fun c w tr _ _ _ hvisit htakes hfires _ ha hσ hI =>
      (hI.step htakes hfires ha hσ (hturns c w tr hvisit htakes) fun hends =>
        (pretrigRead_iff hE hvisit (htakes.of_endsSection hends)).1
          (hpre c w tr hvisit htakes hends)).advance) hc

/-- An event that is sent because `process` returned PARSE_OK with data in it is
accepted by its receivers, if every turn of the call was `decodable` and every
section that has ended had its pretrigger read. -/
theorem parse_isInitialized (hE : E.Carries ch)
    (hturns : ∀ c w tr, E.loop.Visits (E.entry s) c → c.Takes E w tr → c.decodable w tr = true)
    (hpre : ∀ c w tr, E.loop.Visits (E.entry s) c → c.Takes E w tr → endsSection tr = true →
      PretrigRead E s c)
    (hrun : s.parse E fuel = .ended r) (hok : r.retval = .PARSE_OK) :
    r.ev.isInitialized = true := by
  rcases parse_verdict hE hrun with ⟨hfail, _⟩ | ⟨c, hc, htakes, _, rfl⟩
  · rw [hok] at hfail
    cases hfail
  · obtain ⟨σ, ha, hcomplete⟩ := visits_complete hE hturns hpre hc
    obtain rfl := ha.of_s10 htakes.stateId_s10
    obtain ⟨⟨hec, htri⟩, hbs⟩ := hcomplete
    have hev : (((c.judge ch.regid).finish E).ev) = _ := (trans18_cases c ch.regid).1
    rw [hev]
    simp only [FzEvent.isInitialized, hec, Bool.true_and, Option.isSome_some, Bool.and_eq_true,
      List.all_eq_true, and_true]
    exact ⟨hbs, htri⟩

/-- One telescope of FEEID 0 with a section that holds a void word. -/
def oneHit : Chunk where
  body := [0xE001, 0x9800, 1, 2, 3, 0x9000, 0x3030, 0xA007, 0xB000, 0xE001, 0xC001, 0xA000, 0xD000]
  regid := 0xC800
  regid_id := getwordId_c800
  body_id := Chunk.ne_regid_of_all rfl

/-- `parse_isInitialized` on an event with a hit. -/
theorem oneHit_isInitialized :
    ∃ r, Fsm.parse (oneHit.env .tag .zero) 14 {} = .ended r ∧ r.retval = .PARSE_OK ∧
      r.ev.isInitialized = true := by
  obtain ⟨r, hrun, hok⟩ : ∃ r, Fsm.parse (oneHit.env .tag .zero) 14 {} = .ended r ∧
      r.retval = .PARSE_OK := ⟨_, rfl, rfl⟩
  have hE := oneHit.env_carries .tag .zero
  have hset := takes_of_everyTurn (P := fun c _ tr => !endsSection tr || c.pretrigSet) hrun rfl
  refine ⟨r, hrun, hok, parse_isInitialized hE (takes_of_everyTurn hrun rfl)
    (fun c w tr hc htakes hends => ?_) hrun hok⟩
  have hpre := hset c w tr hc htakes
  rw [hends] at hpre
  exact (pretrigRead_iff hE hc (htakes.of_endsSection hends)).2 hpre

/-- The same event from the undeclared FEEID 8. -/
def feeid8 : Chunk where
  body := [0xE001, 0x9810, 1, 2, 3, 0x9010, 0x3030, 0xA007, 0xB000, 0xE001, 0xC001, 0xA000, 0xD000]
  regid := 0xC800
  regid_id := getwordId_c800
  body_id := Chunk.ne_regid_of_all rfl

/-- It is sent, and its receivers reject it. -/
theorem feeid8_not_isInitialized :
    ∃ r, Fsm.parse (feeid8.env .tag .zero) 14 {} = .ended r ∧ r.retval = .PARSE_OK ∧
      r.eventIsEmpty = false ∧ r.ev.isInitialized = false :=
  ⟨_, rfl, rfl, rfl, rfl⟩

end Fsm

end FzDaq.Parser
