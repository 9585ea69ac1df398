import FzDaq.Parser.Build

/-!
# The event under construction

An abstract view of the state machine: a `Site` is an event split at the place
where it is being filled, and `Site.Step` says how each transition may change it.
`Fires.site` shows that the transitions of `FzFSM` do nothing else, and
`visits_site` carries an invariant of the sites through a call of `process`.
-/

namespace FzDaq.Parser

open Machine

/-- An event under construction, split at its open part. -/
inductive Site where
  | none
  | blk (bs : List FzBlock) (b : FzBlock)
  | hit (bs : List FzBlock) (b : FzBlock) (r : FzFee) (h : FzHit)
  | data (bs : List FzBlock) (b : FzBlock) (r : FzFee) (h : FzHit) (d : FzData)
  | fee (bs : List FzBlock) (b : FzBlock) (r : FzFee)
  | done (bs : List FzBlock)

/-- What a transition of `s` to `t` at the word `w` does to the event under construction. -/
inductive Site.Step (fmt : Format) (s t : Fsm) (w : Word) : Trans → Site → Site → Prop
  | reset (σ : Site) : Step fmt s t w .notValid σ .none
  | t01 : Step fmt s t w .t01 .none .none
  | t02 : Step fmt s t w .t02 .none (.blk [] newBlk)
  | t03 {bs b} : Step fmt s t w .t03 (.blk bs b)
      (.hit bs b (newFee w) (telescopeHit (some s.tmpEc.toUInt32) w))
  | t04 {bs b r h} (hdone : t.dettagDone = false) :
      Step fmt s t w .t04 (.hit bs b r h) (.hit bs b r { h with gttag := some w.toUInt32 })
  | t05Dettag {bs b r h} :
      Step fmt s t w .t05 (.hit bs b r h) (.hit bs b r { h with dettag := some w.toUInt32 })
  | t05Trigpat {bs b r h} (hdone : s.dettagDone = true) :
      Step fmt s t w .t05 (.hit bs b r h) (.hit bs b r { h with trigpat := some w.toUInt32 })
  | t06 {bs b r h} (herr : sectionType w = .UNKDT → t.errInEvent = true) :
      Step fmt s t w .t06 (.hit bs b r h)
        (.data bs b r { h with detid := some (detidOf w).toNat }
          (sectionData fmt (sectionType w) false))
  | t07 {bs b r h d d'} (hfill : d.Filled d') :
      Step fmt s t w .t07 (.data bs b r h d) (.data bs b r h d')
  | t08 {bs b r h d d'} (hfill : d.Filled d') :
      Step fmt s t w .t08 (.data bs b r h d) (.data bs b r h d')
  | t09 {bs b r h d d'} (hclose : d.Closed fmt d' t.errInEvent)
      (herr : sectionType w = .UNKDT → t.errInEvent = true) :
      Step fmt s t w .t09 (.data bs b r h d)
        (.data bs b (r.addHit (h.addData d'))
          (sectionHit fmt (some (s.ev.ec.getD 0)) (h.addData d') w)
          (sectionData fmt (sectionType w) true))
  | t10 {bs b r h d d'} (hclose : d.Closed fmt d' t.errInEvent) :
      Step fmt s t w .t10 (.data bs b r h d)
        (.hit bs b (r.addHit (h.addData d')) (telescopeHit (some (s.ev.ec.getD 0)) w))
  | t11 {bs b r h d d'} (hclose : d.Closed fmt d' t.errInEvent) :
      Step fmt s t w .t11 (.data bs b r h d) (.fee bs b (r.addHit (h.addData d')))
  | t12 {bs b r} (lenBad crcBad : Bool) (herr : t.errInEvent = (s.errInEvent || lenBad || crcBad)) :
      Step fmt s t w .t12 (.fee bs b r)
        (.blk bs (b.addFee { r with lenError := some lenBad, crcError := some crcBad }))
  | t13 {bs b} : Step fmt s t w .t13 (.blk bs b) (.blk bs b)
  | t14 {bs b} : Step fmt s t w .t14 (.blk bs b)
      (.blk bs { b with blkid := some (blkidOf w).toUInt32 })
  | t15 {bs b} : Step fmt s t w .t15 (.blk bs b) (.blk bs b)
  | t16 {bs b} (lenBad crcBad : Bool) (herr : t.errInEvent = (s.errInEvent || lenBad || crcBad)) :
      Step fmt s t w .t16 (.blk bs b)
        (.done (bs ++ [{ b with lenError := some lenBad, crcError := some crcBad }]))
  | t16Trigger {bs b} : Step fmt s t w .t16 (.blk bs b) (.done bs)
  | t17 {bs} : Step fmt s t w .t17 (.done bs) (.blk bs newBlk)

namespace Fsm

variable {E : Env} {s t : Fsm} {w : Word} {tr : Trans}

/-- The object stands at a site, which has the shape that its state asks for. -/
inductive At (E : Env) (s : Fsm) : Site → Prop
  | none (hs : s.stateId = .idle) (hev : s.ev = {}) : At E s .none
  | blk {bs b} (hs : s.stateId = .s1 ∨ s.stateId = .s7 ∨ s.stateId = .s8 ∨ s.stateId = .s9)
      (hat : s.AtBlk bs b) : At E s (.blk bs b)
  | hit {bs b r h} (hs : s.stateId = .s2 ∨ s.stateId = .s3) (hat : s.AtHit bs b r h) :
      At E s (.hit bs b r h)
  | data {bs b r h d} (hs : s.stateId = .s4 ∨ s.stateId = .s5) (hat : s.AtData bs b r h d)
      (hsec : s.Section E d) (htag : s.stateId = .s5 → E.evformat = .tag → Tagged s.toFlags d) :
      At E s (.data bs b r h d)
  | fee {bs b r} (hs : s.stateId = .s6) (hat : s.AtFee bs b r) : At E s (.fee bs b r)
  | done {bs} (hs : s.stateId = .s10) (hev : s.ev.block = bs) : At E s (.done bs)

variable {σ : Site}

theorem At.of_idle (ha : s.At E σ) (hs : s.stateId = .idle) : σ = .none ∧ s.ev = {} := by
  cases ha <;> simp_all

theorem At.of_blk (ha : s.At E σ)
    (hs : s.stateId = .s1 ∨ s.stateId = .s7 ∨ s.stateId = .s8 ∨ s.stateId = .s9) :
    ∃ bs b, σ = .blk bs b ∧ s.AtBlk bs b := by
  rcases hs with hs | hs | hs | hs <;> cases ha <;> simp_all

theorem At.of_hit (ha : s.At E σ) (hs : s.stateId = .s2 ∨ s.stateId = .s3) :
    ∃ bs b r h, σ = .hit bs b r h ∧ s.AtHit bs b r h := by
  rcases hs with hs | hs <;> cases ha <;> simp_all

theorem At.of_data (ha : s.At E σ) (hs : s.stateId = .s4 ∨ s.stateId = .s5) :
    ∃ bs b r h d, σ = .data bs b r h d ∧ s.AtData bs b r h d ∧ s.Section E d ∧
      (s.stateId = .s5 → E.evformat = .tag → Tagged s.toFlags d) := by
  rcases hs with hs | hs <;> cases ha <;> simp_all

theorem At.getData {bs b r h d} (ha : s.At E (.data bs b r h d)) : s.ev.getData s.d = d := by
  cases ha with
  | data _ hat => exact hat.getData

theorem At.of_s6 (ha : s.At E σ) (hs : s.stateId = .s6) :
    ∃ bs b r, σ = .fee bs b r ∧ s.AtFee bs b r := by
  cases ha <;> simp_all

theorem At.of_s10 (ha : s.At E σ) (hs : s.stateId = .s10) : σ = .done s.ev.block := by
  cases ha <;> simp_all

theorem AtData.site {bs b r h d} (hat : s.AtData bs b r h d) (hsec : s.Section E d)
    (htag : s.stateId = .s5 → E.evformat = .tag → Tagged s.toFlags d)
    (hs : s.stateId = .s4 ∨ s.stateId = .s5) (hfires : Fires E s w tr t) (htakes : s.Takes E w tr) :
    ∃ σ', t.At E σ' ∧ Site.Step E.evformat s t w tr (.data bs b r h d) σ' := by
  have hstate := ttable_eq htakes.2.2
  cases hfires with
  | notValid => exact ⟨.none, .none rfl rfl, .reset _⟩
  | t07Basic hf =>
      obtain ⟨d', hat', hsec', hfill⟩ := hat.trans07Basic hsec hf w
      exact ⟨_, .data (.inr rfl) hat' hsec' (fun _ ht => by rw [hf] at ht; cases ht), .t07 hfill⟩
  | t07Tag hf =>
      obtain ⟨d', hat', hsec', htag, hfill⟩ := AtData.fillsTag_readTag
        (s := ({ s with
          tagDone := false
          wflenDone := false
          rdWflen := 0 }.updateBlk w).updateFee w)
        hat hsec hf w
      exact ⟨_, .data (.inr rfl) hat' hsec' (fun _ _ => htag), .t07 hfill⟩
  | t08Basic hf hu =>
      obtain ⟨d', hat', hsec', hfill⟩ := hat.trans08Basic hsec hf hu
      exact ⟨_, .data (.inr rfl) hat' hsec' (fun _ ht => by rw [hf] at ht; cases ht), .t08 hfill⟩
  | t08Tag hf hu =>
      obtain ⟨d', hat', hsec', htag', hfill⟩ :=
        hat.trans08Tag hsec (htag hstate.1 hf) hf htakes.1 hu
      exact ⟨_, .data (.inr rfl) hat' hsec' (fun _ _ => htag'), .t08 hfill⟩
  | t09Basic hf hu =>
      obtain ⟨d', hat', hsec', hclose, herr, _⟩ := hat.trans09Basic hsec hf hu
      rw [← hf] at hat' hsec' hclose
      exact ⟨_, .data (.inl rfl) hat' hsec' (fun h => by cases h), .t09 hclose herr⟩
  | t09Tag hf =>
      obtain ⟨hat', hsec', herr⟩ := hat.trans09Tag hf w
      have hclose : d.Closed E.evformat d (s.trans09Tag E w).errInEvent := by rw [hf]; rfl
      rw [← hf] at hat' hsec'
      exact ⟨_, .data (.inl rfl) hat' hsec' (fun h => by cases h), .t09 hclose herr⟩
  | t10Basic hf hu =>
      obtain ⟨d', hat', hclose, _⟩ := hat.trans10Basic hsec hf hu
      rw [← hf] at hclose
      exact ⟨_, .hit (.inl rfl) hat', .t10 hclose⟩
  | t10Tag hf =>
      have hclose : d.Closed E.evformat d (s.trans10Tag w).errInEvent := by rw [hf]; rfl
      exact ⟨_, .hit (.inl rfl) (hat.trans10Tag w), .t10 hclose⟩
  | t11Basic hf hu =>
      obtain ⟨d', hat', hclose, _⟩ := hat.trans11Basic hsec hf hu
      rw [← hf] at hclose
      exact ⟨_, .fee rfl hat', .t11 hclose⟩
  | t11Tag hf =>
      have hclose : d.Closed E.evformat d (s.trans11Tag w).errInEvent := by rw [hf]; rfl
      exact ⟨_, .fee rfl hat.1.1, .t11 hclose⟩
  | _ => simp [hstate.1] at hs

theorem AtHit.site {bs b r h} (hat : s.AtHit bs b r h) (hs : s.stateId = .s2 ∨ s.stateId = .s3)
    (hfires : Fires E s w tr t) (htakes : s.Takes E w tr) :
    ∃ σ', t.At E σ' ∧ Site.Step E.evformat s t w tr (.hit bs b r h) σ' := by
  have hstate := ttable_eq htakes.2.2
  cases hfires with
  | notValid => exact ⟨.none, .none rfl rfl, .reset _⟩
  | t04 => exact ⟨_, .hit (.inr rfl) (hat.trans04 w), .t04 rfl⟩
  | t05 =>
      have hat := hat.trans05 w
      cases hdone : s.dettagDone with
      | false =>
          rw [hdone] at hat
          exact ⟨_, .hit (.inr rfl) hat, .t05Dettag⟩
      | true =>
          rw [hdone] at hat
          exact ⟨_, .hit (.inr rfl) hat, .t05Trigpat hdone⟩
  | t06 =>
      exact ⟨_, .data (.inl rfl) (hat.trans06 w) (startSection_section _ w false)
        (fun h => by cases h), .t06 (startSection_unkdt _ w false)⟩
  | _ => simp [hstate.1] at hs

/-- The transitions of the state machine are steps of the event under construction. -/
theorem Fires.site (hfires : Fires E s w tr t) (htakes : s.Takes E w tr) (hregid : tr ≠ .t18)
    (ha : s.At E σ) : ∃ σ', t.At E σ' ∧ Site.Step E.evformat s t w tr σ σ' := by
  have hstate := ttable_eq htakes.2.2
  by_cases hs : s.stateId = .s4 ∨ s.stateId = .s5
  · obtain ⟨bs, b, r, h, d, rfl, hat, hsec, htag⟩ := ha.of_data hs
    exact hat.site hsec htag hs hfires htakes
  by_cases hhit : s.stateId = .s2 ∨ s.stateId = .s3
  · obtain ⟨bs, b, r, h, rfl, hat⟩ := ha.of_hit hhit
    exact hat.site hhit hfires htakes
  cases hfires with
  | notValid => exact ⟨.none, .none rfl rfl, .reset σ⟩
  | t18 => exact absurd rfl hregid
  | t01 =>
      obtain ⟨rfl, _⟩ := ha.of_idle hstate.1
      exact ⟨.none, ha, .t01⟩
  | t02 =>
      obtain ⟨rfl, hev⟩ := ha.of_idle hstate.1
      exact ⟨.blk [] newBlk, .blk (.inl rfl) (trans02_at (by rw [hev]) w), .t02⟩
  | t03 =>
      obtain ⟨bs, b, rfl, hat⟩ := ha.of_blk (.inl hstate.1)
      exact ⟨_, .hit (.inl rfl) (hat.trans03 w), .t03⟩
  | t04 => exact absurd (.inl hstate.1) hhit
  | t05 | t06 => exact absurd (.inr hstate.1) hhit
  | t07Basic _ | t07Tag _ => exact absurd (.inl hstate.1) hs
  | t08Basic _ _ | t08Tag _ _ | t09Basic _ _ | t09Tag _ | t10Basic _ _ | t10Tag _ | t11Basic _ _
  | t11Tag _ => exact absurd (.inr hstate.1) hs
  | t12 =>
      obtain ⟨bs, b, r, rfl, hat⟩ := ha.of_s6 hstate.1
      obtain ⟨lenBad, crcBad, hat', herr⟩ := hat.trans12 w
      exact ⟨_, .blk (.inr (.inl rfl)) hat'.1, .t12 lenBad crcBad herr⟩
  | t13 =>
      obtain ⟨bs, b, rfl, hat⟩ := ha.of_blk (.inr (.inl hstate.1))
      exact ⟨_, .blk (.inl rfl) hat, .t13⟩
  | t14 =>
      obtain ⟨bs, b, rfl, hat⟩ := ha.of_blk (.inl hstate.1)
      exact ⟨_, .blk (.inr (.inr (.inl rfl))) (hat.trans14 w), .t14⟩
  | t15 =>
      obtain ⟨bs, b, rfl, hat⟩ := ha.of_blk (.inr (.inr (.inl hstate.1)))
      exact ⟨_, .blk (.inr (.inr (.inr rfl))) hat, .t15⟩
  | t16 hu =>
      obtain ⟨bs, b, rfl, hat⟩ := ha.of_blk (.inr (.inr (.inr hstate.1)))
      obtain ⟨lenBad, crcBad, herr, hblock | hblock⟩ := hat.trans16 hu
      · exact ⟨_, .done rfl hblock, .t16 lenBad crcBad herr⟩
      · exact ⟨_, .done rfl hblock, .t16Trigger⟩
  | t17 =>
      obtain rfl := ha.of_s10 hstate.1
      exact ⟨_, .blk (.inl rfl) (startBlk_at s w), .t17⟩

theorem At.advance (ha : s.At E σ) : s.advance.At E σ := by
  cases ha with
  | none hs hev => exact .none hs hev
  | blk hs hat => exact .blk hs hat
  | hit hs hat => exact .hit hs hat
  | data hs hat hsec htag => exact .data hs hat hsec htag
  | fee hs hat => exact .fee hs hat
  | done hs hev => exact .done hs hev

/-- In every turn of a call the object stands at a site, and what the steps of the
sites keep holds there. -/
theorem visits_site {ch : Chunk} (hE : E.Carries ch) (I : Fsm → Site → Prop)
    (hentry : I (E.entry s) .none)
    (hskip : ∀ c σ, c.Skips E → E.loop.Next c c.advance → I c σ → I c.advance σ)
    (hstep : ∀ c w tr u σ σ', E.loop.Visits (E.entry s) c → c.Takes E w tr → Fires E c w tr u →
      E.loop.Next c u.advance → c.At E σ → Site.Step E.evformat c u w tr σ σ' → I c σ →
      I u.advance σ')
    {c : Fsm} (hc : E.loop.Visits (E.entry s) c) : ∃ σ, c.At E σ ∧ I c σ := by
  refine visits_induction hE (fun c => ∃ σ, c.At E σ ∧ I c σ) ⟨.none, .none rfl rfl, hentry⟩
    (fun c hempty hnext ⟨σ, ha, hI⟩ => ⟨σ, ha.advance, hskip c σ hempty hnext hI⟩) ?_ hc
  rintro c w tr u hc htakes hregid hfires hnext ⟨σ, ha, hI⟩
  obtain ⟨σ', ha', hσ⟩ := hfires.site htakes hregid ha
  exact ⟨σ', ha'.advance, hstep c w tr u σ σ' hc htakes hfires hnext ha hσ hI⟩

theorem visits_at {ch : Chunk} (hE : E.Carries ch) {c : Fsm} (hc : E.loop.Visits (E.entry s) c) :
    ∃ σ, c.At E σ := by
  obtain ⟨σ, ha, _⟩ := visits_site hE (fun _ _ => True) trivial (fun _ _ _ _ _ => trivial)
    (fun _ _ _ _ _ _ _ _ _ _ _ _ _ => trivial) hc
  exact ⟨σ, ha⟩

end Fsm

end FzDaq.Parser
