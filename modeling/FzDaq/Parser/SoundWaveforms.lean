import FzDaq.Parser.OpenWaveforms

/-!
# Sound waveforms

In a call whose turns are `Clean` a waveform that is shipped without a raised flag holds
the words behind its length word, in every state of the call.
-/

namespace FzDaq.Parser

open Machine

namespace Fsm

variable {E : Env} {s t c d l m u : Fsm} {w : Word} {tr : Trans} {xs : List Nat} {ws : List Word}
  {i n : Nat} {bs : List FzBlock} {b : FzBlock} {r : FzFee} {h : FzHit} {d₀ d₁ : FzData}

/-! ## Ends of sections -/

theorem messages_of_block (hs : List FzHit)
    (hblock : u.ev.block =
      bs ++ [b.addFee { r with hit := r.hit ++ [h.addData d₁] ++ hs }]) :
    u.ev.messages[(Site.closed (.data bs b r h d₀)).length]? = some d₁ := by
  have hmsg : u.ev.messages = Site.closed (.data bs b r h d₀) ++ [d₁] ++ hs.flatMap (·.data) := by
    simp [FzEvent.messages, hblock, Site.closed, FzHit.addData, FzFee.messages]
  rw [hmsg]
  simp

theorem Fires.closed_shape (hfires : Fires E c w tr u) (htr : tr ∈ [.t09, .t10, .t11])
    (hf : E.evformat = .basic) (hat : c.AtData bs b r h d₀) (hsec : c.Section E d₀)
    {e : Option Bool} (hshape : d₀.shape = some (e, xs)) :
    ∃ d₂ bad, u.ev.messages[(Site.closed (.data bs b r h d₀)).length]? = some d₂ ∧
      d₂.shape = some (some bad, xs) ∧ (bad = false ↔ c.rdWflen.toNat = xs.length) := by
  cases hfires with
  | t09Basic _ hu =>
    obtain ⟨v, x, hit, hv, hx, rfl, _⟩ := trans09Basic_eq_some hu
    obtain ⟨d₂, bad, hat₂, hd₂, hbad⟩ := AtData.verifySection_shape
      (s := (c.updateBlk w).updateFee w) hat hsec hf hshape hv hx
    have hlast := (hat₂.1.1.addHit hit).startSection (E := E) w true
    exact ⟨d₂, bad, messages_of_block [_] hlast.block, hd₂, hbad⟩
  | t10Basic _ hu =>
    obtain ⟨v, x, hv, hx, rfl⟩ := trans10Basic_eq_some hu
    obtain ⟨d₂, bad, hat₂, hd₂, hbad⟩ := AtData.verifySection_shape
      (s := (c.updateBlk w).updateFee w) hat hsec hf hshape hv hx
    have hlast := hat₂.startTelescope w
    exact ⟨d₂, bad, messages_of_block [_] hlast.block, hd₂, hbad⟩
  | t11Basic _ hu =>
    obtain ⟨v, hv, hx⟩ := trans11Basic_eq_some hu
    obtain ⟨d₂, bad, hat₂, hd₂, hbad⟩ := AtData.verifySection_shape
      (s := { c with rdFeelen := lengthOf w }.updateBlk w) hat hsec hf hshape hv hx
    exact ⟨d₂, bad, messages_of_block [] (by simpa [FzFee.addHit] using hat₂.block),
      hd₂, hbad⟩
  | t09Tag hf' | t10Tag hf' | t11Tag hf' => exact absurd (hf.symm.trans hf') (by decide)
  | _ => exact absurd htr (by decide)

theorem Open.closed (ho : Open E s c n d₀) (hclean : c.Clean E w tr) (htakes : c.Takes E w tr)
    (hfires : Fires E c w tr u) (hnext : E.loop.Next c u.advance) (htr : tr ∈ [.t09, .t10, .t11])
    (ha : c.At E (.data bs b r h d₀)) (hclose : d₀.Closed E.evformat d₁ u.errInEvent)
    (hn : n = (Site.closed (.data bs b r h d₀)).length) (hd : u.ev.messages[n]? = some d₁) :
    d₁.Owned E s u.advance n := by
  have hlast : c.Last n d₀ := hn ▸ ha.last
  have hshapeAt : u.ev.shapeAt n = d₁.shape := by rw [FzEvent.shapeAt, hd]; rfl
  cases ha with
  | data _ hat hsec _ =>
  cases hf : E.evformat with
  | tag =>
    rw [hf] at hclose
    obtain rfl : d₁ = d₀ := hclose
    exact ((open_tag hf).1 ho).owned.next hnext (hshapeAt.trans hlast.shapeAt.symm) rfl
  | basic =>
    obtain ⟨xs, hshape, _, _, hsome⟩ :=
      ((open_basic hf).1 ho).filling (htakes.closing htr).1
    obtain ⟨d₂, bad, hd₂, hshape₂, hbad⟩ := hfires.closed_shape htr hf hat hsec hshape
    rw [← hn, hd] at hd₂
    cases hd₂
    intro ys hys
    rw [hshape₂] at hys
    cases hys
    exact (hsome (hclean.closes hf htr)).own hf htakes htr hnext hlast.length (hbad.1 rfl)

/-! ## The event under construction -/

/-- The closed waveforms that are sound have their own samples, and the open one is on the
way to it. -/
structure OwnSite (E : Env) (s c : Fsm) (σ : Site) : Prop where
  closed : ∀ (i : Nat) (d : FzData), σ.closed[i]? = some d → d.Owned E s c i
  opened : ∀ d ∈ σ.opened, Open E s c σ.closed.length d

variable {σ σ' : Site} {ch : Chunk}

theorem At.shapeAt_closed (ha : c.At E σ) {d : FzData} (hd : σ.closed[i]? = some d) :
    c.ev.shapeAt i = d.shape := by
  obtain ⟨hlt, _⟩ := List.getElem?_eq_some_iff.1 hd
  rw [FzEvent.shapeAt, ha.messages, List.getElem?_append_left hlt, hd]
  rfl

theorem OwnSite.skip (ho : OwnSite E s c σ) (hskip : c.Skips E)
    (hnext : E.loop.Next c c.advance) : OwnSite E s c.advance σ :=
  ⟨fun i d hd => (ho.closed i d hd).next hnext rfl rfl,
    fun d hd => (ho.opened d hd).skip hskip hnext⟩

/-- The closed messages stay closed, and a section that ends adds its own. -/
theorem OwnSite.step_closed (ho : OwnSite E s c σ) (hclean : c.Clean E w tr)
    (htakes : c.Takes E w tr) (hfires : Fires E c w tr u) (hnext : E.loop.Next c u.advance)
    (ha : c.At E σ) (ha' : u.At E σ') (hσ : Site.Step E.evformat c u w tr σ σ') (i : Nat)
    (d : FzData) (hd : σ'.closed[i]? = some d) : d.Owned E s u.advance i := by
  have hstays (hd₀ : σ.closed[i]? = some d) : d.Owned E s u.advance i :=
    (ho.closed i d hd₀).next hnext
      ((ha'.shapeAt_closed hd).trans (ha.shapeAt_closed hd₀).symm) rfl
  rcases hσ.closed with ⟨l, hl⟩ | ⟨bs, b, r, h, d₀, d₁, rfl, htr, hadd, hclose⟩
  · obtain ⟨hlt, _⟩ := List.getElem?_eq_some_iff.1 hd
    refine hstays ?_
    rw [← hl, List.getElem?_append_left hlt, hd]
  obtain ⟨hlt, _⟩ := List.getElem?_eq_some_iff.1 hd
  have hget : u.ev.messages[i]? = some d := by
    rw [ha'.messages, List.getElem?_append_left hlt, hd]
  rw [hadd] at hd hlt
  rcases Nat.lt_or_eq_of_le (Nat.le_of_lt_succ (by simpa using hlt)) with hlt | rfl
  · exact hstays (by rwa [List.getElem?_append_left hlt] at hd)
  · obtain rfl : d₁ = d := by simpa using hd
    exact (ho.opened d₀ (List.mem_singleton_self d₀)).closed hclean htakes hfires hnext htr ha
      hclose rfl hget

theorem OwnSite.step (ho : OwnSite E s c σ) (hvisit : E.loop.Visits (E.entry s) c)
    (hclean : c.Clean E w tr) (htakes : c.Takes E w tr) (hfires : Fires E c w tr u)
    (hnext : E.loop.Next c u.advance) (ha : c.At E σ) (ha' : u.At E σ')
    (hσ : Site.Step E.evformat c u w tr σ σ') : OwnSite E s u.advance σ' := by
  refine ⟨ho.step_closed hclean htakes hfires hnext ha ha' hσ, fun d hd => ?_⟩
  have hstate := hfires.stateId
  cases hσ with
  | t06 | t09 =>
    obtain rfl := List.mem_singleton.1 hd
    exact sectionData_open (c := u.advance) (hstate nofun) _ _
  | @t07 bs b r h d₀ d₁ hfill =>
    obtain rfl := List.mem_singleton.1 hd
    exact (ho.opened d₀ (List.mem_singleton_self d₀)).fill hvisit hclean htakes hfires hnext
      (.inl rfl) ha ha' hfill rfl
  | @t08 bs b r h d₀ d₁ hfill =>
    obtain rfl := List.mem_singleton.1 hd
    exact (ho.opened d₀ (List.mem_singleton_self d₀)).fill hvisit hclean htakes hfires hnext
      (.inr rfl) ha ha' hfill rfl
  | _ => cases hd

theorem visits_ownSite (hE : E.Carries ch)
    (hclean : ∀ c w tr, E.loop.Visits (E.entry s) c → c.Takes E w tr → c.Clean E w tr)
    (hc : E.loop.Visits (E.entry s) c) : ∃ σ, c.At E σ ∧ OwnSite E s c σ := by
  refine visits_induction hE (fun c => ∃ σ, c.At E σ ∧ OwnSite E s c σ)
    ⟨.none, .none rfl rfl, by simp [Site.closed], by simp [Site.opened]⟩
    (fun c hskip hnext ⟨σ, ha, ho⟩ => ⟨σ, ha.advance, ho.skip hskip hnext⟩) ?_ hc
  rintro c w tr u hvisit htakes hregid hfires hnext ⟨σ, ha, ho⟩
  obtain ⟨σ', ha', hσ⟩ := hfires.site htakes hregid ha
  exact ⟨σ', ha'.advance,
    ho.step hvisit (hclean c w tr hvisit htakes) htakes hfires hnext ha ha' hσ⟩

/-- The waveforms of the event that are sound have their own samples. -/
def Sound (E : Env) (s t : Fsm) : Prop :=
  ∀ (n : Nat) (d : FzData), t.ev.messages[n]? = some d → d.Owned E s t n

theorem Sound.next (h : Sound E s c) (hnext : E.loop.Next c d)
    (hmessages : d.ev.messages = c.ev.messages) : Sound E s d := by
  intro n e he
  rw [hmessages] at he
  exact (h n e he).next hnext (by rw [FzEvent.shapeAt, hmessages, FzEvent.shapeAt]) rfl

theorem OwnSite.sound (ho : OwnSite E s c σ) (ha : c.At E σ) : Sound E s c := by
  intro n d hd
  rw [ha.messages] at hd
  rcases Nat.lt_or_ge n σ.closed.length with hlt | hge
  · exact ho.closed n d (by rwa [List.getElem?_append_left hlt] at hd)
  rw [List.getElem?_append_right hge] at hd
  cases ha with
  | data hst hat =>
    obtain ⟨hlt, _⟩ := List.getElem?_eq_some_iff.1 hd
    obtain rfl : n = (Site.closed (.data _ _ _ _ _)).length :=
      Nat.le_antisymm (Nat.le_of_sub_eq_zero (Nat.lt_one_iff.1 hlt)) hge
    rw [Nat.sub_self] at hd
    cases hd
    exact (ho.opened _ (List.mem_singleton_self _)).owned hst
  | _ => simp [Site.opened] at hd

/-- In a call whose turns are clean every waveform that is sound has its own samples. -/
theorem sound_own (hE : E.Carries ch)
    (hclean : ∀ c w tr, E.loop.Visits (E.entry s) c → c.Takes E w tr → c.Clean E w tr)
    (ht : E.loop.Reaches (E.entry s) t) : Sound E s t := by
  rcases Relation.ReflTransGen.cases_tail ht with rfl | ⟨c, hc, hct⟩
  · intro n d hd
    have hnone : (E.entry s).ev.messages = [] := rfl
    rw [hnone] at hd
    cases hd
  have hvisit : E.loop.Visits (E.entry s) c := ⟨hc, hct.1⟩
  obtain ⟨σ, ha, ho⟩ := visits_ownSite hE hclean hvisit
  obtain ⟨_, ⟨hskip, rfl⟩ | ⟨w, tr, u, htakes, hfires, rfl⟩⟩ := next_cases hct
  · exact (ho.skip hskip hct).sound ha.advance
  by_cases hregid : tr = .t18
  · subst hregid
    cases hfires
    have hev : ({ c.trans18 w with stateId := .idle, retval := .PARSE_OK } : Fsm).advance.ev =
      (c.trans18 w).ev := rfl
    refine (ho.sound ha).next hct ?_
    rw [hev, (trans18_cases c w).1]
    exact FzEvent.messages_congr rfl
  · obtain ⟨σ', ha', hσ⟩ := hfires.site htakes hregid ha
    exact (ho.step hvisit (hclean c w tr hvisit htakes) htakes hfires hct ha ha' hσ).sound
      ha'.advance

/-- A section with a waveform of two samples, in the basic format. -/
def twoSamples : Chunk where
  body := [0xE001, 0x9800, 1, 2, 0x9100, 7, 2, 5, 6, 0xA009, 0xB050, 0xE001, 0xC001, 0xA00F, 0xD000]
  regid := 0xC800
  regid_id := getwordId_c800
  body_id := Chunk.ne_regid_of_all rfl

theorem twoSamples_sound : ∃ t,
    (twoSamples.env .basic .zero).loop.Reaches ((twoSamples.env .basic .zero).entry {}) t ∧
      t.ev.messages.map (·.shape) = [some (some false, [5, 6])] ∧
      Sound (twoSamples.env .basic .zero) {} t := by
  obtain ⟨r, hrun⟩ : ∃ r, Fsm.parse (twoSamples.env .basic .zero) 16 {} = .ended r := ⟨_, rfl⟩
  have hturns := takes_of_everyTurn
    (P := fun c w tr => decide (c.Clean (twoSamples.env .basic .zero) w tr)) hrun rfl
  have hend : (twoSamples.env .basic .zero).loop.run 16 ((twoSamples.env .basic .zero).entry {}) =
    .ended _ := rfl
  have ht := (Loop.ends_of_run hend).1
  exact ⟨_, ht, rfl, sound_own (twoSamples.env_carries .basic .zero)
    (fun c w tr hc htakes => of_decide_eq_true (hturns c w tr hc htakes)) ht⟩

/-- The header of a section in the place of the second sample. -/
def headerSample : Chunk where
  body := [0xE001, 0x9800, 1, 2, 0x9100, 7, 2, 5, 0x9000, 0xA009, 0xB050, 0xE001, 0xC001, 0xA00F,
    0xD000]
  regid := 0xC800
  regid_id := getwordId_c800
  body_id := Chunk.ne_regid_of_all rfl

/-- It is counted, and the waveform is found sound. -/
theorem headerSample_not_sound : ∃ t,
    (headerSample.env .basic .zero).loop.Reaches ((headerSample.env .basic .zero).entry {}) t ∧
      ¬Sound (headerSample.env .basic .zero) {} t := by
  have hend : (headerSample.env .basic .zero).loop.run 16
    ((headerSample.env .basic .zero).entry {}) = .ended _ := rfl
  refine ⟨_, (Loop.ends_of_run hend).1, fun hsound => ?_⟩
  have hown := hsound 0 _ rfl [5, 0x9000] rfl
  obtain ⟨_, _, _, _, _, ws, _, _, _, _, _, _, _, hdata, hsamples, _⟩ := hown
  have hmem : 0x9000 ∈ ws.map (·.toNat) := hsamples ▸ by decide
  obtain ⟨x, hx, hval⟩ := List.mem_map.1 hmem
  have hle : x.toNat ≤ 0x7FFF := hdata x hx
  omega

end Fsm

end FzDaq.Parser
