import FzDaq.Parser.Waveforms

/-!
# The waveform of an open section

How far a waveform has come while its section is read: in the basic format it is judged at
the end of the section, in the tag format behind each of its records.
-/

namespace FzDaq.Parser

open Machine

namespace Fsm

variable {E : Env} {s t c d l m u : Fsm} {w : Word} {tr : Trans} {xs : List Nat} {ws : List Word}
  {i n : Nat}

/-! ## Basic format -/

/-- How far the waveform has come when its length is known. -/
inductive SoFar (E : Env) (s c : Fsm) (xs : List Nat) : Prop
  | waiting (l m : Fsm) (hp : Known E s c l m) (hsince : Since E (l.eventIndex + 1) c)
      (hxs : xs = [])
      (hadc : c.rdWflen = 0 → c.dType = .ADC →
        ∀ x, E.event (l.eventIndex + 1) = some x → x ≤ 0x7FFF)
  | gathered (l m : Fsm) (ws : List Word) (hp : Known E s c l m)
      (hsince : Since E (l.eventIndex + 1 + l.lead E + ws.length) c)
      (hreads : E.Reads (l.eventIndex + 1 + l.lead E) ws) (hdata : ∀ x ∈ ws, x ≤ 0x7FFF)
      (hxs : xs = ws.map (·.toNat)) (hpos : c.rdWflen ≠ 0 ∨ c.dType = .ADC)
      (hcount : c.dType.hasEnergy = false → ws.length = c.rdWflen.toNat)
      (hstop : c.dType.hasEnergy = true ∨ c.rdWflen = 0 →
        ∀ x, E.event (l.eventIndex + 1 + l.lead E + ws.length) = some x → ¬x ≤ 0x7FFF)
  | beyond (hbeyond : c.rdWflen.toNat < xs.length)

theorem SoFar.skip (h : SoFar E s c xs) (hdone : c.wflenDone = true) (hskip : c.Skips E)
    (hnext : E.loop.Next c c.advance) : SoFar E s c.advance xs := by
  cases h with
  | waiting l m hp hsince hxs hadc =>
    exact .waiting l m (hp.next hnext hdone rfl rfl) (hsince.skip hskip) hxs hadc
  | gathered l m ws hp hsince hreads hdata hxs hpos hcount hstop =>
    exact .gathered l m ws (hp.next hnext hdone rfl rfl) (hsince.skip hskip) hreads hdata hxs hpos
      hcount hstop
  | beyond hbeyond => exact .beyond hbeyond

theorem Takes.closing (h : c.Takes E w tr) (htr : tr ∈ [.t09, .t10, .t11]) :
    c.stateId = .s5 ∧ ¬w ≤ 0x7FFF := by
  rw [← getwordId_data_iff]
  simp only [List.mem_cons, List.not_mem_nil, or_false] at htr
  rcases htr with rfl | rfl | rfl
  all_goals
    obtain ⟨hst, hkind⟩ := ttable_eq h.2.2
    rw [hkind]
    exact ⟨hst, by decide⟩

theorem SoFar.own (h : SoFar E s c xs) (hf : E.evformat = .basic) (htakes : c.Takes E w tr)
    (htr : tr ∈ [.t09, .t10, .t11]) (hnext : E.loop.Next c d)
    (hlast : c.ev.messages.length = n + 1) (hlen : c.rdWflen.toNat = xs.length) :
    Own E s d n xs := by
  have hnot := (htakes.closing htr).2
  have hjudges : c.Judges E n := by
    unfold Judges
    rw [hf]
    exact ⟨hlast, w, tr, htakes, htr⟩
  cases h with
  | waiting l m hp hsince hxs hadc =>
    subst hxs
    have hzero : c.rdWflen = 0 := UInt16.toNat_inj.1 hlen
    have hend := hsince.not_data htakes.1 hnot
    have hlead : l.lead E = 0 := by
      rw [hp.lead, lead, hf]
      refine if_neg fun htype => ?_
      obtain ⟨x, hx, hxnot⟩ := hend
      exact hxnot (hadc hzero htype x hx)
    refine .intro l m c d c.rdWflen [] hp.length hp.keeps hjudges hnext .refl hlen.symm trivial
      (by simp) rfl fun _ => ?_
    rw [hlead]
    exact hend
  | gathered l m ws hp hsince hreads hdata hxs hpos hcount hstop =>
    refine .intro l m c d c.rdWflen ws hp.length hp.keeps hjudges hnext .refl ?_ hreads hdata hxs
      fun _ => hsince.not_data htakes.1 hnot
    rw [hlen, hxs, List.length_map]
  | beyond hbeyond => omega

theorem lead_basic (hf : E.evformat = .basic) (c : Fsm) : c.lead E = c.dType.lead := by
  rw [lead, hf]

theorem Clean.data (hclean : c.Clean E w .t08) (hgathers : c.Gathers E .t08)
    (hcounts : E.evformat = .tag ∨ c.dType.hasEnergy = false)
    (hreads : E.Reads (c.eventIndex + c.lead E) ws) (hlen : ws.length = c.rdWflen.toNat) :
    ∀ x ∈ ws, x ≤ 0x7FFF := by
  intro x hx
  obtain ⟨k, hk, rfl⟩ := List.getElem_of_mem hx
  exact hclean.counted hgathers hcounts k (hlen ▸ hk) _ (hreads.get hk)

/-- What a turn that gathers samples leaves behind. -/
structure Gathered (E : Env) (c u : Fsm) (ws : List Word) : Prop where
  next : E.loop.Next c u.advance
  flags : u.toFlags = c.toFlags
  dType : u.dType = c.dType
  eventIndex : u.eventIndex = c.eventIndex + c.dType.lead + ws.length - 1
  reads : E.Reads (c.eventIndex + c.dType.lead) ws
  data : c.dType.hasEnergy = true → (∀ x ∈ ws, x ≤ 0x7FFF) ∧
    ∃ stop, E.event (c.eventIndex + c.dType.lead + ws.length) = some stop ∧ ¬stop ≤ 0x7FFF
  count : c.dType.hasEnergy = false → ws.length = c.rdWflen.toNat

theorem Gathered.known (hg : Gathered E c u ws) (hf : E.evformat = .basic)
    (hdone : c.wflenDone = true) (hp : Known E s c l m) : Known E s u.advance l m := by
  refine hp.next hg.next ((congrArg Flags.wflenDone hg.flags).trans hdone)
    (congrArg Flags.rdWflen hg.flags) ?_
  rw [lead_basic hf, lead_basic hf]
  exact congrArg FzDataType.lead hg.dType

theorem Gathered.first (hg : Gathered E c u ws) (hf : E.evformat = .basic)
    (hclean : c.Clean E w .t08) (hdone : c.wflenDone = true) (hp : Known E s c l m)
    (hplace : c.eventIndex = l.eventIndex + 1) (hpos : c.rdWflen ≠ 0 ∨ c.dType = .ADC) :
    SoFar E s u.advance (ws.map (·.toNat)) := by
  have hgathers : c.Gathers E .t08 := ⟨rfl, hdone, fun ht => by rw [hf] at ht; cases ht⟩
  have hrd : u.advance.rdWflen = c.rdWflen := congrArg Flags.rdWflen hg.flags
  have htype : u.advance.dType = c.dType := hg.dType
  have hlead : l.lead E = c.dType.lead := hp.lead.trans (lead_basic hf c)
  have hstart : l.eventIndex + 1 + l.lead E = c.eventIndex + c.dType.lead := by rw [hlead, hplace]
  have hidx : u.advance.eventIndex = l.eventIndex + 1 + l.lead E + ws.length := by
    have hmove := hg.eventIndex
    change u.eventIndex + 1 = _
    omega
  refine .gathered l m ws (hg.known hf hdone hp) (.of_eq hidx) (hstart ▸ hg.reads) ?_ rfl
    (by rw [hrd, htype]; exact hpos) (by rw [hrd, htype]; exact hg.count) ?_
  · cases henergy : c.dType.hasEnergy with
    | true => exact (hg.data henergy).1
    | false =>
      exact hclean.data hgathers (.inr henergy) (by rw [lead_basic hf]; exact hg.reads)
        (hg.count henergy)
  · rw [hrd, htype, hstart]
    intro hor x hx
    rcases hor with henergy | hzero
    · obtain ⟨-, stop, hstop, hnot⟩ := hg.data henergy
      rw [hstop, Option.some.injEq] at hx
      exact hx ▸ hnot
    · have hadc := hpos.resolve_left (not_not.2 hzero)
      have hnone : ws.length = 0 := by
        rw [hg.count (by rw [hadc]; rfl), hzero]
        rfl
      have hsix : c.dType.lead = 6 := if_pos hadc
      rw [hsix, hnone] at hx
      exact hclean.sixOnly hf hadc hgathers hzero x hx

/-- With the length 0 nothing is gathered, or more than that. -/
theorem Gathered.empty (hg : Gathered E c u ws) (hf : E.evformat = .basic)
    (hdone : c.wflenDone = true) (hp : Known E s c l m) (hsince : Since E (l.eventIndex + 1) c)
    (hw : E.event c.eventIndex = some w) (hword : w ≤ 0x7FFF) (hzero : c.rdWflen = 0)
    (hnot : c.dType ≠ .ADC) : SoFar E s u.advance (ws.map (·.toNat)) := by
  have hlead : c.dType.lead = 0 := if_neg hnot
  cases henergy : c.dType.hasEnergy with
  | true =>
    -- The word under the cursor at least is gathered.
    obtain ⟨-, stop, hstop, hstopNot⟩ := hg.data henergy
    have hrd : u.advance.rdWflen = c.rdWflen := congrArg Flags.rdWflen hg.flags
    refine .beyond ?_
    rw [hrd, hzero, List.length_map]
    refine List.length_pos_iff.2 fun hnil => hstopNot ?_
    rw [hlead, hnil, List.length_nil, Nat.add_zero, hw, Option.some.injEq] at hstop
    exact hstop ▸ hword
  | false =>
    have hnil : ws = [] := List.eq_nil_of_length_eq_zero (by rw [hg.count henergy, hzero]; rfl)
    have hidx : u.advance.eventIndex = c.eventIndex := by
      have hmove := hg.eventIndex
      have hle := hsince.le
      rw [hlead, hnil, List.length_nil] at hmove
      change u.eventIndex + 1 = _
      omega
    subst hnil
    exact .waiting l m (hg.known hf hdone hp) (hsince.congr hidx) rfl fun _ htype =>
      absurd (hg.dType.symm.trans htype) hnot

theorem SoFar.gather (h : SoFar E s c xs) (hg : Gathered E c u ws)
    (hf : E.evformat = .basic) (hclean : c.Clean E w .t08) (htakes : c.Takes E w .t08)
    (hdone : c.wflenDone = true) : SoFar E s u.advance (xs ++ ws.map (·.toNat)) := by
  have hgathers : c.Gathers E .t08 := ⟨rfl, hdone, fun ht => by rw [hf] at ht; cases ht⟩
  have hrd : u.advance.rdWflen = c.rdWflen := congrArg Flags.rdWflen hg.flags
  have hword := (getwordId_data_iff w).1 (ttable_eq htakes.2.2).2
  have hfront (hpos : c.rdWflen ≠ 0 ∨ c.dType = .ADC) :=
    hclean.front hgathers (hpos.imp_right fun hadc => ⟨hf, hadc⟩)
  cases h with
  | waiting l m hp hsince hxs hadc =>
    subst hxs
    rw [List.nil_append]
    by_cases hpos : c.rdWflen ≠ 0 ∨ c.dType = .ADC
    · exact hg.first hf hclean hdone hp (hsince.front (hfront hpos)) hpos
    · obtain ⟨hzero, hnot⟩ := not_or.1 hpos
      exact hg.empty hf hdone hp hsince htakes.1 hword (not_not.1 hzero) hnot
  | gathered l m vs hp hsince hreads hdata hxs hpos hcount hstop =>
    have hplace := hsince.front (hfront hpos)
    refine .beyond ?_
    by_cases hor : c.dType.hasEnergy = true ∨ c.rdWflen = 0
    · exact absurd hword (hstop hor w (hplace ▸ htakes.1))
    · obtain ⟨henergy, hzero⟩ := not_or.1 hor
      have henergy : c.dType.hasEnergy = false := by simpa using henergy
      have hpos' : c.rdWflen.toNat ≠ 0 := fun h0 => hzero (UInt16.toNat_inj.1 h0)
      rw [hrd, hxs, List.length_append, List.length_map, List.length_map, hcount henergy,
        hg.count henergy]
      omega
  | beyond hbeyond =>
    refine .beyond ?_
    rw [hrd, List.length_append]
    omega

end Fsm

/-- If the waveform of the message number `n` is sound, its samples are its own. -/
def FzData.Owned (E : Env) (s t : Fsm) (n : Nat) (d : FzData) : Prop :=
  ∀ xs, d.shape = some (some false, xs) → Fsm.Own E s t n xs

theorem FzData.Owned.next {E : Env} {s c e : Fsm} {n : Nat} {d d' : FzData}
    (h : d.Owned E s c n) (hnext : E.loop.Next c e) (hat : e.ev.shapeAt n = c.ev.shapeAt n)
    (hshape : d'.shape = d.shape) : d'.Owned E s e n :=
  fun xs hxs => (h xs (hshape.symm.trans hxs)).next hnext hat

namespace Fsm

variable {E : Env} {s t c d l m u : Fsm} {w : Word} {tr : Trans} {xs : List Nat} {ws : List Word}
  {i n : Nat} {bs : List FzBlock} {b : FzBlock} {r : FzFee} {h : FzHit} {d₀ d₁ : FzData}

/-- The data message of an open section, basic format. -/
structure BasicOpen (E : Env) (s c : Fsm) (d : FzData) : Prop where
  fresh : c.stateId = .s4 → d.shape = some (some true, [])
  filling : c.stateId = .s5 → ∃ xs, d.shape = some (some true, xs) ∧ c.Ordered c.dType ∧
    (c.wflenDone = false → xs = []) ∧ (c.wflenDone = true → SoFar E s c xs)

theorem BasicOpen.skip (h : BasicOpen E s c d₀) (hskip : c.Skips E)
    (hnext : E.loop.Next c c.advance) : BasicOpen E s c.advance d₀ := by
  refine ⟨h.fresh, fun hst => ?_⟩
  obtain ⟨xs, hshape, hord, hnone, hsome⟩ := h.filling hst
  exact ⟨xs, hshape, hord, hnone, fun hdone => (hsome hdone).skip hdone hskip hnext⟩

theorem BasicOpen.data (ho : BasicOpen E s c d₀) (hf : E.evformat = .basic)
    (hvisit : E.loop.Visits (E.entry s) c) (hclean : c.Clean E w .t08)
    (htakes : c.Takes E w .t08) (hnext : E.loop.Next c { u with stateId := .s5 }.advance)
    (htype : u.dType = c.dType) (hturn : BasicTurn E c u w d₀ d₁) :
    BasicOpen E s { u with stateId := .s5 }.advance d₁ := by
  refine ⟨nofun, fun _ => ?_⟩
  obtain ⟨xs, hshape, hord, hnone, hsome⟩ := ho.filling (ttable_eq htakes.2.2).1
  cases hturn with
  | other hbefore hbehind hidx hsame =>
    exact ⟨xs, hsame.trans hshape, fun hdone => absurd (hbehind.symm.trans hdone) (by decide),
      fun _ => hnone hbefore, fun hdone => absurd (hbehind.symm.trans hdone) (by decide)⟩
  | length hbefore hbehind hrd hord' hidx hsame =>
    refine ⟨xs, hsame.trans hshape, ?_, fun hdone => absurd (hbehind.symm.trans hdone) (by decide),
      fun _ => ?_⟩
    · change u.Ordered u.dType
      rw [htype]
      exact hord'
    have hread : ReadsLength E s c { u with stateId := .s5 }.advance u.rdWflen :=
      ⟨hvisit, hrd ▸ htakes, hnext, hbefore, hbehind, fun ht => by rw [hf] at ht; cases ht⟩
    refine .waiting c _ ⟨hread, .refl, ?_⟩ (.of_eq (congrArg (· + 1) hidx)) (hnone hbefore) ?_
    · rw [lead_basic hf, lead_basic hf]
      exact congrArg FzDataType.lead htype.symm
    · intro hzero hadc
      exact hclean.sixWords hf (htype.symm.trans hadc) rfl hbefore (hrd.symm.trans hzero)
  | samples ws hbefore hflags hidx hreads hdata hcount hadd =>
    refine ⟨xs ++ ws.map (·.toNat), hadd _ _ hshape, ?_, fun hdone => ?_, fun _ => ?_⟩
    · change u.Ordered u.dType
      rw [htype, hflags]
      exact hord
    · have hdone' : u.wflenDone = c.wflenDone := congrArg Flags.wflenDone hflags
      exact absurd (hbefore.symm.trans (hdone'.symm.trans hdone)) (by decide)
    · exact (hsome hbefore).gather (u := { u with stateId := .s5 })
        ⟨hnext, hflags, htype, hidx, hreads, hdata, hcount⟩ hf hclean htakes hbefore

/-! ## Tag format -/

/-- The data message of an open section, tag format. -/
structure TagOpen (E : Env) (s c : Fsm) (n : Nat) (d : FzData) : Prop where
  owned : d.Owned E s c n
  tagDone : c.stateId = .s5 → c.wflenDone = true → c.tagDone = true
  known : c.stateId = .s5 → c.wflenDone = true → c.tag = TAG_WAVEFORM →
    ∃ l m, Known E s c l m ∧ Since E (l.eventIndex + 1) c

theorem TagOpen.skip (ho : TagOpen E s c n d₀) (hskip : c.Skips E)
    (hnext : E.loop.Next c c.advance) : TagOpen E s c.advance n d₀ := by
  refine ⟨ho.owned.next hnext rfl rfl, ho.tagDone, fun hst hdone htag => ?_⟩
  obtain ⟨l, m, hp, hsince⟩ := ho.known hst hdone htag
  exact ⟨l, m, hp.next hnext hdone rfl rfl, hsince.skip hskip⟩

theorem lead_tag (hf : E.evformat = .tag) (c : Fsm) : c.lead E = 0 := by
  rw [lead, hf]

theorem TagOpen.own (ho : TagOpen E s c n d₀) (hf : E.evformat = .tag)
    (hclean : c.Clean E w .t08) (htakes : c.Takes E w .t08) (hnext : E.loop.Next c d)
    (hdone : c.wflenDone = true) (htag : c.tagDone = true) (hwav : c.tag = TAG_WAVEFORM)
    (hcount : ws.length = c.rdWflen.toNat) (hreads : E.Reads c.eventIndex ws)
    (hlast : c.ev.messages.length = n + 1) : Own E s d n (ws.map (·.toNat)) := by
  have hgathers : c.Gathers E .t08 := ⟨rfl, hdone, fun _ => hwav⟩
  obtain ⟨l, m, hp, hsince⟩ := ho.known (ttable_eq htakes.2.2).1 hdone hwav
  have hlead := lead_tag hf l
  have hjudges : c.Judges E n := by
    unfold Judges
    rw [hf]
    exact ⟨hlast, hdone, htag, hwav, w, htakes⟩
  refine .intro l m c d c.rdWflen ws hp.length hp.keeps hjudges hnext .refl hcount ?_ ?_ rfl
    fun hb => absurd (hf.symm.trans hb) (by decide)
  · rw [hlead]
    by_cases hzero : c.rdWflen = 0
    · rw [List.eq_nil_of_length_eq_zero (hcount.trans (by rw [hzero]; rfl))]
      trivial
    · rw [Nat.add_zero, ← hsince.front (hclean.front hgathers (.inl hzero))]
      exact hreads
  · exact hclean.data hgathers (.inl hf) (by rw [lead_tag hf]; exact hreads) hcount

/-- The message `d` is the last one of the event, with the number `n`. -/
structure Last (c : Fsm) (n : Nat) (d : FzData) : Prop where
  length : c.ev.messages.length = n + 1
  shapeAt : c.ev.shapeAt n = d.shape

theorem TagOpen.data (ho : TagOpen E s c n d₀) (hf : E.evformat = .tag)
    (hvisit : E.loop.Visits (E.entry s) c) (hclean : c.Clean E w .t08)
    (htakes : c.Takes E w .t08) (hnext : E.loop.Next c { u with stateId := .s5 }.advance)
    (hturn : TagTurn E c u w d₀ d₁) (hlast : c.Last n d₀) (hlast' : u.Last n d₁) :
    TagOpen E s { u with stateId := .s5 }.advance n d₁ := by
  have hst := (ttable_eq htakes.2.2).1
  have hsame (hshape : d₁.shape = d₀.shape) :
      d₁.Owned E s { u with stateId := .s5 }.advance n :=
    ho.owned.next hnext (hlast'.shapeAt.trans (hshape.trans hlast.shapeAt.symm)) hshape
  cases hturn with
  | tag htag hlen hshape =>
    have hnone : u.wflenDone = false := by
      rw [hlen]
      by_contra hdone
      exact absurd ((ho.tagDone hst (by simpa using hdone)).symm.trans htag) (by decide)
    refine ⟨?_, fun _ hdone => absurd (hnone.symm.trans hdone) (by decide),
      fun _ hdone => absurd (hnone.symm.trans hdone) (by decide)⟩
    rcases hshape with hshape | hnew
    · exact hsame hshape
    · intro xs hxs
      rw [hnew] at hxs
      cases hxs
  | length htag hbefore hbehind hdone hkept hrd hidx hshape =>
    refine ⟨hsame hshape, fun _ _ => hdone,
      fun _ _ hwav => ⟨c, _, ⟨?_, .refl, ?_⟩, .of_eq (congrArg (· + 1) hidx)⟩⟩
    · exact ⟨hvisit, hrd ▸ htakes, hnext, hbefore, hbehind, fun _ => hkept.symm.trans hwav⟩
    · rw [lead_tag hf, lead_tag hf]
  | record hbefore hother hbehind hshape =>
    exact ⟨hsame hshape, fun _ hdone => absurd (hbehind.symm.trans hdone) (by decide),
      fun _ hdone => absurd (hbehind.symm.trans hdone) (by decide)⟩
  | samples ws bad htag hbefore hwav hbehind hcount hreads hshape =>
    refine ⟨fun ys hys => ?_, fun _ hdone => absurd (hbehind.symm.trans hdone) (by decide),
      fun _ hdone => absurd (hbehind.symm.trans hdone) (by decide)⟩
    obtain ⟨e, xs, _, hjudged, hbad⟩ := hshape
    rw [hjudged] at hys
    cases hys
    have hlen := hbad.1 rfl
    rw [List.length_append, List.length_map, hcount] at hlen
    obtain rfl : xs = [] := List.eq_nil_of_length_eq_zero (by omega)
    exact ho.own hf hclean htakes hnext hbefore htag hwav hcount hreads hlast.length

/-! ## Both formats -/

/-- The data message of an open section, with the number `n`. -/
def Open (E : Env) (s c : Fsm) (n : Nat) (d : FzData) : Prop :=
  match E.evformat with
  | .basic => BasicOpen E s c d
  | .tag => TagOpen E s c n d

theorem open_basic (hf : E.evformat = .basic) : Open E s c n d₀ ↔ BasicOpen E s c d₀ := by
  rw [Open, hf]

theorem open_tag (hf : E.evformat = .tag) : Open E s c n d₀ ↔ TagOpen E s c n d₀ := by
  rw [Open, hf]

theorem Open.skip (ho : Open E s c n d₀) (hskip : c.Skips E) (hnext : E.loop.Next c c.advance) :
    Open E s c.advance n d₀ := by
  cases hf : E.evformat with
  | basic => exact (open_basic hf).2 (((open_basic hf).1 ho).skip hskip hnext)
  | tag => exact (open_tag hf).2 (((open_tag hf).1 ho).skip hskip hnext)

/-- An open waveform is not sound in the basic format, and its own in the tag format. -/
theorem Open.owned (ho : Open E s c n d₀) (hst : c.stateId = .s4 ∨ c.stateId = .s5) :
    d₀.Owned E s c n := by
  cases hf : E.evformat with
  | tag => exact ((open_tag hf).1 ho).owned
  | basic =>
    intro xs hxs
    rcases hst with hst | hst
    · rw [((open_basic hf).1 ho).fresh hst] at hxs
      cases hxs
    · obtain ⟨ys, hshape, _⟩ := ((open_basic hf).1 ho).filling hst
      rw [hshape] at hxs
      cases hxs

theorem sectionData_open (hst : c.stateId = .s4) (t : FzDataType) (enError : Bool) :
    Open E s c n (sectionData E.evformat t enError) := by
  cases hf : E.evformat with
  | basic =>
      exact (open_basic hf).2 ⟨fun _ => rfl, fun h5 => absurd (hst.symm.trans h5) (by decide)⟩
  | tag =>
    exact (open_tag hf).2 ⟨nofun, fun h5 => absurd (hst.symm.trans h5) (by decide),
      fun h5 => absurd (hst.symm.trans h5) (by decide)⟩

theorem At.last (ha : c.At E (.data bs b r h d₀)) :
    c.Last (Site.closed (.data bs b r h d₀)).length d₀ := by
  refine ⟨?_, ?_⟩
  · rw [ha.messages, List.length_append]
    rfl
  · rw [FzEvent.shapeAt, ha.messages]
    simp [Site.opened]

theorem Open.fill (ho : Open E s c n d₀) (hvisit : E.loop.Visits (E.entry s) c)
    (hclean : c.Clean E w tr) (htakes : c.Takes E w tr) (hfires : Fires E c w tr u)
    (hnext : E.loop.Next c u.advance) (htr : tr = .t07 ∨ tr = .t08)
    (ha : c.At E (.data bs b r h d₀)) (ha' : u.At E (.data bs b r h d₁)) (hfill : d₀.Filled d₁)
    (hn : n = (Site.closed (.data bs b r h d₀)).length) : Open E s u.advance n d₁ := by
  have hlast : c.Last n d₀ := hn ▸ ha.last
  have hlast' : u.Last n d₁ := hn ▸ ha'.last
  cases ha with
  | data _ hat hsec htagged =>
  cases ha' with
  | data _ hat' hsec' _ =>
  have hget (d₂ : FzData) (hat₂ : u.AtData bs b r h d₂) : d₂ = d₁ :=
    hat₂.getData.symm.trans hat'.getData
  have htype : u.dType = c.dType := by rw [hat'.dType, hat.dType, hfill.type]
  cases hfires with
  | t07Basic hf =>
    obtain ⟨d₂, hat₂, hshape⟩ := hat.trans07Basic_shape hsec hf w
    obtain rfl := hget d₂ hat₂
    have hfresh := ((open_basic hf).1 ho).fresh (ttable_eq htakes.2.2).1
    have hflags : (c.trans07Basic w).wflenDone = false := by
      rw [trans07Basic_eq]
      dsimp only
      split <;> rfl
    refine (open_basic hf).2 ⟨nofun, fun _ => ⟨[], hshape.trans hfresh, ?_, fun _ => rfl, ?_⟩⟩
    · exact fun hdone => absurd (hflags.symm.trans hdone) (by decide)
    · exact fun hdone => absurd (hflags.symm.trans hdone) (by decide)
  | t07Tag hf =>
    have hat₂ := (AtData.readTag
      (s := ({ c with tagDone := false, wflenDone := false, rdWflen := 0 }.updateBlk w).updateFee w)
      hat hsec hf w).1
    obtain rfl := hget _ hat₂
    have hflags : (c.trans07Tag w).wflenDone = false := (readTag_quiet _ w).2
    refine (open_tag hf).2 ⟨?_,
      fun _ hdone => absurd (hflags.symm.trans hdone) (by decide),
      fun _ hdone => absurd (hflags.symm.trans hdone) (by decide)⟩
    rcases tagData_shape d₀ w with hsame | hnew
    · exact ((open_tag hf).1 ho).owned.next hnext
        (hlast'.shapeAt.trans (hsame.trans hlast.shapeAt.symm)) hsame
    · intro xs hxs
      rw [hnew] at hxs
      cases hxs
  | t08Basic hf hu =>
    have hst := (ttable_eq htakes.2.2).1
    obtain ⟨_, _, hord, _⟩ := ((open_basic hf).1 ho).filling hst
    obtain ⟨d₂, hat₂, hturn⟩ := hat.trans08Basic_turn hsec hf hord hu
    obtain rfl := hget d₂ hat₂
    exact (open_basic hf).2
      (((open_basic hf).1 ho).data hf hvisit hclean htakes hnext htype hturn)
  | t08Tag hf hu =>
    have hst := (ttable_eq htakes.2.2).1
    obtain ⟨d₂, hat₂, hturn⟩ := hat.trans08Tag_turn hsec (htagged hst hf) hf htakes.1 hu
    obtain rfl := hget d₂ hat₂
    exact (open_tag hf).2
      (((open_tag hf).1 ho).data hf hvisit hclean htakes hnext hturn hlast
        ⟨hlast'.length, hlast'.shapeAt⟩)
  | _ => rcases htr with htr | htr <;> cases htr

end Fsm

end FzDaq.Parser
