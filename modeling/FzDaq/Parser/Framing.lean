import FzDaq.Parser.Faults

/-!
# Framing of records

In the tag format a section is a sequence of records, each of which says how many
words it has. The parser does not go by that number, but by the tag: it stays in
step with the records as long as each has as many words as the branch of its tag.
-/

namespace FzDaq.Parser

open Machine

/-- A record with any tag and any number of words behind its length word. -/
structure TagRecord where
  tag : Word
  payload : List Word
  tag_data : tag ≤ 0x7FFF
  tag_ne : tag ≠ TAG_VOID
  length_data : payload.length ≤ 0x7FFF
  payload_data : ∀ w ∈ payload, w ≤ 0x7FFF

namespace TagRecord

def lengthWord (r : TagRecord) : Word := UInt16.ofNat r.payload.length

def words (r : TagRecord) : List Word := r.tag :: r.lengthWord :: r.payload

/-- The words of the body of a section. -/
def bodyWords (rs : List TagRecord) : List Word := rs.flatMap words

@[simp] theorem bodyWords_nil : bodyWords [] = [] := rfl

@[simp] theorem bodyWords_cons (r : TagRecord) (rs : List TagRecord) :
    bodyWords (r :: rs) = r.words ++ bodyWords rs := rfl

@[simp] theorem bodyWords_append (rs rs' : List TagRecord) :
    bodyWords (rs ++ rs') = bodyWords rs ++ bodyWords rs' := List.flatMap_append

@[simp] theorem length_words (r : TagRecord) : r.words.length = r.payload.length + 2 := rfl

theorem lengthWord_toNat (r : TagRecord) : r.lengthWord.toNat = r.payload.length := by
  have hlt : r.payload.length < 2 ^ 16 := Nat.lt_of_le_of_lt r.length_data (by decide)
  exact UInt16.toNat_ofNat_of_lt' hlt

theorem lengthWord_data (r : TagRecord) : r.lengthWord ≤ 0x7FFF := by
  rw [UInt16.le_iff_toNat_le, r.lengthWord_toNat]
  exact r.length_data

/-- The number of words that the branch of a tag goes over, with the length word `len`. -/
def wordsRead (tag len : Word) : Nat :=
  if tag = TAG_WAVEFORM then len.toNat else Fsm.recordExtra tag len + 1

/-- The record has as many words as the branch of its tag goes over. Without any, it is
closed by the word behind it. -/
def Fits (r : TagRecord) (rs : List TagRecord) : Prop :=
  r.payload.length = wordsRead r.tag r.lengthWord ∧ (r.payload = [] → rs ≠ [])

/-- Each record of a body fits. -/
def Regular : List TagRecord → Prop
  | [] => True
  | r :: rs => r.Fits rs ∧ Regular rs

end TagRecord

namespace Fsm

variable {E : Env} {s t c d : Fsm} {w : Word} {r : TagRecord} {rs : List TagRecord}

/-- The next word is taken for a tag. -/
structure ExpectsTag (c : Fsm) : Prop where
  stateId : c.stateId = .s5
  tagDone : c.tagDone = false
  wflenDone : c.wflenDone = false

/-- The next word is taken neither for a tag nor for a length. -/
structure InPayload (c : Fsm) : Prop where
  stateId : c.stateId = .s5
  tagDone : c.tagDone = true
  wflenDone : c.wflenDone = true

/-- At a tag: behind a DETID word or behind a record. -/
def OnTag (c : Fsm) : Prop := c.stateId = .s4 ∨ c.ExpectsTag

/-- Behind each record of the body that the cursor of `c` is at a tag is expected, and no
word of a payload is taken for a tag or a length. -/
structure Framed (E : Env) (c : Fsm) (rs : List TagRecord) : Prop where
  behind : ∀ front r back, rs = front ++ r :: back →
    ∃ t, E.loop.Reaches c t ∧ t.ExpectsTag ∧
      t.eventIndex = c.eventIndex + (TagRecord.bodyWords (front ++ [r])).length
  payload : ∀ front r back t k, rs = front ++ r :: back → k < r.payload.length →
    E.loop.Reaches c t →
    t.eventIndex = c.eventIndex + (TagRecord.bodyWords front).length + 2 + k → t.InPayload

/-! ## The turns of a record -/

theorem readTag_toFlags (hw : w ≠ TAG_VOID) :
    (s.readTag w).toFlags = { s.toFlags with tag := w, tagDone := true } := by
  unfold readTag
  dsimp only
  rw [if_neg hw]
  split_ifs <;> rfl

theorem next_data {st : FsmState} {u : Fsm} (hidx : c.eventIndex < E.eventSize)
    (hw : E.event c.eventIndex = some w) (hdata : w ≤ 0x7FFF) (hst : c.stateId = st)
    (hu : c.fire E (ttable .data st) w = some u) : E.loop.Next c u.advance := by
  have hkind := (getwordId_data_iff w).2 hdata
  refine (Takes.of_kind hw hkind hst (by decide)).next ?_ hu
  simpa [Env.loop] using hidx

theorem next_tag (hf : E.evformat = .tag) (hc : c.OnTag) (hidx : c.eventIndex < E.eventSize)
    (hw : E.event c.eventIndex = some w) (hdata : w ≤ 0x7FFF) (hvoid : w ≠ TAG_VOID) :
    ∃ d, E.loop.Next c d ∧ d.eventIndex = c.eventIndex + 1 ∧ d.stateId = .s5 ∧ d.tag = w ∧
      d.tagDone = true ∧ d.wflenDone = false := by
  rcases hc with hst | hc
  · have hfire : c.fire E .t07 w = some { c.trans07Tag w with stateId := .s5 } := by
      simp only [fire, hf]
    have hflags : (c.trans07Tag w).toFlags = _ := readTag_toFlags hvoid
    refine ⟨_, next_data hidx hw hdata hst hfire, ?_, rfl, ?_, ?_, ?_⟩
    · exact congrArg (· + 1) (readTag_frame (s := Fsm.updateFee _ w) (w := w)).2
    · exact congrArg Flags.tag hflags
    · exact congrArg Flags.tagDone hflags
    · exact congrArg Flags.wflenDone hflags
  · have hfire : c.fire E .t08 w =
        some { ((c.updateBlk w).updateFee w).readTag w with stateId := .s5 } := by
      simp only [fire, hf, trans08Tag_eq, hc.tagDone]
      rfl
    have hflags : (((c.updateBlk w).updateFee w).readTag w).toFlags = _ := readTag_toFlags hvoid
    refine ⟨_, next_data hidx hw hdata hc.stateId hfire, ?_, rfl, ?_, ?_, ?_⟩
    · exact congrArg (· + 1) (readTag_frame (s := (c.updateBlk w).updateFee w) (w := w)).2
    · exact congrArg Flags.tag hflags
    · exact congrArg Flags.tagDone hflags
    · exact (congrArg Flags.wflenDone hflags).trans hc.wflenDone

theorem next_length (hf : E.evformat = .tag) (hst : c.stateId = .s5) (htag : c.tagDone = true)
    (hlen : c.wflenDone = false) (hidx : c.eventIndex < E.eventSize)
    (hw : E.event c.eventIndex = some w) (hdata : w ≤ 0x7FFF) :
    ∃ d, E.loop.Next c d ∧ d.eventIndex = c.eventIndex + 1 ∧ d.InPayload ∧ d.tag = c.tag ∧
      d.rdWflen = w := by
  have hfire : c.fire E .t08 w = some { (c.updateBlk w).updateFee w with
      rdWflen := w, wflenDone := true, stateId := .s5 } := by
    simp only [fire, hf, trans08Tag_eq, htag, hlen]
    rfl
  exact ⟨_, next_data hidx hw hdata hst hfire, rfl, ⟨rfl, htag, rfl⟩, rfl, rfl⟩

theorem readRecord_eventIndex (hpos : 0 < s.eventIndex) (hw : E.event s.eventIndex = some w)
    (h : s.readRecord E w = some t) :
    t.eventIndex + 1 = s.eventIndex + TagRecord.wordsRead s.tag s.rdWflen := by
  unfold TagRecord.wordsRead recordExtra
  rcases readRecord_cases hw h with ⟨htag, rfl⟩ | ⟨htag, hzero, rfl⟩ |
    ⟨htag, ws, _, hlen, _, rfl⟩ | ⟨htag, ws, _, hlen, _, _, rfl⟩ | ⟨htag, _, _, _, rfl⟩ |
    ⟨htag, ws, _, hlen, _, _, rfl⟩
  · rw [htag]
    rfl
  · rw [htag, hzero]
    change s.eventIndex - 1 + 1 = s.eventIndex
    omega
  · rw [if_pos htag, ← hlen]
    rfl
  · have hother : s.tag ≠ TAG_WAVEFORM := by
      rcases htag with htag | htag <;> rw [htag] <;> decide
    rw [if_neg hother, if_neg hother, if_pos htag]
    change s.eventIndex + ws.length + 1 = _
    rw [hlen]
  · rw [htag]
    rfl
  · have hother : s.tag ≠ TAG_WAVEFORM := fun hwav => htag (by simp [hwav])
    rw [if_neg hother]
    change s.eventIndex + ws.length + 1 = _
    rw [hlen]
    rfl

theorem InPayload.next (hf : E.evformat = .tag) (hc : c.InPayload) (hpos : 0 < c.eventIndex)
    (hw : E.event c.eventIndex = some w) (hdata : w ≤ 0x7FFF) (h : E.loop.Next c d) :
    d.ExpectsTag ∧ d.eventIndex = c.eventIndex + TagRecord.wordsRead c.tag c.rdWflen := by
  have htakes : c.Takes E w .t08 :=
    .of_kind hw ((getwordId_data_iff w).2 hdata) hc.stateId (by decide)
  obtain ⟨x, hfire, rfl⟩ := htakes.fire_of_next h
  simp only [fire, hf, Option.map_eq_some_iff] at hfire
  obtain ⟨t, ht, rfl⟩ := hfire
  rcases trans08Tag_cases hw ht with ⟨htag, _⟩ | ⟨_, hlen, _⟩ | ⟨_, _, u, v, hu, hv, rfl⟩
  · rw [hc.tagDone] at htag
    cases htag
  · rw [hc.wflenDone] at hlen
    cases hlen
  · have hread := readRecord_eventIndex (s := (c.updateBlk w).updateFee w) hpos hw hu
    have hcheck : v.eventIndex = u.eventIndex := by
      split at hv
      · obtain ⟨_, _, rfl⟩ := verifyWaveform_eq_some hv
        rfl
      · rw [hv]
    refine ⟨⟨rfl, rfl, rfl⟩, ?_⟩
    change v.eventIndex + 1 = _
    rw [hcheck, hread]
    rfl

theorem InPayload.exists_next (hf : E.evformat = .tag) (hp : E.PastTotal) (hc : c.InPayload)
    (hidx : c.eventIndex < E.eventSize) (hw : E.event c.eventIndex = some w) (hdata : w ≤ 0x7FFF)
    (hahead : Ahead E c.eventIndex (recordExtra c.tag c.rdWflen)) : ∃ d, E.loop.Next c d := by
  have hlook : c.lookahead E = recordExtra c.tag c.rdWflen := by
    simp only [lookahead, hf, hc.tagDone, hc.wflenDone, Bool.and_self, if_true]
  rw [← hlook] at hahead
  obtain ⟨t, ht⟩ := (trans08Tag_total_iff hp hf hw).2 hahead
  have hfire : c.fire E .t08 w = some { t with stateId := .s5 } := by
    simp only [fire, hf, ht, Option.map_some]
  exact ⟨_, next_data hidx hw hdata hc.stateId hfire⟩

/-! ## A record -/

/-- The body of a section is read from place `i` on, up to a word that ends it. -/
structure BodyAt (E : Env) (i : Nat) (rs : List TagRecord) (stop : Word) : Prop where
  reads : E.Reads i (TagRecord.bodyWords rs ++ [stop])
  size : i + (TagRecord.bodyWords rs).length < E.eventSize
  stop : ¬stop ≤ 0x7FFF

variable {i : Nat} {stop : Word}

theorem BodyAt.tail (h : BodyAt E i (r :: rs) stop) :
    BodyAt E (i + r.words.length) rs stop := by
  have hreads := h.reads
  have hsize := h.size
  rw [TagRecord.bodyWords_cons, List.append_assoc, Env.reads_append] at hreads
  rw [TagRecord.bodyWords_cons, List.length_append, ← Nat.add_assoc] at hsize
  exact ⟨hreads.2, hsize, h.stop⟩

/-- The word behind the length word is DATA unless the section ends there. -/
theorem BodyAt.word (h : BodyAt E i (r :: rs) stop) :
    ∃ x, E.event (i + 2) = some x ∧ (x ≤ 0x7FFF ↔ ¬(r.payload = [] ∧ rs = [])) := by
  have hreads : E.Reads (i + 2) (r.payload ++ TagRecord.bodyWords rs ++ [stop]) := h.reads.2.2
  cases hpayload : r.payload with
  | cons x xs =>
    rw [hpayload] at hreads
    have hx : x ≤ 0x7FFF := r.payload_data x (by rw [hpayload]; exact List.mem_cons_self ..)
    exact ⟨x, hreads.1, iff_of_true hx (by simp)⟩
  | nil =>
    rw [hpayload, List.nil_append] at hreads
    cases rs with
    | nil => exact ⟨stop, hreads.1, iff_of_false h.stop (by simp)⟩
    | cons r' rs => exact ⟨r'.tag, hreads.1, iff_of_true r'.tag_data (by simp)⟩

/-- `d` is the state at the payload of the record that the cursor of `c` is at. -/
structure Opens (E : Env) (c : Fsm) (r : TagRecord) (d : Fsm) : Prop where
  reaches : E.loop.Reaches c d
  passes : ∀ t, E.loop.Reaches c t → t.eventIndex ≤ c.eventIndex + 1 ∨ E.loop.Reaches d t
  eventIndex : d.eventIndex = c.eventIndex + 2
  inPayload : d.InPayload
  tag : d.tag = r.tag
  rdWflen : d.rdWflen = r.lengthWord

theorem OnTag.opens (hf : E.evformat = .tag) (hc : c.OnTag)
    (hbody : BodyAt E c.eventIndex (r :: rs) stop) : ∃ d, Opens E c r d := by
  have hsize := hbody.size
  rw [TagRecord.bodyWords_cons, List.length_append, TagRecord.length_words] at hsize
  obtain ⟨u, hcu, hu, hst, htag, hdone, hlen⟩ :=
    next_tag hf hc (by omega) hbody.reads.1 r.tag_data r.tag_ne
  have hword : E.event u.eventIndex = some r.lengthWord := by
    rw [hu]
    exact hbody.reads.2.1
  obtain ⟨d, hud, hd, hpayload, htag', hlen'⟩ :=
    next_length hf hst hdone hlen (by omega) hword r.lengthWord_data
  refine ⟨d, hcu.reaches.tail hud, fun t ht => ?_, by omega, hpayload, htag'.trans htag, hlen'⟩
  rcases ht.cases_next hcu with rfl | ht
  · exact .inl (Nat.le_succ _)
  rcases ht.cases_next hud with rfl | ht
  · exact .inl (Nat.le_of_eq hu)
  · exact .inr ht

/-- A record that does not fit is left too early or too late. -/
theorem Opens.not_framed (hf : E.evformat = .tag) (hd : Opens E c r d)
    (hbody : BodyAt E c.eventIndex (r :: rs) stop) (hfits : ¬r.Fits rs) :
    ¬Framed E c (r :: rs) := by
  intro hframed
  obtain ⟨t, ht, hexpects, hidx⟩ := hframed.behind [] r rs rfl
  have hlen : (TagRecord.bodyWords ([] ++ [r])).length = r.payload.length + 2 := by simp
  rw [hlen] at hidx
  have hdt : E.loop.Reaches d t := (hd.passes t ht).resolve_left (by omega)
  obtain ⟨x, hx, hdata⟩ := hbody.word
  rw [← hd.eventIndex] at hx
  rcases Relation.ReflTransGen.cases_head hdt with rfl | ⟨e, hde, het⟩
  · exact absurd (hd.inPayload.tagDone.symm.trans hexpects.tagDone) (by decide)
  have hmove := reaches_eventIndex_le het
  have hplace := hd.eventIndex
  by_cases hend : r.payload = [] ∧ rs = []
  · -- The section goes on behind the word that should close the record.
    have hzero : r.payload.length = 0 := by rw [hend.1]; rfl
    have hpass : e.eventIndex = d.eventIndex + 1 := by
      obtain ⟨_, ⟨_, rfl⟩ | ⟨y, tr, v, htakes, hfires, rfl⟩⟩ := next_cases hde
      · rfl
      · refine congrArg (· + 1) (hfires.eventIndex ?_)
        rintro rfl
        have hy := htakes.1
        rw [hx, Option.some.injEq] at hy
        subst hy
        exact hdata.not.2 (not_not.2 hend) ((getwordId_data_iff x).1 (ttable_eq htakes.2.2).2)
    omega
  · obtain ⟨hexp, hpass⟩ := hd.inPayload.next hf (by omega) hx (hdata.2 hend) hde
    rw [hd.tag, hd.rdWflen] at hpass
    have hne : r.payload.length ≠ TagRecord.wordsRead r.tag r.lengthWord :=
      fun heq => hfits ⟨heq, fun hnil hrs => hend ⟨hnil, hrs⟩⟩
    have hpay := hframed.payload [] r rs e (TagRecord.wordsRead r.tag r.lengthWord) rfl (by omega)
      (hd.reaches.tail hde) (by simp; omega)
    exact absurd (hexp.tagDone.symm.trans hpay.tagDone) (by decide)

/-- A record that fits leaves the parser at the next tag. -/
theorem Opens.closes (hf : E.evformat = .tag) (hp : E.PastTotal) (hd : Opens E c r d)
    (hbody : BodyAt E c.eventIndex (r :: rs) stop) (hfits : r.Fits rs) :
    ∃ e, E.loop.Next d e ∧ e.ExpectsTag ∧ e.eventIndex = c.eventIndex + r.words.length := by
  obtain ⟨x, hx, hdata⟩ := hbody.word
  have hword : x ≤ 0x7FFF := hdata.2 fun hend => hfits.2 hend.1 hend.2
  rw [← hd.eventIndex] at hx
  have hplace := hd.eventIndex
  have hsize := hbody.size
  rw [TagRecord.bodyWords_cons, List.length_append, TagRecord.length_words] at hsize
  have hextra : recordExtra r.tag r.lengthWord ≤ r.payload.length := by
    have hread := hfits.1
    unfold TagRecord.wordsRead at hread
    split at hread
    · rename_i hwav
      rw [recordExtra, if_pos hwav]
      exact Nat.le_of_eq hread.symm
    · omega
  have hahead : Ahead E d.eventIndex (recordExtra d.tag d.rdWflen) := by
    rw [hd.tag, hd.rdWflen, hd.eventIndex]
    intro k hk
    have hreads : E.Reads (c.eventIndex + 2) (r.payload ++ TagRecord.bodyWords rs ++ [stop]) :=
      hbody.reads.2.2
    rw [hreads.get (k := k) (by simp; omega)]
    rfl
  obtain ⟨e, hde⟩ := hd.inPayload.exists_next hf hp (by omega) hx hword hahead
  obtain ⟨hexp, hpass⟩ := hd.inPayload.next hf (by omega) hx hword hde
  rw [hd.tag, hd.rdWflen, ← hfits.1] at hpass
  exact ⟨e, hde, hexp, by rw [TagRecord.length_words]; omega⟩

/-! ## The body of a section -/

theorem Opens.later {e : Fsm} (hd : Opens E c r d) (hde : E.loop.Next d e)
    (hplace : e.eventIndex = c.eventIndex + r.words.length) (ht : E.loop.Reaches c t)
    (hidx : e.eventIndex < t.eventIndex) : E.loop.Reaches e t := by
  have hlen := r.length_words
  have hdidx := hd.eventIndex
  rcases hd.passes t ht with hearly | hdt
  · omega
  rcases hdt.cases_next hde with rfl | het
  · omega
  · exact het

theorem Framed.tail {e : Fsm} (hd : Opens E c r d) (hde : E.loop.Next d e)
    (hplace : e.eventIndex = c.eventIndex + r.words.length) (h : Framed E c (r :: rs)) :
    Framed E e rs := by
  refine ⟨fun front r' back hrs => ?_, fun front r' back t k hrs hk ht hidx => ?_⟩
  · obtain ⟨t, ht, hexpects, hidx⟩ := h.behind (r :: front) r' back (by rw [hrs]; rfl)
    rw [List.cons_append, TagRecord.bodyWords_cons, List.length_append, ← Nat.add_assoc,
      ← hplace] at hidx
    have hpos : 0 < (TagRecord.bodyWords (front ++ [r'])).length := by
      rw [TagRecord.bodyWords_append, List.length_append, TagRecord.bodyWords_cons,
        List.length_append, TagRecord.length_words]
      omega
    exact ⟨t, hd.later hde hplace ht (by omega), hexpects, hidx⟩
  · refine h.payload (r :: front) r' back t k (by rw [hrs]; rfl) hk
      ((hd.reaches.tail hde).trans ht) ?_
    rw [TagRecord.bodyWords_cons, List.length_append]
    omega

theorem Framed.cons {e : Fsm} (hd : Opens E c r d) (hde : E.loop.Next d e) (hexp : e.ExpectsTag)
    (hplace : e.eventIndex = c.eventIndex + r.words.length) (h : Framed E e rs) :
    Framed E c (r :: rs) := by
  have hlen := r.length_words
  have hdidx := hd.eventIndex
  have hce := hd.reaches.tail hde
  refine ⟨fun front r' back hrs => ?_, fun front r' back t k hrs hk ht hidx => ?_⟩
  · cases front with
    | nil =>
      cases hrs
      exact ⟨e, hce, hexp, by simpa using hplace⟩
    | cons r'' front =>
      cases hrs
      obtain ⟨t, ht, hexpects, hidx⟩ := h.behind front r' back rfl
      refine ⟨t, hce.trans ht, hexpects, ?_⟩
      rw [List.cons_append, TagRecord.bodyWords_cons, List.length_append]
      omega
  · cases front with
    | nil =>
      cases hrs
      rw [TagRecord.bodyWords_nil, List.length_nil] at hidx
      rcases hd.passes t ht with hearly | hdt
      · omega
      rcases hdt.cases_next hde with rfl | het
      · exact hd.inPayload
      · have hle := reaches_eventIndex_le het
        omega
    | cons r'' front =>
      cases hrs
      rw [TagRecord.bodyWords_cons, List.length_append] at hidx
      exact h.payload front r' back t k rfl hk (hd.later hde hplace ht (by omega)) (by omega)

theorem framed_cons {e : Fsm} (hd : Opens E c r d) (hde : E.loop.Next d e) (hexp : e.ExpectsTag)
    (hplace : e.eventIndex = c.eventIndex + r.words.length) :
    Framed E c (r :: rs) ↔ Framed E e rs :=
  ⟨.tail hd hde hplace, .cons hd hde hexp hplace⟩

/-- The parser stays in step with the records exactly if each of them fits. -/
theorem OnTag.framed_iff_regular (hf : E.evformat = .tag) (hp : E.PastTotal) (hc : c.OnTag)
    (hbody : BodyAt E c.eventIndex rs stop) : Framed E c rs ↔ TagRecord.Regular rs := by
  induction rs generalizing c with
  | nil =>
    refine iff_of_true ⟨fun front r back hrs => ?_, fun front r back t k hrs => ?_⟩ trivial
    · cases front <;> cases hrs
    · cases front <;> cases hrs
  | cons r rs ih =>
    obtain ⟨d, hd⟩ := hc.opens hf hbody
    by_cases hfits : r.Fits rs
    · obtain ⟨e, hde, hexp, hplace⟩ := hd.closes hf hp hbody hfits
      have htail := hbody.tail
      rw [← hplace] at htail
      rw [framed_cons hd hde hexp hplace, ih (.inr hexp) htail]
      exact (and_iff_right hfits).symm
    · exact iff_of_false (hd.not_framed hf hbody hfits) fun h => hfits h.1

/-- A section whose body is a sequence of records. -/
theorem framed_iff (hf : E.evformat = .tag) (hp : E.PastTotal) (hst : c.stateId = .s4)
    (hbody : BodyAt E c.eventIndex rs stop) : Framed E c rs ↔ TagRecord.Regular rs :=
  OnTag.framed_iff_regular hf hp (.inl hst) hbody

/-- A waveform without samples, a pretrigger and a tag that the parser does not know. -/
def threeRecords : List TagRecord :=
  [⟨0x7005, [], by decide, by decide, by decide, by simp⟩,
    ⟨0x7004, [9], by decide, by decide, by decide, by simp⟩,
    ⟨0x1234, [7], by decide, by decide, by decide, by simp⟩]

def threeRecordsChunk : Chunk where
  body := [0xE001, 0x9800, 1, 2, 0x9000] ++ TagRecord.bodyWords threeRecords ++ [0xA00B]
  regid := 0xC800
  regid_id := getwordId_c800
  body_id := Chunk.ne_regid_of_all rfl

theorem threeRecords_framed :
    Framed (threeRecordsChunk.env .tag .zero) { stateId := .s4, eventIndex := 5 }
      threeRecords := by
  have hbody : BodyAt (threeRecordsChunk.env .tag .zero) 5 threeRecords 0xA00B :=
    ⟨⟨rfl, rfl, rfl, rfl, rfl, rfl, rfl, rfl, rfl, trivial⟩, by decide, by decide⟩
  exact (framed_iff rfl (Chunk.env_pastTotal ..) rfl hbody).2
    ⟨⟨rfl, fun _ => nofun⟩, ⟨rfl, nofun⟩, ⟨rfl, nofun⟩, trivial⟩

/-- A tag that the parser does not know, with two words. -/
def resized : TagRecord := ⟨0x1234, [7, 8], by decide, by decide, by decide, by simp⟩

def resizedChunk : Chunk where
  body := [0xE001, 0x9800, 1, 2, 0x9000] ++ resized.words ++ [0xA008]
  regid := 0xC800
  regid_id := getwordId_c800
  body_id := Chunk.ne_regid_of_all rfl

/-- The second word of the payload is taken for a tag. -/
theorem resized_not_framed :
    ∃ c, (resizedChunk.env .tag .zero).loop.Visits ((resizedChunk.env .tag .zero).entry {}) c ∧
      c.stateId = .s4 ∧ BodyAt (resizedChunk.env .tag .zero) c.eventIndex [resized] 0xA008 ∧
      ¬Framed (resizedChunk.env .tag .zero) c [resized] := by
  have hbody : BodyAt (resizedChunk.env .tag .zero) 5 [resized] 0xA008 :=
    ⟨⟨rfl, rfl, rfl, rfl, rfl, trivial⟩, by decide, by decide⟩
  have hrun : (resizedChunk.env .tag .zero).loop.run 5 ((resizedChunk.env .tag .zero).entry {}) =
    .running _ := rfl
  refine ⟨_, Loop.visits_of_run hrun, rfl, hbody, fun hframed => ?_⟩
  have hregular :=
    (OnTag.framed_iff_regular rfl (Chunk.env_pastTotal ..) (.inl rfl) hbody).1 hframed
  exact absurd hregular.1.1 (by decide)

end Fsm

end FzDaq.Parser
