import FzDaq.Parser.BasicBody
import FzDaq.Parser.Lockstep
import FzDaq.Parser.TagBody
import FzDaq.Reader.Loss

/-!
# The stream of the cards

Each event that the cards send ends in its REGID word and holds no other, so that the
reader cuts the stream where one event ends and the next begins, in either format.
-/

namespace FzDaq.Parser

open Machine Reader

namespace Wire

/-- What a format adds to the common grammar consists of DATA words. -/
structure Layout.OfData (L : Layout) : Prop where
  words : ∀ {ty : FzDataType} (bd : L.Body ty), ∀ w ∈ L.words bd, w ≤ 0x7FFF

theorem samples_le {xs : Samples} {w : Word} (hw : w ∈ xs.words) : w ≤ 0x7FFF := xs.le_of_mem hw

theorem Record.words_le (x : Record) : ∀ w ∈ x.words, w ≤ 0x7FFF := by
  intro w hw
  cases x with
  | void =>
      obtain rfl := List.mem_singleton.1 hw
      decide
  | waveform samples =>
      rcases List.mem_cons.1 hw with rfl | hw
      · decide
      rcases List.mem_cons.1 hw with rfl | hw
      · exact samples.count.2
      · exact samples_le hw
  | pretrigger len pretrig =>
      simp only [words, List.mem_cons, List.not_mem_nil, or_false] at hw
      rcases hw with rfl | rfl | rfl
      exacts [by decide, len.2, pretrig.2]
  | baseline len first second =>
      simp only [words, List.mem_cons, List.not_mem_nil, or_false] at hw
      rcases hw with rfl | rfl | rfl | rfl
      exacts [by decide, len.2, first.2, second.2]
  | slow len risetime high low | fast len risetime high low =>
      simp only [words, List.mem_cons, List.not_mem_nil, or_false] at hw
      rcases hw with rfl | rfl | rfl | rfl | rfl
      exacts [by decide, len.2, risetime.2, high.2, low.2]

theorem tagLayout_ofData : tagLayout.OfData where
  words bd w hw := by
    obtain ⟨x, -, hw⟩ := List.mem_flatMap.1 hw
    exact x.words_le w hw

theorem basicLayout_ofData : basicLayout.OfData where
  words bd w hw := by
    cases bd with
    | energy hty high low pretrig samples =>
        simp only [basicLayout, BasicBody.words, List.mem_cons] at hw
        rcases hw with rfl | rfl | rfl | rfl | hw
        exacts [high.2, low.2, pretrig.2, samples.count.2, samples_le hw]
    | energies high₁ low₁ high₂ low₂ pretrig samples =>
        simp only [basicLayout, BasicBody.words, List.mem_cons] at hw
        rcases hw with rfl | rfl | rfl | rfl | rfl | rfl | hw
        exacts [high₁.2, low₁.2, high₂.2, low₂.2, pretrig.2, samples.count.2, samples_le hw]
    | waveform hty pretrig samples =>
        simp only [basicLayout, BasicBody.words, List.mem_cons] at hw
        rcases hw with rfl | rfl | hw
        exacts [pretrig.2, samples.count.2, samples_le hw]
    | adc pretrig a₁ a₂ a₃ a₄ a₅ a₆ samples =>
        simp only [basicLayout, BasicBody.words, List.mem_cons] at hw
        rcases hw with rfl | rfl | rfl | rfl | rfl | rfl | rfl | rfl | hw
        exacts [pretrig.2, samples.count.2, a₁.2, a₂.2, a₃.2, a₄.2, a₅.2, a₆.2, samples_le hw]

/-- The layout that the parser reads in a format. -/
@[reducible] def layoutOf : Format → Layout
  | .tag => tagLayout
  | .basic => basicLayout

theorem layoutOf_decodes (fmt : Format) : (layoutOf fmt).Decodes fmt := by
  cases fmt with
  | tag => exact tagLayout_decodes
  | basic => exact basicLayout_decodes

theorem layoutOf_ofData (fmt : Format) : (layoutOf fmt).OfData := by
  cases fmt with
  | tag => exact tagLayout_ofData
  | basic => exact basicLayout_ofData

/-! ## Where events end -/

variable {L : Layout}

theorem ne_regid_of_le {w : Word} (h : w ≤ 0x7FFF) : getwordId w ≠ .regid := by
  rw [(getwordId_data_iff w).2 h]
  decide

theorem Telescope.words_ne_regid (hL : L.OfData) (t : Telescope L) :
    ∀ w ∈ t.words, getwordId w ≠ .regid := by
  intro w hw
  rcases List.mem_cons.1 hw with rfl | hw
  · rw [getwordId_telidWord]
    decide
  rcases List.mem_append.1 hw with hw | hw
  · have hdata : w ≤ 0x7FFF := by
      simp only [tags, List.mem_cons, Option.mem_toList, Option.map_eq_some_iff] at hw
      rcases hw with rfl | rfl | ⟨p, -, rfl⟩
      exacts [t.gttag.2, t.dettag.2, p.2]
    exact ne_regid_of_le hdata
  · obtain ⟨sec, -, hw⟩ := List.mem_flatMap.1 hw
    rcases List.mem_cons.1 hw with rfl | hw
    · rw [getwordId_detidWord]
      decide
    · exact ne_regid_of_le (hL.words sec.body w hw)

theorem Fee.words_ne_regid (hL : L.OfData) (f : Fee L) : ∀ w ∈ f.words, getwordId w ≠ .regid := by
  intro w hw
  rcases List.mem_append.1 hw with hw | hw
  · obtain ⟨t, -, hw⟩ := List.mem_flatMap.1 hw
    exact t.words_ne_regid hL w hw
  · simp only [List.mem_cons, List.not_mem_nil, or_false] at hw
    rcases hw with rfl | rfl
    · rw [getwordId_lengthWord]
      decide
    · rw [getwordId_crcfeWord]
      decide

theorem Block.words_ne_regid (hL : L.OfData) (ec : Fin 4096) (b : Block L) :
    ∀ w ∈ b.words ec, getwordId w ≠ .regid := by
  intro w hw
  have hec : getwordId (ecWord ec) ≠ .regid := by
    rw [getwordId_ecWord]
    decide
  rcases List.mem_cons.1 hw with rfl | hw
  · exact hec
  rcases List.mem_append.1 hw with hw | hw
  · obtain ⟨f, -, hw⟩ := List.mem_flatMap.1 hw
    rcases List.mem_append.1 hw with hw | hw
    · exact f.words_ne_regid hL w hw
    · obtain rfl := List.mem_singleton.1 hw
      exact hec
  · simp only [List.mem_cons, List.not_mem_nil, or_false] at hw
    rcases hw with rfl | rfl | rfl
    · rw [getwordId_blkidWord]
      decide
    · rw [getwordId_lengthWord]
      decide
    · rw [getwordId_crcblWord]
      decide

theorem Event.words_closed (hL : L.OfData) (e : Event L) : Closed closesEvent e.words := by
  refine ⟨_, _, rfl, (closesEvent_iff _).2 (getwordId_regidWord e.regid), fun w hw => ?_⟩
  obtain ⟨b, -, hw⟩ := List.mem_flatMap.1 hw
  rw [← Bool.not_eq_true, closesEvent_iff]
  exact b.words_ne_regid hL e.ec w hw

/-- No block of the event has a fee. -/
def Event.isEmpty (e : Event L) : Bool := e.blocks.all fun b => b.fees.isEmpty

end Wire

namespace Fsm

theorem noData_content (e : FzEvent) : noData e.content = noData e := by
  unfold noData
  rw [FzEvent.content, List.any_map]
  simp only [Function.comp_def, FzBlock.content, List.length_map]

theorem noData_toEvent {L : Wire.Layout} (N : Wire.Numbers) (e : Wire.Event L) :
    noData (e.toEvent N) = e.isEmpty := by
  have hfee (b : Wire.Block L) :
      decide ((b.toBlock N e.ec).fee.length > 0) = !b.fees.isEmpty := by
    cases hb : b.fees <;> simp [Wire.Block.toBlock, hb]
  unfold noData Wire.Event.isEmpty
  rw [if_neg (by simp [Wire.Event.toEvent])]
  simp only [Wire.Event.toEvent, List.any_map, Function.comp_def, hfee]
  rw [List.not_any_eq_all_not]
  simp

end Fsm

end FzDaq.Parser

namespace FzDaq.Reader.FzReader

open FzDaq.Machine FzDaq.Parser FzDaq.Parser.Wire

/-- The chunks are the events that have come whole, however these are spread over datagrams:
the first one goes on with what was pending. -/
theorem Cuts.sent_eq_words {L : Layout} (hL : L.OfData) {r : FzReader} {xs : List Word}
    (h : r.Cuts xs) {ds : List Datagram} (es : List (Event L)) {part : List Word}
    (hpart : ∀ w ∈ part, closesEvent w = false)
    (hstream : r.chunk ++ stream ds = es.flatMap Event.words ++ part) (hfits : r.Fits ds) :
    (r.run ds).sent = r.sent ++ es.map Event.words ∧ (r.run ds).chunk = part := by
  have hcut := (h.run hfits).segments
  have hevents : Segments closesEvent (r.chunk ++ stream ds) (es.map Event.words) part := by
    refine ⟨?_, fun piece hp => ?_, hpart⟩
    · rw [hstream, List.flatMap_def]
    · obtain ⟨e, -, rfl⟩ := List.mem_map.1 hp
      exact e.words_closed hL
  exact hcut.unique (h.segments.append hevents)

end FzDaq.Reader.FzReader
