import FzDaq.Reader.UdpHandler

/-!
# Sequence numbers

The test for padding at the head of a datagram looks at the words of the sequence
number too: a number with a half of `0x8080` makes the handler skip the first word
of the payload. Two streams that differ in sequence numbers only are compared here,
up to EMPTY words.
-/

namespace FzDaq.Reader

open FzDaq.Machine FzDaq.Parser

namespace Datagram

variable {d d' : Datagram}

/-- The same datagram with another sequence number. -/
def Renumbers (d d' : Datagram) : Prop := d'.bufusint.drop 2 = d.bufusint.drop 2

/-- The word behind the sequence number. -/
def third (d : Datagram) : Word := d.bufusint.get ⟨2, d.long⟩

theorem drop_two (d : Datagram) : d.bufusint.drop 2 = d.third :: d.bufusint.drop 3 :=
  List.drop_eq_getElem_cons d.long

theorem payload_eq (d : Datagram) :
    d.payload = if d.offset = 3 then d.bufusint.drop 3 else d.third :: d.bufusint.drop 3 := by
  rw [← drop_two]
  unfold payload offset
  split <;> rfl

theorem Renumbers.words (h : d.Renumbers d') :
    d'.third = d.third ∧ d'.bufusint.drop 3 = d.bufusint.drop 3 := by
  rw [Renumbers, drop_two, drop_two] at h
  exact List.cons.inj h

/-- The sequence number decides over a word of the payload that is not EMPTY. -/
def Harmless (d d' : Datagram) : Prop := d'.offset = d.offset ∨ getwordId d.third = .empty

end Datagram

/-- The words that are not EMPTY. -/
def strip (ws : List Word) : List Word := ws.filter fun w => getwordId w != .empty

namespace FzReader

variable {r r' : FzReader} {d d' : Datagram} {ds ds' : List Datagram}

/-- The pending chunk is discarded behind the datagram. -/
def Discards (r : FzReader) (d : Datagram) : Prop := (r.fill d).chunk.length ≥ MAX_EVENT_SIZE

instance (r : FzReader) (d : Datagram) : Decidable (r.Discards d) :=
  inferInstanceAs (Decidable (_ ≥ _))

/-- The same up to EMPTY words, sent and pending. -/
structure Alike (r r' : FzReader) : Prop where
  sent : r'.sent.map strip = r.sent.map strip
  chunk : strip r'.chunk = strip r.chunk

theorem strip_append (us vs : List Word) : strip (us ++ vs) = strip us ++ strip vs :=
  List.filter_append ..

theorem strip_empty {w : Word} (hw : getwordId w = .empty) (ws : List Word) :
    strip (ws ++ [w]) = strip ws := by
  simp [strip, hw]

theorem push_empty {w : Word} (hw : getwordId w = .empty) (r : FzReader) :
    r.push w = { r with chunk := r.chunk ++ [w] } := by
  have hopen : closesEvent w = false := by
    rw [← Bool.not_eq_true, closesEvent_iff, hw]
    decide
  simp [push, hopen]

theorem Alike.push (h : r.Alike r') (w : Word) : (r.push w).Alike (r'.push w) := by
  have hchunk : strip (r'.chunk ++ [w]) = strip (r.chunk ++ [w]) := by
    rw [strip_append, strip_append, h.chunk]
  unfold FzReader.push
  dsimp only
  split
  · exact ⟨by simp [h.sent, hchunk], rfl⟩
  · exact ⟨h.sent, hchunk⟩

theorem Alike.pushAll (h : r.Alike r') (ws : List Word) :
    (ws.foldl FzReader.push r).Alike (ws.foldl FzReader.push r') := by
  induction ws generalizing r r' with
  | nil => exact h
  | cons w ws ih => exact ih (h.push w)

theorem Alike.fill (h : r.Alike r') (hd : d.Renumbers d') (hharm : d.Harmless d') :
    (r.fill d).Alike (r'.fill d') := by
  obtain ⟨hthird, hrest⟩ := hd.words
  unfold FzReader.fill
  rw [d.payload_eq, d'.payload_eq, hthird, hrest]
  rcases hharm with hoff | hempty
  · rw [hoff]
    exact h.pushAll _
  · -- The word that one of the two skips leaves no trace.
    have hleft : (r.push d.third).Alike r' := by
      rw [push_empty hempty]
      exact ⟨h.sent, by rw [strip_empty hempty, h.chunk]⟩
    have hright : r.Alike (r'.push d.third) := by
      rw [push_empty hempty]
      exact ⟨h.sent, by rw [strip_empty hempty, h.chunk]⟩
    split_ifs
    · exact h.pushAll _
    · exact hright.pushAll _
    · exact hleft.pushAll _
    · exact (h.push _).pushAll _

theorem udpHandler_discards (h : r.Discards d) :
    (r.udpHandler d).sent = (r.fill d).sent ∧ (r.udpHandler d).chunk = [] := by
  unfold FzReader.udpHandler
  dsimp only
  rw [if_pos (show (r.fill d).chunk.length ≥ MAX_EVENT_SIZE from h)]
  exact ⟨rfl, rfl⟩

theorem udpHandler_keeps (h : ¬ r.Discards d) :
    (r.udpHandler d).sent = (r.fill d).sent ∧ (r.udpHandler d).chunk = (r.fill d).chunk := by
  unfold FzReader.udpHandler
  dsimp only
  rw [if_neg (show ¬ (r.fill d).chunk.length ≥ MAX_EVENT_SIZE from h)]
  exact ⟨rfl, rfl⟩

theorem Alike.udpHandler (h : r.Alike r') (hd : d.Renumbers d') (hharm : d.Harmless d')
    (hdiscard : r.Discards d ↔ r'.Discards d') :
    (r.udpHandler d).Alike (r'.udpHandler d') := by
  have hfill := h.fill hd hharm
  by_cases hsize : r.Discards d
  · obtain ⟨hsent, hchunk⟩ := udpHandler_discards hsize
    obtain ⟨hsent', hchunk'⟩ := udpHandler_discards (hdiscard.1 hsize)
    exact ⟨by rw [hsent, hsent', hfill.sent], by rw [hchunk, hchunk']⟩
  · obtain ⟨hsent, hchunk⟩ := udpHandler_keeps hsize
    obtain ⟨hsent', hchunk'⟩ := udpHandler_keeps fun h' => hsize (hdiscard.2 h')
    exact ⟨by rw [hsent, hsent', hfill.sent], by rw [hchunk, hchunk', hfill.chunk]⟩

/-- Along both streams no sequence number decides over a word that is not EMPTY, and
pending chunks are discarded behind the same datagrams. -/
def Unmoved (r r' : FzReader) : List Datagram → List Datagram → Prop
  | d :: ds, d' :: ds' =>
      d.Harmless d' ∧ (r.Discards d ↔ r'.Discards d') ∧
        Unmoved (r.udpHandler d) (r'.udpHandler d') ds ds'
  | _, _ => True

theorem Alike.run (h : r.Alike r') (hds : List.Forall₂ Datagram.Renumbers ds ds')
    (hmoved : r.Unmoved r' ds ds') : (r.run ds).Alike (r'.run ds') := by
  induction hds generalizing r r' with
  | nil => exact h
  | cons hd _ ih => exact ih (h.udpHandler hd hmoved.1 hmoved.2.1) hmoved.2.2

/-- Other sequence numbers do not change the chunks, up to EMPTY words, if none of them
makes the handler skip a word that is not EMPTY. -/
theorem run_renumbered (hds : List.Forall₂ Datagram.Renumbers ds ds')
    (hmoved : Unmoved {} {} ds ds') :
    (run {} ds').sent.map strip = (run {} ds).sent.map strip :=
  (Alike.run ⟨rfl, rfl⟩ hds hmoved).sent

/-- `run_renumbered` on a datagram with an EMPTY word in front of its payload. -/
theorem padded_renumbered :
    (run {} [⟨[0, 0x8080, 0x8001, 0xE001, 0xC800], by decide⟩]).sent.map strip =
      (run {} [⟨[0, 1, 0x8001, 0xE001, 0xC800], by decide⟩]).sent.map strip := by
  exact run_renumbered (.cons rfl .nil) ⟨.inr (by decide), by decide, trivial⟩

/-- The EC word of an event is lost in the datagram number 0x8080. -/
theorem number_8080_drops :
    Datagram.Renumbers ⟨[0, 1, 0xE001, 0xC001, 0xA000, 0xD000, 0xC800], by decide⟩
        ⟨[0, 0x8080, 0xE001, 0xC001, 0xA000, 0xD000, 0xC800], by decide⟩ ∧
      (run {} [⟨[0, 1, 0xE001, 0xC001, 0xA000, 0xD000, 0xC800], by decide⟩]).sent =
        [[0xE001, 0xC001, 0xA000, 0xD000, 0xC800]] ∧
      (run {} [⟨[0, 0x8080, 0xE001, 0xC001, 0xA000, 0xD000, 0xC800], by decide⟩]).sent =
        [[0xC001, 0xA000, 0xD000, 0xC800]] :=
  ⟨rfl, rfl, rfl⟩

end FzReader

end FzDaq.Reader
