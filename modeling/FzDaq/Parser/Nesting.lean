import FzDaq.Parser.Shows

/-!
# Reading the common grammar

The triples of single words put together along the grammar: sections to
telescopes, telescopes to fees, fees to blocks, blocks to the event. What a
format adds comes in through `Layout.Decodes`, and `parse_words` is the round
trip of any layout that decodes.
-/

namespace FzDaq.Parser

open Machine Wire

namespace Wire

/-- No DATA word stands here. -/
def Closes (rest : List Word) : Prop := ∃ w ws, rest = w :: ws ∧ ¬ w ≤ 0x7FFF

theorem closes_cons {w : Word} {ws : List Word} (h : getwordId w ≠ .data) : Closes (w :: ws) :=
  ⟨w, ws, rfl, fun hle => h ((getwordId_data_iff w).2 hle)⟩

/-- The parser reads the words of the layout as the data that they stand for. -/
structure Layout.Decodes (L : Layout) (fmt : Format) : Prop where
  trigpat : ∀ p, (L.trigpat p).isSome = true ↔ fmt = .tag
  body : ∀ {ty : FzDataType} (bd : L.Body ty) (E : Env) (ec : UInt32) (Bs : List FzBlock)
    (B : FzBlock) (R : FzFee) (H : FzHit), E.evformat = fmt →
    E.scanner.Reads (Fsm.Shows E ec .s4 (.data Bs B R H (Fsm.freshData fmt ty))) (L.words bd) Closes
      (Fsm.EndsAs E ec Bs B R H (L.toData E.numbers bd))
  exact : ∀ {ty : FzDataType} (bd : L.Body ty) (E : Env), L.Exact bd →
    L.toData E.numbers bd = L.toData E.rightNumbers bd

end Wire

def FzFee.addHits (r : FzFee) (hs : List FzHit) : FzFee := { r with hit := r.hit ++ hs }

theorem FzFee.addHits_addHit (r : FzFee) (hs : List FzHit) (h : FzHit) :
    (r.addHits hs).addHit h = r.addHits (hs ++ [h]) := by
  simp [addHits, addHit]

namespace Fsm

variable {E : Env} {L : Layout} {fmt : Format} {c : Fin 4096} {Bs : List FzBlock} {B : FzBlock}
  {R : FzFee} {H : FzHit}

/-- The hit of a telescope before its first section. -/
def header (c : Fin 4096) (t : Telescope L) : FzHit :=
  { ec := some (UInt32.ofNat c)
    telid := some t.telid
    feeid := some t.feeid
    gttag := some t.gttag.1.toUInt32
    dettag := some t.dettag.1.toUInt32
    trigpat := (L.trigpat t.trigpat).map (·.1.toUInt32) }

/-- The object is at the end of a section of the telescope `t`, in a fee that holds `R`
if the section ends here. -/
def InTelescope (E : Env) (c : Fin 4096) (Bs : List FzBlock) (B : FzBlock) (t : Telescope L)
    (R : FzFee) (s : Fsm) : Prop :=
  ∃ x : FzFee × FzHit × FzData,
    s.EndsAs E (UInt32.ofNat c) Bs B x.1 x.2.1 x.2.2 ∧
      x.1.addHit (x.2.1.addData x.2.2) = R ∧ x.2.1.gttag = (header c t).gttag ∧
      x.2.1.dettag = (header c t).dettag ∧ x.2.1.trigpat = (header c t).trigpat

/-! ## Telescopes -/

theorem reads_tags (t : Telescope L) (N : List Word → Prop) :
    E.scanner.Reads (Shows E (UInt32.ofNat c) .s2 (.hit Bs B R
      { ec := some (UInt32.ofNat c), telid := some t.telid, feeid := some t.feeid })) t.tags N
      (Shows E (UInt32.ofNat c) .s3 (.hit Bs B R (header c t))) := by
  unfold Telescope.tags header
  cases L.trigpat t.trigpat with
  | none =>
      exact (reads_gttag t.gttag _).cons
        ((reads_dettag t.dettag N).consequence (fun _ h => h) fun _ h => h.1)
  | some p =>
      exact (reads_gttag t.gttag _).cons ((reads_dettag t.dettag _).cons (reads_trigpat p N))

/-- A DETID word repeats the type and the ids. -/
theorem reads_section_first (hL : L.Decodes fmt) (hf : E.evformat = fmt) (t : Telescope L)
    (sec : Section L t.feeid) :
    E.scanner.Reads (Shows E (UInt32.ofNat c) .s3 (.hit Bs B R (header c t)))
      (sec.words t.telid) Closes (InTelescope E c Bs B t (R.addHit (t.toHit E.numbers c sec))) := by
  have hword := getwordId_detidWord sec.dtype (detectorBits sec.detid) t.feeid t.telid
  refine .cons (reads_detid_first hword _) ?_
  rw [hf, sectionType_detidWord, detid_detidWord]
  refine (hL.body sec.body E _ _ _ _ _ hf).consequence (fun _ h => h) fun s hs => ?_
  exact ⟨(_, { header c t with detid := some sec.detid }, L.toData E.numbers sec.body), hs,
    rfl, rfl, rfl, rfl⟩

/-- The hit of a later section takes the tags from the one before it. -/
theorem sectionHit_detidWord (hL : L.Decodes fmt) (t : Telescope L) (sec : Section L t.feeid)
    (last : FzHit) (hgttag : last.gttag = (header c t).gttag)
    (hdettag : last.dettag = (header c t).dettag)
    (htrigpat : last.trigpat = (header c t).trigpat) :
    sectionHit fmt (some (UInt32.ofNat c)) last
        (detidWord sec.dtype (detectorBits sec.detid) t.feeid t.telid) =
      { header c t with detid := some sec.detid } := by
  have hsome := hL.trigpat t.trigpat
  cases fmt with
  | basic =>
      have hnone : L.trigpat t.trigpat = none := by simpa using hsome
      simp [sectionHit, header, hgttag, hdettag, feeid_detidWord, telid_detidWord,
        detid_detidWord, hnone, detectorBits]
  | tag =>
      obtain ⟨p, hp⟩ := Option.isSome_iff_exists.1 (hsome.2 rfl)
      simp [sectionHit, header, hgttag, hdettag, htrigpat, feeid_detidWord, telid_detidWord,
        detid_detidWord, hp, detectorBits]

theorem reads_section_next (hL : L.Decodes fmt) (hf : E.evformat = fmt) (t : Telescope L)
    (sec : Section L t.feeid) :
    E.scanner.Reads (InTelescope E c Bs B t R) (sec.words t.telid) Closes
      (InTelescope E c Bs B t (R.addHit (t.toHit E.numbers c sec))) := by
  refine .of_exists fun ⟨R', H, D⟩ => .of_pure ?_
  rintro ⟨rfl, hgttag, hdettag, htrigpat⟩
  have hword := getwordId_detidWord sec.dtype (detectorBits sec.detid) t.feeid t.telid
  refine .cons (reads_detid hword _) ?_
  rw [hf, sectionType_detidWord,
    sectionHit_detidWord hL t sec (H.addData D) hgttag hdettag htrigpat]
  refine (hL.body sec.body E _ _ _ _ _ hf).consequence (fun _ h => h) fun s hs => ?_
  exact ⟨(_, { header c t with detid := some sec.detid }, L.toData E.numbers sec.body), hs,
    rfl, rfl, rfl, rfl⟩

theorem closes_section {feeid : Fin 16} (telid : Fin 2) (sec : Section L feeid)
    (rest : List Word) : Closes (sec.words telid ++ rest) :=
  closes_cons (by simp [getwordId_detidWord])

theorem reads_telescope (hL : L.Decodes fmt) (hf : E.evformat = fmt) (t : Telescope L) :
    E.scanner.Reads (Shows E (UInt32.ofNat c) .s2 (.hit Bs B R
      { ec := some (UInt32.ofNat c), telid := some t.telid, feeid := some t.feeid }))
      (t.tags ++ t.sections.flatMap (Section.words t.telid)) Closes
      (InTelescope E c Bs B t (R.addHits (t.toHits E.numbers c))) := by
  have hsections : E.scanner.Reads (Shows E (UInt32.ofNat c) .s3 (.hit Bs B R (header c t)))
      (t.sections.flatMap (Section.words t.telid)) Closes
      (InTelescope E c Bs B t (R.addHits (t.toHits E.numbers c))) :=
    .flatMap_cons
      (I := fun secs => InTelescope E c Bs B t (R.addHits (secs.map (t.toHit E.numbers c))))
      (reads_section_first hL hf t t.first)
      (fun pre sec _ _ => by
        rw [List.map_append, List.map_singleton, ← FzFee.addHits_addHit]
        exact reads_section_next hL hf t sec)
      (closes_section t.telid) fun _ h => h
  exact (reads_tags t fun _ => True).append hsections fun _ _ => trivial

/-! ## Fees -/

theorem closes_telescope (t : Telescope L) (rest : List Word) : Closes (t.words ++ rest) :=
  closes_cons (by simp [getwordId_telidWord])

theorem reads_telescopes (hL : L.Decodes fmt) (hf : E.evformat = fmt) (f : Fee L) :
    E.scanner.Reads (Shows E (UInt32.ofNat c) .s1 (.blk Bs B))
      (f.telescopes.flatMap Telescope.words) Closes
      (fun s => ∃ t : Telescope L, s.InTelescope E c Bs B t (f.toFee E.numbers c)) := by
  refine .flatMap_cons
    (I := fun ts s => ∃ t : Telescope L, InTelescope E c Bs B t
      { feeid := some f.first.feeid, hit := ts.flatMap (Telescope.toHits E.numbers c) } s)
    ?_ (fun pre t _ _ => .of_exists fun t' => ?_) closes_telescope fun _ h => h
  · refine .cons (reads_telid_first f.first.spare _ _ _)
      ((reads_telescope hL hf f.first).consequence (fun _ h => h) fun s hs => ⟨f.first, ?_⟩)
    simpa [FzFee.addHits] using hs
  · refine .of_exists fun ⟨R', H, D⟩ => .of_pure ?_
    rintro ⟨hR, -⟩
    refine .cons (reads_telid t.spare _ _ _)
      ((reads_telescope hL hf t).consequence (fun _ h => h) fun s hs => ⟨t, ?_⟩)
    rw [hR] at hs
    simpa [FzFee.addHits] using hs

theorem reads_fee (hL : L.Decodes fmt) (hf : E.evformat = fmt) (f : Fee L) (N : List Word → Prop) :
    E.scanner.Reads (Shows E (UInt32.ofNat c) .s1 (.blk Bs B)) (f.words ++ [ecWord c]) N
      (Shows E (UInt32.ofNat c) .s1 (.blk Bs (B.addFee (f.toFee E.numbers c)))) := by
  have hlength : E.scanner.Reads
      (fun s => ∃ t : Telescope L, s.InTelescope E c Bs B t (f.toFee E.numbers c))
      [lengthWord f.length]
      (fun _ => True) (Shows E (UInt32.ofNat c) .s6 (.fee Bs B (f.toFee E.numbers c))) := by
    refine .of_exists fun t => .of_exists fun ⟨R', H, D⟩ => .of_pure ?_
    rintro ⟨hR, -⟩
    rw [← hR]
    exact reads_length_fee f.length _
  have hend := hlength.cons ((reads_crcfe f.crcfe _).cons (reads_ec_fee N))
  rw [Fee.words, List.append_assoc]
  exact (reads_telescopes hL hf f).append hend fun _ _ =>
    closes_cons (by simp [getwordId_lengthWord])

/-! ## Blocks -/

theorem reads_blk (hL : L.Decodes fmt) (hf : E.evformat = fmt) (b : Block L)
    (N : List Word → Prop) :
    E.scanner.Reads (Shows E (UInt32.ofNat c) .s1 (.blk Bs {}))
      (b.fees.flatMap (fun f => f.words ++ [ecWord c]) ++
        [blkidWord b.blkid, lengthWord b.length, crcblWord b.crcbl]) N
      (Shows E (UInt32.ofNat c) .s10 (.done (Bs ++ [b.toBlock E.numbers c]))) := by
  have hfees : E.scanner.Reads (Shows E (UInt32.ofNat c) .s1 (.blk Bs {}))
      (b.fees.flatMap fun f => f.words ++ [ecWord c]) (fun _ => True)
      (Shows E (UInt32.ofNat c) .s1 (.blk Bs { fee := b.fees.map (Fee.toFee E.numbers c) })) :=
    .flatMap
      (I := fun fs =>
        Shows E (UInt32.ofNat c) .s1 (.blk Bs { fee := fs.map (Fee.toFee E.numbers c) }))
      (fun pre f _ _ => by
        rw [List.map_append]
        exact reads_fee hL hf f _)
      (fun _ _ => trivial) fun _ _ => trivial
  have hid : (b.toBlock E.numbers c).blkid.getD 0 ≠ 0x7FF := by
    intro hid
    have hval : (UInt32.ofNat b.blkid).toNat = b.blkid :=
      UInt32.toNat_ofNat_of_lt (by change _ < 4294967296; omega)
    exact b.blkid_ne (Fin.ext (hval.symm.trans (congrArg UInt32.toNat hid)))
  exact hfees.append ((reads_blkid _).cons ((reads_length_blk b.length _).cons
    (reads_crcbl b.crcbl hid N))) fun _ _ => trivial

theorem reads_event (hL : L.Decodes fmt) (hf : E.evformat = fmt) (e : Event L)
    (N : List Word → Prop) :
    E.scanner.Reads (fun s => s.stateId = .idle ∧ s.ev = {}) e.words N
      (fun s => s.retval = .PARSE_OK ∧ s.ev.content = e.toEvent E.numbers) := by
  have hblocks : E.scanner.Reads (fun s => s.stateId = .idle ∧ s.ev = {})
      (e.blocks.flatMap (Block.words e.ec)) (fun _ => True)
      (Shows E (UInt32.ofNat e.ec) .s10 (.done (e.blocks.map (Block.toBlock E.numbers e.ec)))) :=
    .flatMap_cons
      (I := fun bs =>
        Shows E (UInt32.ofNat e.ec) .s10 (.done (bs.map (Block.toBlock E.numbers e.ec))))
      ((reads_ec_first _).cons (reads_blk hL hf e.first _))
      (fun pre b _ _ => by
        rw [List.map_append]
        exact (reads_ec_blk _).cons (reads_blk hL hf b _))
      (fun _ _ => trivial) fun _ _ => trivial
  exact hblocks.append (reads_regid N) fun _ _ => trivial

end Fsm

/-- The event that `process` is called for has the words `ws`. -/
structure Env.Delivers (E : Env) (ws : List Word) : Prop where
  size : E.eventSize = ws.length
  word : ∀ k, k < E.eventSize → E.event k = ws[k]?

/-- The environment in which the words `ws` are the event and there is nothing else. -/
def Env.ofWords (fmt : Format) (ws : List Word) : Env where
  evformat := fmt
  eventSize := ws.length
  event k := ws[k]?
  pastValue _ := none
  pastSample _ := none
  pastStr _ _ := none
  pastRange _ _ := 0

theorem Env.ofWords_delivers (fmt : Format) (ws : List Word) : (Env.ofWords fmt ws).Delivers ws :=
  ⟨rfl, fun _ _ => rfl⟩

/-- But for the fields of the parser's own, the message is the event as it is meant. -/
def FzEvent.Holds {L : Layout} (ev : FzEvent) (e : Event L) : Prop :=
  ∃ N : Numbers, N.Right ∧ ev.content = e.toEvent N

/-- A call of `process` returns PARSE_OK, and the event that it builds is the one that was
sent, with the parser's own reading of the numbers. -/
theorem Fsm.parse_words {L : Layout} {fmt : Format} (hL : L.Decodes fmt) (e : Event L) {E : Env}
    (hf : E.evformat = fmt) (hE : E.Delivers e.words) (s : Fsm) :
    ∃ fuel r, s.parse E fuel = .ended r ∧ r.retval = .PARSE_OK ∧
      r.ev.content = e.toEvent E.numbers := by
  obtain ⟨t, hreach, hpos, hret, hev⟩ := (reads_event hL hf e fun _ => True).run
    (s := E.entry s) ⟨rfl, rfl⟩ trivial rfl hE.size hE.word
  have hends : E.loop.Ends (E.entry s) t := ⟨hreach, by
    have hpos : t.eventIndex = E.eventSize := hpos
    simp [Env.loop, hpos]⟩
  obtain ⟨fuel, hrun⟩ := parse_ended_iff.2 ⟨t, hends, rfl⟩
  exact ⟨fuel, t.finish E, hrun, hret, hev⟩

/-- The round trip of a layout: where the numbers are read as they are meant, the event is. -/
theorem Fsm.parse_words_holds {L : Layout} {fmt : Format} (hL : L.Decodes fmt) (e : Event L)
    (hexact : e.EverySection L.Exact) {E : Env} (hf : E.evformat = fmt) (hE : E.Delivers e.words)
    (s : Fsm) : ∃ fuel r, s.parse E fuel = .ended r ∧ r.retval = .PARSE_OK ∧ r.ev.Holds e := by
  obtain ⟨fuel, r, hrun, hret, hev⟩ := parse_words hL e hf hE s
  refine ⟨fuel, r, hrun, hret, E.rightNumbers, E.rightNumbers_right, hev.trans ?_⟩
  refine Event.toEvent_eq_iff.2 fun b hb f hf t ht sec hsec => ?_
  exact hL.exact sec.body E (hexact b hb f hf t ht sec hsec)

end FzDaq.Parser
