import FzDaq.Parser.Numbers

/-!
# The wire format

An event as the acquisition cards mean it, the words that they send for it, and
the message that a parser should make of these words, given what it makes of the
numbers of several words. The two formats share
everything but the trigger pattern behind the tags of a telescope and the words
behind a DETID word; a `Layout` stands for these.
-/

namespace FzDaq.Parser.Wire

/-- What a format adds to the common grammar. -/
structure Layout where
  /-- The words behind a DETID word, by the type of data. -/
  Body : FzDataType → Type
  words : ∀ {t : FzDataType}, Body t → List Word
  toData : Numbers → ∀ {t : FzDataType}, Body t → FzData
  /-- The parser reads the numbers of the section as they are meant. -/
  Exact : ∀ {t : FzDataType}, Body t → Prop
  Trigpat : Type
  trigpat : Trigpat → Option Data

structure Section (L : Layout) (feeid : Fin 16) where
  dtype : Fin 8
  detid : Fin 4
  body : L.Body (dataType feeid detid dtype)

structure Telescope (L : Layout) where
  spare : Fin 64
  feeid : Fin 16
  telid : Fin 2
  gttag : Data
  dettag : Data
  trigpat : L.Trigpat
  first : Section L feeid
  others : List (Section L feeid)

structure Fee (L : Layout) where
  first : Telescope L
  others : List (Telescope L)
  length : Fin 4096
  crcfe : Fin 4096

/-- The block id 0x7FF is that of the block of trigger infos. -/
structure Block (L : Layout) where
  fees : List (Fee L)
  blkid : Fin 2048
  length : Fin 4096
  crcbl : Fin 4096
  blkid_ne : blkid ≠ 0x7FF

theorem blkid_five_ne : (5#11).toFin ≠ (0x7FF : Fin 2048) := by decide

structure Event (L : Layout) where
  ec : Fin 4096
  first : Block L
  others : List (Block L)
  regid : Fin 2048

variable {L : Layout}

/-! ## Words -/

/-- A DETID word repeats the ids of the telescope. -/
def Section.words {feeid : Fin 16} (telid : Fin 2) (sec : Section L feeid) : List Word :=
  detidWord sec.dtype (detectorBits sec.detid) feeid telid :: L.words sec.body

def Telescope.sections (t : Telescope L) : List (Section L t.feeid) := t.first :: t.others

def Telescope.tags (t : Telescope L) : List Word :=
  t.gttag.1 :: t.dettag.1 :: ((L.trigpat t.trigpat).map (·.1)).toList

def Telescope.words (t : Telescope L) : List Word :=
  telidWord t.spare t.feeid t.telid :: (t.tags ++ t.sections.flatMap (Section.words t.telid))

def Fee.telescopes (f : Fee L) : List (Telescope L) := f.first :: f.others

def Fee.words (f : Fee L) : List Word :=
  f.telescopes.flatMap Telescope.words ++ [lengthWord f.length, crcfeWord f.crcfe]

def Block.words (ec : Fin 4096) (b : Block L) : List Word :=
  ecWord ec :: (b.fees.flatMap (fun f => f.words ++ [ecWord ec]) ++
    [blkidWord b.blkid, lengthWord b.length, crcblWord b.crcbl])

def Event.blocks (e : Event L) : List (Block L) := e.first :: e.others

def Event.words (e : Event L) : List Word :=
  e.blocks.flatMap (Block.words e.ec) ++ [regidWord e.regid]

/-! ## Messages

The fields `len_error` and `crc_error` are the parser's own and not set here. -/

variable (N : Numbers)

def Telescope.toHit (ec : Fin 4096) (t : Telescope L) (sec : Section L t.feeid) : FzHit :=
  { ec := some (UInt32.ofNat ec)
    telid := some t.telid
    detid := some sec.detid
    feeid := some t.feeid
    gttag := some t.gttag.1.toUInt32
    dettag := some t.dettag.1.toUInt32
    data := [L.toData N sec.body]
    trigpat := (L.trigpat t.trigpat).map (·.1.toUInt32) }

def Telescope.toHits (ec : Fin 4096) (t : Telescope L) : List FzHit :=
  t.sections.map (t.toHit N ec)

def Fee.toFee (ec : Fin 4096) (f : Fee L) : FzFee :=
  { feeid := some f.first.feeid
    hit := f.telescopes.flatMap (Telescope.toHits N ec) }

def Block.toBlock (ec : Fin 4096) (b : Block L) : FzBlock :=
  { blkid := some (UInt32.ofNat b.blkid)
    fee := b.fees.map (Fee.toFee N ec) }

def Event.toEvent (e : Event L) : FzEvent :=
  { ec := some (UInt32.ofNat e.ec)
    block := e.blocks.map (Block.toBlock N e.ec)
    regid := some (UInt32.ofNat e.regid) }

/-! ## Sections -/

/-- The sections of an event all have the property `P`. -/
def Event.EverySection (e : Event L) (P : ∀ {ty : FzDataType}, L.Body ty → Prop) : Prop :=
  ∀ b ∈ e.blocks, ∀ f ∈ b.fees, ∀ t ∈ f.telescopes, ∀ sec ∈ t.sections, P sec.body

variable {N} {N' : Numbers} {ec : Fin 4096}

theorem Telescope.toHits_eq_iff {t : Telescope L} : t.toHits N ec = t.toHits N' ec ↔
    ∀ sec ∈ t.sections, L.toData N sec.body = L.toData N' sec.body := by
  rw [toHits, toHits, List.map_inj_left]
  simp [toHit]

/-- Lists put together of pieces of the same lengths are equal only if the pieces are. -/
theorem flatMap_inj_left {α β : Type} {f g : α → List β} {xs : List α}
    (hlen : ∀ x ∈ xs, (f x).length = (g x).length) :
    xs.flatMap f = xs.flatMap g ↔ ∀ x ∈ xs, f x = g x := by
  induction xs with
  | nil => simp
  | cons x xs ih =>
      rw [List.flatMap_cons, List.flatMap_cons, List.forall_mem_cons,
        ← ih fun y hy => hlen y (List.mem_cons_of_mem x hy)]
      constructor
      · exact fun h => List.append_inj h (hlen x List.mem_cons_self)
      · rintro ⟨hhead, htail⟩
        rw [hhead, htail]

theorem Fee.toFee_eq_iff {f : Fee L} : f.toFee N ec = f.toFee N' ec ↔
    ∀ t ∈ f.telescopes, t.toHits N ec = t.toHits N' ec := by
  rw [← flatMap_inj_left fun t _ => by simp [Telescope.toHits]]
  simp [toFee]

/-- Two readings of the numbers make the same of an event only if they make the same of each
of its sections. -/
theorem Event.toEvent_eq_iff {e : Event L} : e.toEvent N = e.toEvent N' ↔
    e.EverySection fun bd => L.toData N bd = L.toData N' bd := by
  simp [toEvent, Block.toBlock, Fee.toFee_eq_iff, Telescope.toHits_eq_iff, EverySection]

end FzDaq.Parser.Wire
