import FzDaq.Parser.Content
import FzDaq.Parser.Grammar

/-!
# Records of the tag format

The words behind a DETID word are records: a tag, a length word and a payload, or
a void word alone. The data message of a section is that of its records, and it
grows by one record at a time.
-/

namespace FzDaq.Parser

namespace Wire

inductive Record where
  | void
  | pretrigger (len pretrig : Data)
  | waveform (samples : Samples)
  | baseline (len first second : Data)
  | slow (len risetime high low : Data)
  | fast (len risetime high low : Data)

namespace Record

def tag : Record → Word
  | void => TAG_VOID
  | pretrigger .. => TAG_PRETRIGGER
  | waveform .. => TAG_WAVEFORM
  | baseline .. => TAG_BASELINE
  | slow .. => TAG_SLOW
  | fast .. => TAG_FAST

/-- The length words of records of a fixed length are not looked at. -/
def words : Record → List Word
  | void => [TAG_VOID]
  | pretrigger len pretrig => [TAG_PRETRIGGER, len.1, pretrig.1]
  | waveform samples => TAG_WAVEFORM :: samples.count.1 :: samples.words
  | baseline len first second => [TAG_BASELINE, len.1, first.1, second.1]
  | slow len risetime high low => [TAG_SLOW, len.1, risetime.1, high.1, low.1]
  | fast len risetime high low => [TAG_FAST, len.1, risetime.1, high.1, low.1]

def pretrig? : Record → Option UInt32
  | pretrigger _ pretrig => some pretrig.1.toUInt32
  | _ => none

def samples? : Record → Option (List Nat)
  | waveform samples => some samples.values
  | _ => none

def baseline? (N : Numbers) : Record → Option Float32
  | baseline _ first second => some (N.baseline first.1 second.1)
  | _ => none

def slow? (N : Numbers) : Record → Option UInt32
  | slow _ risetime high low => some (N.units risetime.1 high.1 low.1)
  | _ => none

def fast? (N : Numbers) : Record → Option UInt32
  | fast _ risetime high low => some (N.units risetime.1 high.1 low.1)
  | _ => none

/-- The data message with one more record. -/
def fill (N : Numbers) (D : FzData) : Record → FzData
  | void => D
  | pretrigger _ pretrig =>
      { D with
        waveform := some { D.waveform.getD {} with pretrig := some pretrig.1.toUInt32 } }
  | waveform samples =>
      let wf := D.waveform.getD {}
      { D with waveform := some { wf with sample := wf.sample ++ samples.values } }
  | baseline _ first second => { D with baseline := some (N.baseline first.1 second.1) }
  | slow _ risetime high low | fast _ risetime high low =>
      let en := D.energy.getD {}
      { D with energy := some { en with
          value := en.value ++ [N.units risetime.1 high.1 low.1] } }

/-- The place that the record fills is free. -/
def Fits (D : FzData) : Record → Prop
  | waveform _ => (D.waveform.getD {}).sample = []
  | slow .. => (D.energy.getD {}).value = []
  | fast .. => (D.energy.getD {}).value.length = 1
  | _ => True

end Record

/-- The records of one section: each of them at most once, the energy of the fast shaper
after that of the slow one, and void words between them. -/
structure TagBody where
  records : List Record
  ne_nil : records ≠ []
  once : records.Pairwise fun x y => x.tag = y.tag → x.tag = TAG_VOID
  after_slow : ∀ pre x post, records = pre ++ x :: post → x.tag = TAG_FAST →
    ∃ y ∈ pre, y.tag = TAG_SLOW

/-- The data message of the records `rs`. -/
def recordsData (N : Numbers) (ty : FzDataType) (rs : List Record) : FzData :=
  { type := some ty
    energy := (rs.findSome? (Record.slow? N)).map fun v =>
      { value := v :: (rs.findSome? (Record.fast? N)).toList }
    waveform :=
      if (rs.findSome? Record.pretrig?).isSome || (rs.findSome? Record.samples?).isSome then
        some
          { pretrig := rs.findSome? Record.pretrig?
            sample := (rs.findSome? Record.samples?).getD [] }
      else none
    baseline := rs.findSome? (Record.baseline? N) }

/-- No record has a sine or a cosine. -/
theorem recordsData_rightNumbers (E : Env) (ty : FzDataType) (rs : List Record) :
    recordsData E.numbers ty rs = recordsData E.rightNumbers ty rs := by
  have hslow : Record.slow? E.numbers = Record.slow? E.rightNumbers := by
    funext x
    cases x <;> simp only [Record.slow?, Env.rightNumbers_units]
  have hfast : Record.fast? E.numbers = Record.fast? E.rightNumbers := by
    funext x
    cases x <;> simp only [Record.fast?, Env.rightNumbers_units]
  have hbaseline : Record.baseline? E.numbers = Record.baseline? E.rightNumbers := by
    funext x
    cases x <;> simp only [Record.baseline?, Env.rightNumbers_baseline]
  rw [recordsData, recordsData, hslow, hfast, hbaseline]

/-! ## One more record -/

variable {N : Numbers} {pre : List Record} {x : Record} {ty : FzDataType}

/-- The record `x` may follow the records `pre` of its section. -/
structure Record.Follows (pre : List Record) (x : Record) : Prop where
  once : ∀ y ∈ pre, y.tag = x.tag → x.tag = TAG_VOID
  slow : x.tag = TAG_FAST → ∃ y ∈ pre, y.tag = TAG_SLOW
  fast : ∀ y ∈ pre, y.tag = TAG_FAST → ∃ z ∈ pre, z.tag = TAG_SLOW

theorem TagBody.follows (bd : TagBody) {post : List Record}
    (h : bd.records = pre ++ x :: post) : x.Follows pre := by
  refine ⟨fun y hy => ?_, bd.after_slow pre x post h, fun y hy htag => ?_⟩
  · have honce := bd.once
    rw [h, List.pairwise_append] at honce
    intro htag
    have hvoid := honce.2.2 y hy x (by simp) htag
    rwa [htag] at hvoid
  · obtain ⟨as, bs, rfl⟩ := List.append_of_mem hy
    obtain ⟨z, hz, hslow⟩ := bd.after_slow as y (bs ++ x :: post) (by simp [h]) htag
    exact ⟨z, List.mem_append_left _ hz, hslow⟩

theorem findSome?_eq_none {α : Type} {f : Record → Option α} {tg : Word}
    (hf : ∀ y, (f y).isSome → y.tag = tg) (h : ∀ y ∈ pre, y.tag ≠ tg) :
    pre.findSome? f = none := by
  rw [List.findSome?_eq_none_iff]
  intro y hy
  by_contra hsome
  exact h y hy (hf y (Option.isSome_iff_ne_none.2 hsome))

theorem pretrig?_tag (y : Record) (h : y.pretrig?.isSome) : y.tag = TAG_PRETRIGGER := by
  cases y <;> first | rfl | cases h

theorem samples?_tag (y : Record) (h : y.samples?.isSome) : y.tag = TAG_WAVEFORM := by
  cases y <;> first | rfl | cases h

theorem baseline?_tag (y : Record) (h : (y.baseline? N).isSome) : y.tag = TAG_BASELINE := by
  cases y <;> first | rfl | cases h

theorem slow?_tag (y : Record) (h : (y.slow? N).isSome) : y.tag = TAG_SLOW := by
  cases y <;> first | rfl | cases h

theorem fast?_tag (y : Record) (h : (y.fast? N).isSome) : y.tag = TAG_FAST := by
  cases y <;> first | rfl | cases h

theorem recordsData_content (ty : FzDataType) (rs : List Record) :
    (recordsData N ty rs).content = recordsData N ty rs := by
  simp only [recordsData, FzData.content, Option.map_map]
  congr 1
  split <;> rfl

theorem recordsData_waveform (ty : FzDataType) (rs : List Record) :
    (recordsData N ty rs).waveform.getD {} =
      { pretrig := rs.findSome? Record.pretrig?
        sample := (rs.findSome? Record.samples?).getD [] } := by
  unfold recordsData
  dsimp only
  split
  · rfl
  · rename_i hnone
    obtain ⟨hpre, hsample⟩ : rs.findSome? Record.pretrig? = none ∧
        rs.findSome? Record.samples? = none := by simpa using hnone
    rw [hpre, hsample]
    rfl

namespace Record.Follows

theorem free (h : x.Follows pre) {tg : Word} (hx : x.tag = tg) (hvoid : tg ≠ TAG_VOID) :
    ∀ y ∈ pre, y.tag ≠ tg := by
  rintro y hy rfl
  exact hvoid (hx.symm.trans (h.once y hy hx.symm))

/-- Before the first energy there is none, before the second there is the first. -/
theorem energy_slow (h : x.Follows pre) (hx : x.tag = TAG_SLOW) :
    (recordsData N ty pre).energy = none := by
  rw [recordsData, findSome?_eq_none slow?_tag (h.free hx (by decide))]
  rfl

theorem energy_fast (h : x.Follows pre) (hx : x.tag = TAG_FAST) (ty : FzDataType) :
    ∃ v, pre.findSome? (slow? N) = some v ∧
      (recordsData N ty pre).energy = some { value := [v] } := by
  obtain ⟨y, hy, htag⟩ := h.slow hx
  have hsome : (pre.findSome? (slow? N)).isSome := by
    refine List.findSome?_isSome_iff.2 ⟨y, hy, ?_⟩
    cases y <;> first | rfl | cases htag
  obtain ⟨v, hv⟩ := Option.isSome_iff_exists.1 hsome
  refine ⟨v, hv, ?_⟩
  rw [recordsData, hv, findSome?_eq_none fast?_tag (h.free hx (by decide))]
  rfl

/-- A record finds its place free. -/
theorem fits (h : x.Follows pre) : x.Fits (recordsData N ty pre) := by
  cases x with
  | waveform xs =>
      have hnone := findSome?_eq_none samples?_tag (h.free rfl (by decide))
      rw [Fits, recordsData_waveform, hnone]
      rfl
  | slow len risetime high low =>
      rw [Fits, h.energy_slow rfl]
      rfl
  | fast len risetime high low =>
      obtain ⟨v, _, hen⟩ := h.energy_fast rfl ty
      rw [Fits, hen]
      rfl
  | _ => trivial

theorem recordsData_concat (h : x.Follows pre) :
    recordsData N ty (pre ++ [x]) = x.fill N (recordsData N ty pre) := by
  cases x with
  | void =>
      simp [recordsData, fill, List.findSome?_append, pretrig?, samples?, baseline?, slow?, fast?]
  | pretrigger len p =>
      have hnone := findSome?_eq_none pretrig?_tag (h.free rfl (by decide))
      rw [fill, recordsData_waveform]
      simp [recordsData, List.findSome?_append, pretrig?, samples?, baseline?, slow?, fast?, hnone]
  | waveform xs =>
      have hnone := findSome?_eq_none samples?_tag (h.free rfl (by decide))
      rw [fill, recordsData_waveform]
      simp [recordsData, List.findSome?_append, pretrig?, samples?, baseline?, slow?, fast?, hnone]
  | baseline len first second =>
      have hnone := findSome?_eq_none (baseline?_tag (N := N)) (h.free rfl (by decide))
      simp [recordsData, fill, List.findSome?_append, pretrig?, samples?, baseline?, slow?, fast?,
        hnone]
  | slow len risetime high low =>
      have hfree : ∀ y ∈ pre, y.tag ≠ TAG_SLOW := h.free rfl (by decide)
      have hnone := findSome?_eq_none (slow?_tag (N := N)) hfree
      have hfast : pre.findSome? (fast? N) = none := findSome?_eq_none fast?_tag fun y hy htag => by
        obtain ⟨z, hz, hslow⟩ := h.fast y hy htag
        exact hfree z hz hslow
      rw [fill, h.energy_slow rfl]
      simp [recordsData, List.findSome?_append, pretrig?, samples?, baseline?, slow?, fast?, hnone,
        hfast]
  | fast len risetime high low =>
      obtain ⟨v, hv, hen⟩ := h.energy_fast rfl ty
      have hnone := findSome?_eq_none (fast?_tag (N := N)) (h.free rfl (by decide))
      rw [fill, hen]
      simp [recordsData, List.findSome?_append, pretrig?, samples?, baseline?, slow?, fast?, hnone,
        hv]

end Record.Follows

def tagLayout : Layout where
  Body _ := TagBody
  words bd := bd.records.flatMap Record.words
  toData N {ty} bd := recordsData N ty bd.records
  Exact _ := True
  Trigpat := Data
  trigpat p := some p

end Wire

end FzDaq.Parser
