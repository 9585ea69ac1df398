import FzDaq.Parser.Cursor

/-!
# Content of a message

What a message holds of the event that was sent: everything but the fields
`len_error` and `crc_error`, in which the parser notes what it thinks of it.
-/

namespace FzDaq.Parser

def Energy.content (en : Energy) : Energy := { en with lenError := none }

def Waveform.content (wf : Waveform) : Waveform := { wf with lenError := none }

def FzData.content (d : FzData) : FzData :=
  { d with
    energy := d.energy.map Energy.content
    waveform := d.waveform.map Waveform.content }

def FzHit.content (h : FzHit) : FzHit := { h with data := h.data.map FzData.content }

def FzFee.content (r : FzFee) : FzFee :=
  { r with hit := r.hit.map FzHit.content, lenError := none, crcError := none }

def FzBlock.content (b : FzBlock) : FzBlock :=
  { b with fee := b.fee.map FzFee.content, lenError := none, crcError := none }

def FzEvent.content (e : FzEvent) : FzEvent := { e with block := e.block.map FzBlock.content }

@[simp] theorem FzHit.content_addData (h : FzHit) (d : FzData) :
    (h.addData d).content = h.content.addData d.content := by
  simp [addData, content]

@[simp] theorem FzFee.content_addHit (r : FzFee) (h : FzHit) :
    (r.addHit h).content = r.content.addHit h.content := by
  simp [addHit, content]

@[simp] theorem FzBlock.content_addFee (b : FzBlock) (r : FzFee) :
    (b.addFee r).content = b.content.addFee r.content := by
  simp [addFee, content]

@[simp] theorem Energy.content_content (en : Energy) : en.content.content = en.content := rfl

@[simp] theorem Waveform.content_content (wf : Waveform) : wf.content.content = wf.content := rfl

@[simp] theorem FzData.content_content (d : FzData) : d.content.content = d.content := by
  simp only [content, Option.map_map]
  rfl

theorem FzData.content_onWf (d : FzData) {f : Waveform → Waveform}
    (hf : ∀ wf : Waveform, (f wf).content = f wf.content) :
    FzData.content { d with waveform := d.waveform.map f } =
      { d.content with waveform := d.content.waveform.map f } := by
  simp [content, Option.map_map, Function.comp_def, hf]

theorem FzData.content_onEn (d : FzData) {f : Energy → Energy}
    (hf : ∀ en : Energy, (f en).content = f en.content) :
    FzData.content { d with energy := d.energy.map f } =
      { d.content with energy := d.content.energy.map f } := by
  simp [content, Option.map_map, Function.comp_def, hf]

theorem FzData.content_wfFlag (d : FzData) (bad : Bool) :
    FzData.content
        { d with waveform := d.waveform.map fun wf => { wf with lenError := some bad } } =
      d.content := by
  simp only [content, Option.map_map]
  rfl

theorem FzData.content_enFlag (d : FzData) (bad : Bool) :
    FzData.content { d with energy := d.energy.map fun en => { en with lenError := some bad } } =
      d.content := by
  simp only [content, Option.map_map]
  rfl

end FzDaq.Parser
