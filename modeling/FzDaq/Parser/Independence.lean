import FzDaq.Parser.Flags
import FzDaq.Parser.Lockstep

/-!
# Chunks and the objects that parse them

Which object of the pool parses a chunk does not matter, as long as the machine
writes what it reads. The saved checksums are the one exception: the gathering
loops of the basic format, and waveform records of length zero, go on with the
checksums that the last waveform of some earlier event has left behind. What a name table
reads as behind its end, and what an energy out of range is converted to, has to be the same.
-/

namespace FzDaq.Parser

open Machine

theorem Chunk.env_pads_self (ch : Chunk) (fmt : Format) (past past' : Chunk.Past) :
    (ch.env fmt past).Pads (ch.env fmt past') id where
  word _ := rfl
  lt k := Nat.lt_succ_self k
  gap k j hkj hjk := by simp only [id_eq] at hkj hjk; omega
  front j hj := by simp at hj
  size := rfl

namespace Fsm

variable {s s' r : Fsm} {ch : Chunk} {fmt : Format} {past past' : Chunk.Past} {fuel : Nat}

/-- No turn of the call goes on with checksums that an earlier call has saved. -/
def OwnChecksums (E : Env) (s : Fsm) : Prop :=
  ∀ saved c, Comes E s saved c → E.loop.halted c = false → c.restores E = true → saved = true

/-- No turn of the call reads behind the samples of a block of trigger infos. -/
def WholeTriples (E : Env) (s : Fsm) : Prop :=
  ∀ c w, E.loop.Visits (E.entry s) c → c.Takes E w .t16 → c.ragged E w = false

/-- Any two objects parse a chunk alike, if no turn goes on with the checksums of
an earlier chunk. -/
theorem parse_independent (hstr : past'.str = past.str) (hrange : past'.range = past.range)
    (hrun : s.parse (ch.env fmt past) fuel = .ended r)
    (hown : OwnChecksums (ch.env fmt past) s) (hwhole : WholeTriples (ch.env fmt past) s) :
    ∃ (fuel' : Nat) (r' : Fsm) (δ : FsmReport),
      s'.parse (ch.env fmt past') fuel' = .ended r' ∧ r'.retval = r.retval ∧ r'.ev = r.ev ∧
      (r.retval = .PARSE_OK → r'.eventIsEmpty = r.eventIsEmpty) ∧
      r.report = s.report.add δ ∧ r'.report = s'.report.add δ := by
  have hp : Parallel (ch.env fmt past) (ch.env fmt past') id s s' := {
    akin := ⟨rfl, Nat.le_refl _, by simp only [Chunk.env, hstr], hrange,
      ch.env_pastTotal fmt past'⟩
    pads := Chunk.env_pads_self ch fmt past past'
    ragged := fun c w hc htakes => .inl (hwhole c w hc htakes)
    together := fun _ _ _ _ _ _ _ => rfl
    restores := fun saved c hc hhalt hr => .inr (hown saved c hc hhalt hr) }
  obtain ⟨fuel', r', δ, hrun', hret, hev, hempty, hδ, hδ'⟩ :=
    hp.parse (ch.env_carries fmt past) (ch.env_carries fmt past') hrun
  exact ⟨fuel', r', δ.add (traffic (ch.env fmt past)), hrun', hret, hev, hempty, hδ, hδ'⟩

/-- `parse_independent` on a waveform record of two samples. -/
theorem sampled_independent :
    ∃ r, Fsm.parse (sampled.env .tag .zero) 20 {} = .ended r ∧
      ∃ (fuel' : Nat) (r' : Fsm) (δ : FsmReport),
        Fsm.parse (sampled.env .tag .zero) fuel' { saveFeecrc := 1, tagDone := true } = .ended r' ∧
        r'.retval = r.retval ∧ r'.ev = r.ev ∧
        (r.retval = .PARSE_OK → r'.eventIsEmpty = r.eventIsEmpty) ∧
        r.report = FsmReport.add {} δ ∧ r'.report = FsmReport.add {} δ := by
  obtain ⟨r, hrun⟩ : ∃ r, Fsm.parse (sampled.env .tag .zero) 20 {} = .ended r := ⟨_, rfl⟩
  have hturns :=
    takes_of_everyTurn (P := fun c _ _ => !c.restores (sampled.env .tag .zero)) hrun rfl
  refine ⟨r, hrun,
    parse_independent rfl rfl hrun (fun saved c hc hhalt hr => ?_) fun _ _ _ _ => rfl⟩
  obtain ⟨w, htakes⟩ := takes_of_endsWaveform (Bool.and_eq_true_iff.1 hr).1
  exact absurd hr (by simpa using hturns c w _ ⟨hc.reaches, hhalt⟩ htakes)

/-- One section with a waveform of one sample, in the basic format. -/
def oneSample : Chunk where
  body := [0xE001, 0x9800, 1, 2, 0x9100, 7, 1, 5, 0xA008, 0xB050, 0xE001, 0xC001, 0xA00E, 0xD000]
  regid := 0xC800
  regid_id := getwordId_c800
  body_id := Chunk.ne_regid_of_all rfl

/-- A new object finds the checksum of the FEE right or wrong by what the memory it
lies in held before. -/
theorem oneSample_depends :
    ∃ r r', Fsm.parse (oneSample.env .basic .zero) 15 { saveFeecrc := 0 } = .ended r ∧
      Fsm.parse (oneSample.env .basic .zero) 15 { saveFeecrc := 1 } = .ended r' ∧
      r.retval = .PARSE_OK ∧ (r.ev.block.flatMap (·.fee)).map (·.crcError) = [some false] ∧
      (r'.ev.block.flatMap (·.fee)).map (·.crcError) = [some true] :=
  ⟨_, _, rfl, rfl, rfl, rfl, rfl⟩

end Fsm

end FzDaq.Parser
