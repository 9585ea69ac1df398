import FzDaq.Parser.Encoding

/-!
# Numbers of several words

An energy, a baseline, a sine and a cosine are sent in two or three words. What
these stand for is said here in whole numbers; what the parser makes of them is a
`Numbers`.
-/

namespace FzDaq.Parser

/-! ## Sine and cosine -/

/-- The number that three words make. -/
def adcNumber (a b c : Word) : Nat := a.toNat * 2 ^ 22 + b.toNat * 2 ^ 7 + c.toNat / 256

/-- The same, with its bit 36 as the sign. -/
def adcValue (a b c : Word) : Int := (BitVec.ofNat 37 (adcNumber a b c)).toInt

/-- A sum of type `int` behind the test of bit 36. -/
def widened (v : Int) : Int := if v < 0 then v - 2 ^ 37 else v

theorem adcSum_toInt (a b c : Word) :
    ((a.toUInt32 <<< 22) + (b.toUInt32 <<< 7) + (c.toUInt32 >>> 8)).toInt32.toInt =
      (adcNumber a b c : Int).bmod (2 ^ 32) := by
  have hb := b.toNat_lt
  have hc := c.toNat_lt
  have hnat : ((a.toUInt32 <<< 22) + (b.toUInt32 <<< 7) + (c.toUInt32 >>> 8)).toNat =
      adcNumber a b c % 2 ^ 32 := by
    simp [adcNumber, Nat.shiftLeft_eq, Nat.shiftRight_eq_div_pow]
  have hint (x : UInt32) : x.toInt32.toInt = (x.toNat : Int).bmod (2 ^ 32) :=
    BitVec.toInt_eq_toNat_bmod x.toBitVec
  rw [hint, hnat, Int.natCast_emod]
  exact Int.emod_bmod _ (2 ^ 32)

/-- In a number of 32 bits that has been widened, bit 36 is the sign. -/
theorem bit36_iff (x : Int32) : x.toInt64 &&& 0x1000000000 ≠ 0 ↔ x.toInt < 0 := by
  have hbit : (0x1000000000 : Int64).toBitVec = BitVec.twoPow 64 36 := by decide
  have hne : BitVec.twoPow 64 36 ≠ 0#64 := by decide
  have hmsb : x.toBitVec.msb = decide (x.toInt < 0) := BitVec.msb_eq_toInt
  rw [Ne, ← Int64.toBitVec_inj, Int64.toBitVec_and, hbit, BitVec.and_twoPow,
    Int32.toBitVec_toInt64, BitVec.getLsbD_signExtend, hmsb]
  simp [hne]

theorem widen_toInt (x : Int32) :
    (if x.toInt64 &&& 0x1000000000 ≠ 0 then (0xFFFFFFE000000000 : UInt64).toInt64 + x.toInt64
      else x.toInt64).toInt = widened x.toInt := by
  have hlow := x.le_toInt
  have hhigh := x.toInt_lt
  simp only [bit36_iff, widened]
  split
  · have hmask : (0xFFFFFFE000000000 : UInt64).toInt64.toInt = -2 ^ 37 := by decide
    rw [Int64.toInt_add, Int32.toInt_toInt64, hmask, Int.bmod_eq_of_le (by omega) (by omega)]
    omega
  · exact Int32.toInt_toInt64 x

theorem adcOf_toInt (a b c : Word) :
    (adcOf a b c).toInt = widened ((adcNumber a b c : Int).bmod (2 ^ 32)) := by
  rw [← adcSum_toInt]
  exact widen_toInt _

/-- The value is right as long as the number fits in an `int`. -/
theorem adcOf_eq_iff {a b c : Word} (ha : a.toNat < 2 ^ 15) (hb : b.toNat < 2 ^ 15)
    (hc : c.toNat < 2 ^ 15) : (adcOf a b c).toInt = adcValue a b c ↔ a.toNat < 512 := by
  have hnum : adcNumber a b c = a.toNat * 2 ^ 22 + b.toNat * 2 ^ 7 + c.toNat / 256 := rfl
  have hsmall : a.toNat < 512 ↔ adcNumber a b c < 2 ^ 31 := by omega
  have hlt : adcNumber a b c < 2 ^ 37 := by omega
  rw [adcOf_toInt, adcValue, BitVec.toInt_ofNat', hsmall]
  generalize adcNumber a b c = n at hlt
  simp only [widened, Int.bmod_def]
  omega

namespace Wire

/-! ## Energies and baselines -/

/-- The number of 30 bits that two words make. -/
def pairNumber (high low : Word) : Nat := high.toNat * 2 ^ 15 + low.toNat

/-- The same, with its bit 29 as the sign. -/
def pairValue (high low : Word) : Int := (BitVec.ofNat 30 (pairNumber high low)).toInt

/-- An energy in thousandths of its rise time, computed in single precision. -/
def energyUnits (risetime high low : Word) : Float32 :=
  (UInt32.ofNat (pairNumber high low)).toFloat32 / risetime.toFloat32 * 1000

/-- What is made of the numbers that a section carries in several words. -/
structure Numbers where
  energy : (high low : Word) → UInt32
  units : (risetime high low : Word) → UInt32
  baseline : (first second : Word) → Float32
  adc : Word → Word → Word → Int64

/-- The numbers that the words stand for. Nothing is said of an energy that is too large
for a `uint32_t` in units of its rise time, or whose rise time is 0. -/
structure Numbers.Right (N : Numbers) : Prop where
  energy (high low : Data) : (N.energy high.1 low.1).toNat = pairNumber high.1 low.1
  units (risetime high low : Data) : energyUnits risetime.1 high.1 low.1 < 4294967296 →
    N.units risetime.1 high.1 low.1 = (energyUnits risetime.1 high.1 low.1).toUInt32
  baseline (first second : Data) :
    N.baseline first.1 second.1 = Float32.ofInt (pairValue first.1 second.1) / 16
  adc (a b c : Data) : (N.adc a.1 b.1 c.1).toInt = adcValue a.1 b.1 c.1

end Wire

/-! ## What the parser makes of them -/

open Wire

theorem data_toNat_lt (w : Data) : w.1.toNat < 2 ^ 15 :=
  Nat.lt_succ_of_le (UInt16.le_iff_toNat_le.1 w.2)

theorem energy_toNat (high low : Data) :
    ((high.1.toUInt32 <<< 15) + low.1.toUInt32).toNat = pairNumber high.1 low.1 := by
  have hhigh := data_toNat_lt high
  have hlow := data_toNat_lt low
  simp only [UInt32.toNat_add, UInt32.toNat_shiftLeft, UInt16.toNat_toUInt32, pairNumber]
  change (high.1.toNat <<< 15 % 2 ^ 32 + low.1.toNat) % 2 ^ 32 = _
  rw [Nat.shiftLeft_eq]
  omega

theorem energy_eq (high low : Data) :
    (high.1.toUInt32 <<< 15) + low.1.toUInt32 = UInt32.ofNat (pairNumber high.1 low.1) := by
  rw [← energy_toNat, UInt32.ofNat_toNat]

theorem baselineOf_eq (first second : Data) :
    baselineOf first.1 second.1 = Float32.ofInt (pairValue first.1 second.1) / 16 := by
  have hfirst := data_toNat_lt first
  have hsecond := data_toNat_lt second
  have hvalue : (if (first.1.toNat * 2 ^ 15 + second.1.toNat : Int) > 536870911 then
      (first.1.toNat * 2 ^ 15 + second.1.toNat : Int) - 1073741824
      else first.1.toNat * 2 ^ 15 + second.1.toNat) = pairValue first.1 second.1 := by
    rw [pairValue, BitVec.toInt_ofNat', Int.bmod_def, pairNumber]
    push_cast
    omega
  rw [← hvalue]
  rfl

/-- The value of a sine or cosine is right as long as its number fits in an `int`. -/
theorem adcOf_data_iff (a b c : Data) :
    (adcOf a.1 b.1 c.1).toInt = adcValue a.1 b.1 c.1 ↔ a.1.toNat < 512 :=
  adcOf_eq_iff (data_toNat_lt a) (data_toNat_lt b) (data_toNat_lt c)

theorem Wire.Numbers.Right.adc_eq {N : Numbers} (hN : N.Right) {a b c : Data}
    (ha : a.1.toNat < 512) : adcOf a.1 b.1 c.1 = N.adc a.1 b.1 c.1 :=
  Int64.toInt_inj.1 (((adcOf_data_iff a b c).2 ha).trans (hN.adc a b c).symm)

namespace Env

/-- The numbers as the parser reads them. -/
def numbers (E : Env) : Numbers where
  energy high low := (high.toUInt32 <<< 15) + low.toUInt32
  units risetime high low := E.scaleEnergy ((high.toUInt32 <<< 15) + low.toUInt32) risetime
  baseline := baselineOf
  adc := adcOf

/-- The same, but for sine and cosine, which are right. -/
def rightNumbers (E : Env) : Numbers :=
  { E.numbers with adc := fun a b c => Int64.ofInt (adcValue a b c) }

@[simp] theorem rightNumbers_energy (E : Env) : E.rightNumbers.energy = E.numbers.energy := rfl

@[simp] theorem rightNumbers_units (E : Env) : E.rightNumbers.units = E.numbers.units := rfl

@[simp] theorem rightNumbers_baseline (E : Env) :
    E.rightNumbers.baseline = E.numbers.baseline := rfl

theorem rightNumbers_right (E : Env) : E.rightNumbers.Right where
  energy := energy_toNat
  units risetime high low hrange := by
    change E.scaleEnergy ((high.1.toUInt32 <<< 15) + low.1.toUInt32) risetime.1 = _
    rw [scaleEnergy, energy_eq]
    exact if_pos hrange
  baseline := baselineOf_eq
  adc a b c := by
    have hlow := BitVec.le_toInt (BitVec.ofNat 37 (adcNumber a.1 b.1 c.1))
    have hhigh := BitVec.toInt_lt (x := BitVec.ofNat 37 (adcNumber a.1 b.1 c.1))
    change (Int64.ofInt (adcValue a.1 b.1 c.1)).toInt = _
    rw [adcValue, Int64.toInt_ofInt_of_le (by omega) (by omega)]

end Env

end FzDaq.Parser
