import Reti.Net
import Reti.Lib.CString
import Reti.Lib.Transducer
import Reti.Lib.Words

/-!
# Reti.Forza.Telemetry

The telemetry receiver (`forza_telemetry.c`): one struct, allocated once, that every
datagram is received into, and that is printed if the race is on.  Nothing but a negative
length is rejected, so a short datagram leaves the end of the struct as it was.

All members of the struct have four bytes.  Their values stand for what is printed: the
line with the speed and the colour of the first line are computed from them.
-/

namespace Reti.Forza

open CStr Transducer Words

/-! ## the struct -/

/-- The conversion a member is printed with. -/
inductive Format where
  | d
  | u
  | f2
  | f3
  deriving DecidableEq, Repr

structure Field where
  name : String
  format : Format
  deriving DecidableEq, Repr

/-- The members of `struct SledData`, in the order in which `print_sled_data` also prints
them. -/
def fields : List Field :=
  [⟨"isRaceOn", .d⟩, ⟨"timestampMS", .u⟩, ⟨"engineMaxRpm", .f2⟩, ⟨"engineIdleRpm", .f2⟩,
   ⟨"currentEngineRpm", .f2⟩, ⟨"accelerationX", .f3⟩, ⟨"accelerationY", .f3⟩,
   ⟨"accelerationZ", .f3⟩, ⟨"velocityX", .f3⟩, ⟨"velocityY", .f3⟩, ⟨"velocityZ", .f3⟩,
   ⟨"angularVelocityX", .f3⟩, ⟨"angularVelocityY", .f3⟩, ⟨"angularVelocityZ", .f3⟩, ⟨"yaw", .f3⟩,
   ⟨"pitch", .f3⟩, ⟨"roll", .f3⟩, ⟨"normSuspensionTravelFL", .f3⟩, ⟨"normSuspensionTravelFR", .f3⟩,
   ⟨"normSuspensionTravelRL", .f3⟩, ⟨"normSuspensionTravelRR", .f3⟩, ⟨"tireSlipRatioFL", .f3⟩,
   ⟨"tireSlipRatioFR", .f3⟩, ⟨"tireSlipRatioRL", .f3⟩, ⟨"tireSlipRatioRR", .f3⟩,
   ⟨"tireSlipAngleFL", .f3⟩, ⟨"tireSlipAngleFR", .f3⟩, ⟨"tireSlipAngleRL", .f3⟩,
   ⟨"tireSlipAngleRR", .f3⟩, ⟨"tireCombinedSlipFL", .f3⟩, ⟨"tireCombinedSlipFR", .f3⟩,
   ⟨"tireCombinedSlipRL", .f3⟩, ⟨"tireCombinedSlipRR", .f3⟩, ⟨"suspensionTravelMetersFL", .f3⟩,
   ⟨"suspensionTravelMetersFR", .f3⟩, ⟨"suspensionTravelMetersRL", .f3⟩,
   ⟨"suspensionTravelMetersRR", .f3⟩, ⟨"wheelSpeedFL", .f3⟩, ⟨"wheelSpeedFR", .f3⟩,
   ⟨"wheelSpeedRL", .f3⟩, ⟨"wheelSpeedRR", .f3⟩, ⟨"throttle", .f3⟩, ⟨"steer", .f3⟩, ⟨"brake", .f3⟩,
   ⟨"clutch", .f3⟩, ⟨"gear", .f3⟩, ⟨"gForceLat", .f3⟩, ⟨"gForceLong", .f3⟩, ⟨"lap", .f3⟩,
   ⟨"racePosition", .f3⟩, ⟨"accel", .f3⟩]

def sizeofSledData : Nat := 204

/-- There is no padding. -/
theorem sizeofSledData_eq : sizeofSledData = 4 * fields.length := rfl

/-- The members with their values, as `print_sled_data` prints them. -/
def printSledData (sledData : Buf sizeofSledData) : List (Field × Nat) :=
  fields.zip (words sledData.bytes)

/-- `sledData->isRaceOn == 0`. -/
def RaceOff (sledData : Buf sizeofSledData) : Prop := (words sledData.bytes).head? = some 0

instance (sledData : Buf sizeofSledData) : Decidable (RaceOff sledData) :=
  inferInstanceAs (Decidable (_ = _))

/-- The screen, if there is anything to show. -/
def display (sledData : Buf sizeofSledData) : List (List (Field × Nat)) :=
  if RaceOff sledData then [] else [printSledData sledData]

/-! ## the loop -/

/-- One iteration: the struct, and what is displayed. -/
def iteration (sledData : Buf sizeofSledData) :
    Recv → Buf sizeofSledData × List (List (Field × Nat))
  | .failed => (sledData, [])
  | .got d => (sledData.fill d.payload, display (sledData.fill d.payload))

/-- What is displayed for a datagram that comes after `rs`, the struct being allocated in
memory that holds `heap`. -/
def displayed (heap : Buf sizeofSledData) (rs : List Recv) (d : Datagram) :
    List (List (Field × Nat)) :=
  (iteration (run iteration heap rs).1 (.got d)).2

/-- The datagram decides that nothing is displayed. -/
def SaysOff (d : Datagram) : Prop :=
  4 ≤ d.payload.length ∧ ∀ b ∈ d.payload.take 4, b = 0

/-! ## what a datagram overwrites -/

theorem length_bytes (b : Buf sizeofSledData) : b.bytes.length = 4 * fields.length :=
  b.length_eq.trans sizeofSledData_eq

/-- What is printed tells the whole struct. -/
theorem printSledData_inj {b b' : Buf sizeofSledData} (h : printSledData b = printSledData b') :
    b = b' := by
  have hsnd : ∀ b : Buf sizeofSledData, (printSledData b).map Prod.snd = words b.bytes := by
    intro b
    exact List.map_snd_zip (Nat.le_of_eq (length_words (length_bytes b)))
  apply Buf.ext
  apply words_inj (length_bytes b) (length_bytes b')
  rw [← hsnd, ← hsnd, h]

theorem raceOff_iff (b : Buf sizeofSledData) : RaceOff b ↔ ∀ x ∈ b.bytes.take 4, x = 0 :=
  head_words_eq_zero_iff (by rw [b.length_eq]; decide)

/-- `isRaceOn` of a datagram that has it. -/
theorem raceOff_fill_iff (b : Buf sizeofSledData) {xs : List UInt8} (h : 4 ≤ xs.length) :
    RaceOff (b.fill xs) ↔ ∀ x ∈ xs.take 4, x = 0 := by
  have hsize : 4 ≤ sizeofSledData := by decide
  have htake : (b.fill xs).bytes.take 4 = xs.take 4 := by
    rw [Buf.fill, List.take_append_of_le_length (by rw [List.length_take]; omega), List.take_take,
      Nat.min_eq_left hsize]
  rw [raceOff_iff, htake]

/-- A datagram that is too short for `isRaceOn` takes it from the memory. -/
theorem not_raceOff_of_short {b : Buf sizeofSledData} {xs : List UInt8} (h : xs.length < 4) :
    ¬RaceOff ((b.memset 255).fill xs) := by
  have hsize : 4 ≤ sizeofSledData := by decide
  rw [raceOff_iff, b.bytes_memset_fill 255 (by omega)]
  intro hzero
  have hmem : (255 : UInt8) ∈ (xs ++ List.replicate (sizeofSledData - xs.length) 255).take 4 := by
    rw [List.take_append, List.mem_append, List.take_replicate, List.mem_replicate]
    exact Or.inr ⟨by omega, rfl⟩
  exact absurd (hzero 255 hmem) (by decide)

/-! ## two runs -/

/-- What a datagram displays that leaves nothing of the struct, or turns the display off. -/
theorem displayed_congr {d : Datagram} (h : sizeofSledData ≤ d.payload.length ∨ SaysOff d)
    (heap heap' : Buf sizeofSledData) (rs rs' : List Recv) :
    displayed heap rs d = displayed heap' rs' d := by
  simp only [displayed, iteration]
  obtain hwhole | hoff := h
  · rw [Buf.fill_eq_of_length_le hwhole _ (run iteration heap' rs').1]
  · have hnothing : ∀ b : Buf sizeofSledData, display (b.fill d.payload) = [] :=
      fun b => if_pos ((raceOff_fill_iff b hoff.1).mpr hoff.2)
    rw [hnothing, hnothing]

/-- Any other datagram shows what was in the memory at its end. -/
theorem displayed_ne {d : Datagram} (hshort : d.payload.length < sizeofSledData)
    (hon : ¬SaysOff d) :
    displayed ((Buf.zero sizeofSledData).memset 255) [] d ≠
      displayed ((Buf.zero sizeofSledData).memset 0) [] d := by
  have hshown : ¬RaceOff (((Buf.zero sizeofSledData).memset 255).fill d.payload) := by
    obtain h | h := Nat.lt_or_ge d.payload.length 4
    · exact not_raceOff_of_short h
    · rw [raceOff_fill_iff _ h]
      exact fun hzero => hon ⟨h, hzero⟩
  show display (((Buf.zero sizeofSledData).memset 255).fill d.payload) ≠
    display (((Buf.zero sizeofSledData).memset 0).fill d.payload)
  rw [display, if_neg hshown, display]
  split
  · exact List.cons_ne_nil _ _
  · intro heq
    -- both are displayed: the first byte behind the datagram is not the same
    have hsame := printSledData_inj (List.singleton_inj.mp heq)
    have hbytes := congrArg Buf.bytes hsame
    rw [Buf.bytes_memset_fill _ _ (Nat.le_of_lt hshort),
      Buf.bytes_memset_fill _ _ (Nat.le_of_lt hshort), List.append_right_inj] at hbytes
    obtain ⟨n, hn⟩ : ∃ n, sizeofSledData - d.payload.length = n + 1 :=
      Nat.exists_eq_succ_of_ne_zero (by omega)
    rw [hn, List.replicate_succ, List.replicate_succ] at hbytes
    exact absurd (List.cons.inj hbytes).1 (by decide)

/-- **No stale values**: a datagram leads to the same display after whatever was received
before, and whatever was in the memory, exactly if it is as long as the struct, or has an
`isRaceOn` that is zero. -/
theorem displayed_eq_iff (d : Datagram) :
    (∀ (heap heap' : Buf sizeofSledData) (rs rs' : List Recv),
      displayed heap rs d = displayed heap' rs' d) ↔
      sizeofSledData ≤ d.payload.length ∨
        (4 ≤ d.payload.length ∧ ∀ b ∈ d.payload.take 4, b = 0) := by
  constructor
  · intro hall
    by_contra hnot
    rw [not_or] at hnot
    exact displayed_ne (Nat.not_le.mp hnot.1) hnot.2 (hall _ _ [] [])
  · intro h heap heap' rs rs'
    exact displayed_congr h heap heap' rs rs'

/-- A datagram with `isRaceOn` alone, and another that was whole before it: the other
members that are displayed are those of the other one. -/
theorem short_datagram_shows_stale :
    let first := fun b => Recv.got ⟨default, List.replicate sizeofSledData b⟩
    displayed (Buf.zero sizeofSledData) [first 1] ⟨default, [1, 0, 0, 0]⟩ ≠
      displayed (Buf.zero sizeofSledData) [first 2] ⟨default, [1, 0, 0, 0]⟩ := by
  decide +kernel

end Reti.Forza
