/-!
The data types of `opqdata.hpp`.
-/
namespace Opqbox.OpqData

/-- Grid cycles per second. -/
def CYCLES_PER_SEC : Nat := 60
/-- Sampling rate per cycle. -/
def SAMPLES_PER_CYCLE : Nat := 200

/-- An AC cycle of 16 bit signed samples. -/
structure OPQCycle where
  data : Vector (BitVec 16) SAMPLES_PER_CYCLE
  last_gps_counter : BitVec 16
  current_counter : BitVec 16
  flags : BitVec 32

/-- Several cycles and their timestamps. -/
structure OPQMeasurement where
  cycles : List OPQCycle
  timestamps : List Nat

end Opqbox.OpqData
