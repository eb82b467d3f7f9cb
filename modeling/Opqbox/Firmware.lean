import Mathlib.Logic.Function.Basic
import Mathlib.Tactic.SplitIfs
import Opqbox.Runs

/-!
The firmware of the sampling board (`opq.c`, `runtime_config.c`): the ring of
frames with the sample interrupt that fills it, the main loop that hands the
frames to the SPI, and the capture interrupt of the GPS pulse. The statements of
the main loop and of the sample interrupt are single steps. The main loop waits
while the sample interrupt runs; the capture and the SPI interrupt have the
higher priority and come between any two statements.
-/
namespace Opqbox.Firmware
open Opqbox.Runs

def FRAME_BUFFER_SIZE : Nat := 4
def FRAME_DATA_COUNT : Nat := 200
def OPQ_GPS_THIS_FRAME : BitVec 32 := 1

/-- OPQ data frame; `data` is used below `FRAME_DATA_COUNT`. -/
structure OPQ_Frame where
  data : Nat → BitVec 16
  last_gps_counter : BitVec 16
  current_counter : BitVec 16
  flags : BitVec 32

/-- `data[i] = v`. -/
def OPQ_Frame.store (i : Nat) (v : BitVec 16) (f : OPQ_Frame) : OPQ_Frame := { f with data := Function.update f.data i v }

@[simp] theorem OPQ_Frame.store_data_self (i : Nat) (v : BitVec 16) (f : OPQ_Frame) : (f.store i v).data i = v :=
  Function.update_self ..

theorem OPQ_Frame.store_data_of_ne {i j : Nat} (ne : j ≠ i) (v : BitVec 16) (f : OPQ_Frame) :
    (f.store i v).data j = f.data j := Function.update_of_ne ne ..

/-- `sizeof(OPQ_Frame)`. -/
def OPQ_Frame.size : Nat := 2 * FRAME_DATA_COUNT + 2 + 2 + 4

/-- A number in memory, from the lowest byte on. -/
def bytes16 (v : BitVec 16) : List (BitVec 8) := [v.setWidth 8,(v >>> 8).setWidth 8]

def bytes32 (v : BitVec 32) : List (BitVec 8) :=
  [v.setWidth 8,(v >>> 8).setWidth 8,(v >>> 16).setWidth 8,(v >>> 24).setWidth 8]

/-- The frame in memory. -/
def OPQ_Frame.bytes (f : OPQ_Frame) : List (BitVec 8) :=
  (List.range FRAME_DATA_COUNT).flatMap (fun i => bytes16 (f.data i)) ++ bytes16 f.last_gps_counter ++
    bytes16 f.current_counter ++ bytes32 f.flags

theorem OPQ_Frame.length_bytes (f : OPQ_Frame) : f.bytes.length = OPQ_Frame.size := by
  have samples : ((List.range FRAME_DATA_COUNT).flatMap fun i => bytes16 (f.data i)).length = 2 * FRAME_DATA_COUNT := by
    rw [List.length_flatMap]
    show ((List.range FRAME_DATA_COUNT).map fun _ => 2).sum = _
    rw [List.map_const',List.sum_replicate_nat,List.length_range,Nat.mul_comm]
  rw [bytes,List.length_append,List.length_append,List.length_append,samples]
  rfl

/-- `OPQ_Frame_Buffer`, with the fields of type `uint8_t` as numbers. -/
structure OPQ_Frame_Buffer where
  frames : Nat → OPQ_Frame
  head : Nat
  tail : Nat
  currentSample : Nat
  gps_pulse_flag : Nat
  gps_last_counter : BitVec 16

def init_OPQ_RunTime (b : OPQ_Frame_Buffer) : OPQ_Frame_Buffer := { b with head := 0, tail := 0, currentSample := 0 }

/-- A change of the frame at `head`. -/
def OPQ_Frame_Buffer.atHead (b : OPQ_Frame_Buffer) (change : OPQ_Frame → OPQ_Frame) : OPQ_Frame_Buffer :=
  { b with frames := Function.update b.frames b.head (change (b.frames b.head)) }

@[simp] theorem OPQ_Frame_Buffer.atHead_self (b : OPQ_Frame_Buffer) (change : OPQ_Frame → OPQ_Frame) :
    (b.atHead change).frames b.head = change (b.frames b.head) := Function.update_self ..

theorem OPQ_Frame_Buffer.atHead_of_ne (b : OPQ_Frame_Buffer) (change : OPQ_Frame → OPQ_Frame) {slot : Nat} (ne : slot ≠ b.head) :
    (b.atHead change).frames slot = b.frames slot := Function.update_of_ne ne ..

/-- `++` on a `uint8_t`. -/
def incremented (n : Nat) : Nat := (n + 1) % 256

/-- `--` on a `uint16_t`. -/
def decremented : Nat → Nat
  | 0 => 65535
  | n + 1 => n

/-! ### The SPI -/

inductive HAL_StatusTypeDef where
  | HAL_OK | HAL_ERROR | HAL_BUSY
  deriving DecidableEq

inductive HAL_LockTypeDef where
  | HAL_UNLOCKED | HAL_LOCKED
  deriving DecidableEq

inductive HAL_SPI_StateTypeDef where
  | HAL_SPI_STATE_READY | HAL_SPI_STATE_BUSY_TX
  deriving DecidableEq

/-- A byte of a frame in the ring. -/
structure BytePtr where
  slot : Nat
  offset : Nat
  deriving DecidableEq

/-- The handle of the SPI, with the enable bit of its TXE interrupt. `closing`
    holds while `SPI_CloseTx_ISR` waits for the end of the transaction. -/
structure SPI_HandleTypeDef where
  State : HAL_SPI_StateTypeDef
  Lock : HAL_LockTypeDef
  pTxBuffPtr : Option BytePtr
  TxXferSize : Nat
  TxXferCount : Nat
  txe : Bool
  closing : Bool

/-- `HAL_SPI_Transmit_IT` up to where it enables the interrupt: its status, with
    which it goes on to unlock the handle; `none` where it finds the handle
    locked and returns at once. -/
def HAL_SPI_Transmit_IT (hspi : SPI_HandleTypeDef) (pData : Option BytePtr) (Size : Nat) :
    Option (HAL_StatusTypeDef × SPI_HandleTypeDef) :=
  if hspi.Lock = .HAL_LOCKED then none
  else
    let hspi := { hspi with Lock := .HAL_LOCKED }
    if pData = none ∨ Size = 0 then some (.HAL_ERROR,hspi)
    else if hspi.State ≠ .HAL_SPI_STATE_READY then some (.HAL_BUSY,hspi)
    else some (.HAL_OK,{ hspi with State := .HAL_SPI_STATE_BUSY_TX, pTxBuffPtr := pData, TxXferSize := Size, TxXferCount := Size })

/-- `SPI_TxISR_8BIT` after the byte at `pTxBuffPtr` is written to the FIFO. -/
def SPI_TxISR_8BIT (hspi : SPI_HandleTypeDef) : SPI_HandleTypeDef :=
  let hspi := { hspi with
    pTxBuffPtr := hspi.pTxBuffPtr.map fun p => { p with offset := p.offset + 1 }
    TxXferCount := decremented hspi.TxXferCount }
  if hspi.TxXferCount = 0 then { hspi with txe := false, closing := true } else hspi

/-- An unlocked handle that is ready takes the transfer. -/
theorem HAL_SPI_Transmit_IT_ready {hspi : SPI_HandleTypeDef} (unlocked : hspi.Lock ≠ .HAL_LOCKED)
    (ready : hspi.State = .HAL_SPI_STATE_READY) (p : BytePtr) {Size : Nat} (size : Size ≠ 0) :
    HAL_SPI_Transmit_IT hspi (some p) Size = some (.HAL_OK,{ hspi with
      State := .HAL_SPI_STATE_BUSY_TX, Lock := .HAL_LOCKED, pTxBuffPtr := some p, TxXferSize := Size, TxXferCount := Size }) := by
  simp [HAL_SPI_Transmit_IT,unlocked,ready,size]

@[simp] theorem SPI_TxISR_8BIT_State (hspi : SPI_HandleTypeDef) : (SPI_TxISR_8BIT hspi).State = hspi.State := by
  simp only [SPI_TxISR_8BIT]
  split_ifs <;> rfl

@[simp] theorem SPI_TxISR_8BIT_Lock (hspi : SPI_HandleTypeDef) : (SPI_TxISR_8BIT hspi).Lock = hspi.Lock := by
  simp only [SPI_TxISR_8BIT]
  split_ifs <;> rfl

@[simp] theorem SPI_TxISR_8BIT_TxXferSize (hspi : SPI_HandleTypeDef) : (SPI_TxISR_8BIT hspi).TxXferSize = hspi.TxXferSize := by
  simp only [SPI_TxISR_8BIT]
  split_ifs <;> rfl

@[simp] theorem SPI_TxISR_8BIT_TxXferCount (hspi : SPI_HandleTypeDef) :
    (SPI_TxISR_8BIT hspi).TxXferCount = decremented hspi.TxXferCount := by
  simp only [SPI_TxISR_8BIT]
  split_ifs <;> rfl

theorem SPI_TxISR_8BIT_last {hspi : SPI_HandleTypeDef} (last : decremented hspi.TxXferCount = 0) :
    (SPI_TxISR_8BIT hspi).txe = false ∧ (SPI_TxISR_8BIT hspi).closing = true := by
  simp [SPI_TxISR_8BIT,last]

theorem SPI_TxISR_8BIT_more {hspi : SPI_HandleTypeDef} (more : decremented hspi.TxXferCount ≠ 0) :
    (SPI_TxISR_8BIT hspi).txe = hspi.txe ∧ (SPI_TxISR_8BIT hspi).closing = hspi.closing := by
  simp [SPI_TxISR_8BIT,more]

@[simp] theorem SPI_TxISR_8BIT_pTxBuffPtr (hspi : SPI_HandleTypeDef) :
    (SPI_TxISR_8BIT hspi).pTxBuffPtr = hspi.pTxBuffPtr.map fun p => { p with offset := p.offset + 1 } := by
  simp only [SPI_TxISR_8BIT]
  split_ifs <;> rfl

/-! ### The system -/

/-- The next statement of the sample interrupt. -/
inductive Callback where
  /-- It is not running. -/
  | idle
  | store (InjConvValue : BitVec 16)
  | countSample | testSample | copyGpsCounter | copyCounter | clearFlags | testPulse | clearPulse | markFrame
  | resetSample | advanceHead | wrapHead
  deriving DecidableEq

/-- The next statement of the main loop; `transmit`, `enable` and `unlock` are
    those of `HAL_SPI_Transmit_IT`. -/
inductive MainLoop where
  | testState | testFrames | transmit | enable | unlock | advanceTail | wrapTail | setPin
  deriving DecidableEq

/-- The state of the firmware, and what happened so far: the conversions, the
    frames that were completed and those handed to `HAL_SPI_Transmit_IT`, each
    with its contents then, the captured counters, and how often
    `HAL_SPI_Transmit_IT` was refused. -/
structure State where
  frameBuffer : OPQ_Frame_Buffer
  hspi3 : SPI_HandleTypeDef
  /-- The data ready pin. -/
  pin : Bool
  main : MainLoop
  sdadc : Callback
  conversions : List (BitVec 16)
  completed : List OPQ_Frame
  handed : List OPQ_Frame
  captured : List (BitVec 16)
  refused : Nat

/-- At the start of the loop in `main`. -/
def start (memory : OPQ_Frame_Buffer) : State where
  frameBuffer := init_OPQ_RunTime memory
  hspi3 := ⟨.HAL_SPI_STATE_READY,.HAL_UNLOCKED,none,0,0,false,false⟩
  pin := false
  main := .testState
  sdadc := .idle
  conversions := []
  completed := []
  handed := []
  captured := []
  refused := 0

namespace State

/-- The bytes from `pTxBuffPtr` on, to the end of the frame. -/
def unsent (s : State) : List (BitVec 8) :=
  match s.hspi3.pTxBuffPtr with
  | some p => (s.frameBuffer.frames p.slot).bytes.drop p.offset
  | none => []

/-- The sample interrupt is called and gets the value of the conversion. -/
def sample (s : State) (InjConvValue : BitVec 16) : Option State :=
  if s.sdadc = .idle then some { s with sdadc := .store InjConvValue } else none

/-- A statement of `HAL_SDADC_InjectedConvCpltCallback`. -/
def callback (s : State) (htim4 : BitVec 16) : Option State :=
  let b := s.frameBuffer
  match s.sdadc with
  | .idle => none
  | .store v => some { s with
      frameBuffer := b.atHead (.store b.currentSample v)
      conversions := s.conversions ++ [v], sdadc := .countSample }
  | .countSample => some { s with frameBuffer := { b with currentSample := incremented b.currentSample }, sdadc := .testSample }
  | .testSample => some { s with sdadc := if b.currentSample ≥ 200 then .copyGpsCounter else .idle }
  | .copyGpsCounter => some { s with
      frameBuffer := b.atHead fun f => { f with last_gps_counter := b.gps_last_counter }, sdadc := .copyCounter }
  | .copyCounter => some { s with frameBuffer := b.atHead fun f => { f with current_counter := htim4 }, sdadc := .clearFlags }
  | .clearFlags => some { s with frameBuffer := b.atHead fun f => { f with flags := 0 }, sdadc := .testPulse }
  | .testPulse => some { s with sdadc := if b.gps_pulse_flag ≠ 0 then .clearPulse else .resetSample }
  | .clearPulse => some { s with frameBuffer := { b with gps_pulse_flag := 0 }, sdadc := .markFrame }
  | .markFrame => some { s with
      frameBuffer := b.atHead fun f => { f with flags := OPQ_GPS_THIS_FRAME }, sdadc := .resetSample }
  | .resetSample => some { s with frameBuffer := { b with currentSample := 0 }, sdadc := .advanceHead }
  | .advanceHead => some { s with
      frameBuffer := { b with head := incremented b.head }
      completed := s.completed ++ [b.frames b.head], sdadc := .wrapHead }
  | .wrapHead => some { s with
      frameBuffer := if b.head ≥ FRAME_BUFFER_SIZE then { b with head := 0 } else b, sdadc := .idle }

/-- The sample interrupt leaves the SPI, the pin and the main loop alone. -/
theorem callback_shape {s t : State} {htim4 : BitVec 16} (taken : s.callback htim4 = some t) :
    ∃ b pc conversions completed,
      t = { s with frameBuffer := b, sdadc := pc, conversions := conversions, completed := completed } := by
  rw [callback] at taken
  cases at_ : s.sdadc <;> simp only [at_,Option.some.injEq,reduceCtorEq] at taken <;> subst taken <;> exact ⟨_,_,_,_,rfl⟩

/-- `HAL_TIM_IC_CaptureCallback`. -/
def HAL_TIM_IC_CaptureCallback (s : State) (captured : BitVec 16) : State :=
  { s with
    frameBuffer := { s.frameBuffer with gps_pulse_flag := 1, gps_last_counter := captured }
    captured := s.captured ++ [captured] }

/-- A statement of the loop in `main`. -/
def mainLoop (s : State) : State :=
  let b := s.frameBuffer
  match s.main with
  | .testState => { s with main := if s.hspi3.State = .HAL_SPI_STATE_READY then .testFrames else .testState }
  | .testFrames => { s with main := if b.head ≠ b.tail then .transmit else .testState }
  | .transmit =>
    match HAL_SPI_Transmit_IT s.hspi3 (some ⟨b.tail,0⟩) OPQ_Frame.size with
    | none => { s with refused := s.refused + 1, main := .advanceTail }
    | some (.HAL_OK,hspi) => { s with hspi3 := hspi, handed := s.handed ++ [b.frames b.tail], main := .enable }
    | some (_,hspi) => { s with hspi3 := hspi, refused := s.refused + 1, main := .unlock }
  | .enable => { s with hspi3 := { s.hspi3 with txe := true }, main := .unlock }
  | .unlock => { s with hspi3 := { s.hspi3 with Lock := .HAL_UNLOCKED }, main := .advanceTail }
  | .advanceTail => { s with frameBuffer := { b with tail := incremented b.tail }, main := .wrapTail }
  | .wrapTail => { s with
      frameBuffer := if b.tail ≥ FRAME_BUFFER_SIZE then { b with tail := 0 } else b, main := .setPin }
  | .setPin => { s with pin := true, main := .testState }

/-- The main loop only moves the tail of the ring. -/
theorem mainLoop_frameBuffer (s : State) : ∃ tail, s.mainLoop.frameBuffer = { s.frameBuffer with tail := tail } := by
  rw [mainLoop]
  cases s.main with
  | transmit =>
    dsimp only
    split <;> exact ⟨_,rfl⟩
  | wrapTail =>
    dsimp only
    split_ifs <;> exact ⟨_,rfl⟩
  | _ => exact ⟨_,rfl⟩

/-- The main loop leaves the sample interrupt and its histories as they are. -/
theorem mainLoop_histories (s : State) : s.mainLoop.sdadc = s.sdadc ∧ s.mainLoop.conversions = s.conversions ∧
    s.mainLoop.completed = s.completed ∧ s.mainLoop.captured = s.captured := by
  rw [mainLoop]
  cases s.main with
  | transmit =>
    dsimp only
    split <;> exact ⟨rfl,rfl,rfl,rfl⟩
  | _ => exact ⟨rfl,rfl,rfl,rfl⟩

/-- Only `HAL_SPI_Transmit_IT` starts a transfer. -/
theorem mainLoop_transfer {s : State} (other : s.main ≠ .transmit) : s.mainLoop.handed = s.handed ∧
    s.mainLoop.hspi3.pTxBuffPtr = s.hspi3.pTxBuffPtr ∧ s.mainLoop.hspi3.TxXferCount = s.hspi3.TxXferCount := by
  rw [mainLoop]
  cases at_ : s.main with
  | transmit => exact absurd at_ other
  | _ => exact ⟨rfl,rfl,rfl⟩

/-- The main loop takes no frame back. -/
theorem mainLoop_handed (s : State) : s.handed.length ≤ s.mainLoop.handed.length := by
  rw [mainLoop]
  cases s.main with
  | transmit =>
    dsimp only
    split <;> simp
  | _ => exact Nat.le_refl _

/-- `SPI3_IRQHandler`, when the TXE interrupt is enabled: the pin is lowered
    halfway, then the next byte is sent. -/
def SPI3_IRQHandler (s : State) : Option State :=
  if s.hspi3.txe then
    some { s with
      pin := if s.hspi3.TxXferSize / 2 = s.hspi3.TxXferCount then false else s.pin
      hspi3 := SPI_TxISR_8BIT s.hspi3 }
  else none

/-- The rest of `SPI_CloseTx_ISR`, at the end of the transaction. -/
def closeTx (s : State) : Option State :=
  if s.hspi3.closing then some { s with hspi3 := { s.hspi3 with State := .HAL_SPI_STATE_READY, closing := false } } else none

end State

inductive Action where
  | sample (InjConvValue : BitVec 16)
  | callback (htim4 : BitVec 16)
  | capture (captured : BitVec 16)
  | main
  | spi
  | close

def step (s : State) : Action → Option State
  | .sample v => s.sample v
  | .callback htim4 => s.callback htim4
  | .capture v => some (s.HAL_TIM_IC_CaptureCallback v)
  | .main => if s.sdadc = .idle then some s.mainLoop else none
  | .spi => s.SPI3_IRQHandler
  | .close => s.closeTx

/-! ### Runs of whole frames -/

/-- All zeros, as at power on. -/
def zeroed : OPQ_Frame_Buffer := ⟨fun _ => ⟨fun _ => 0,0,0,0⟩,0,0,0,0,0⟩

/-- The interrupts that complete a frame of equal samples, with no GPS pulse. -/
def fillFrame (v : BitVec 16) : List Action :=
  (List.replicate 199 (.sample v :: List.replicate 3 (.callback 0))).flatten ++ .sample v :: List.replicate 10 (.callback 0)

/-- The transfer of a frame. -/
def sendFrame : List Action := List.replicate 408 .spi ++ [.close]

end Opqbox.Firmware
