import Opqbox.Handshake

/-!
The handshake in numbers: frames handed over, edges, interrupts and work that
are pending, runs of the work, bytes clocked and bytes in the FIFO. The numbers
bind the level of the pin, the transfer and the position of the main loop to
each other (`Counts`), whatever both sides do.
-/
namespace Opqbox.Handshake
open Opqbox.Runs Opqbox.Firmware
open Opqbox.Driver (OPQ_CYCLE_BUFFER_SIZE)

/-- The main loop has prepared a transfer and not yet raised the pin. -/
def armed : MainLoop → Nat
  | .enable | .unlock | .advanceTail | .wrapTail | .setPin => 1
  | .testState | .testFrames | .transmit => 0

/-- For the frames handed over, the rising edges, the interrupts and work
    pending, the runs of the work, the reads that are done and running, the bytes
    of the running one and those in the FIFO. -/
structure Counts (hspi : SPI_HandleTypeDef) (main : MainLoop) (pin : Bool)
    (frames edges pending executions reads running received depth : Nat) : Prop where
  runs : executions = reads + running
  read : received ≤ 408 * running
  bytes : 408 * reads + received + depth + hspi.TxXferCount = 408 * frames
  frame : depth + hspi.TxXferCount ≤ 408
  fifo : depth ≤ 4
  raised : edges + armed main = frames
  behind : frames ≤ executions + 1
  signals : executions + pending ≤ edges
  ready : hspi.State = .HAL_SPI_STATE_READY → depth + hspi.TxXferCount = 0 ∧ hspi.txe = false ∧ hspi.closing = false
  busy : hspi.State = .HAL_SPI_STATE_BUSY_TX →
    hspi.TxXferSize = 408 ∧ (hspi.closing ↔ hspi.TxXferCount = 0) ∧ (hspi.txe ↔ main ≠ .enable ∧ 0 < hspi.TxXferCount)
  prepared : armed main = 1 → hspi.State = .HAL_SPI_STATE_BUSY_TX
  tested : main = .testFrames ∨ main = .transmit → hspi.State = .HAL_SPI_STATE_READY
  lock : hspi.Lock = .HAL_LOCKED ↔ main = .enable ∨ main = .unlock
  high : pin ↔ armed main = 0 ∧ 204 ≤ hspi.TxXferCount

section
variable {hspi : SPI_HandleTypeDef} {main : MainLoop} {pin : Bool}
  {frames edges pending executions reads running received depth : Nat}
  (counts : Counts hspi main pin frames edges pending executions reads running received depth)
include counts

/-- A transfer is in progress while bytes are left or the SPI has an interrupt to come. -/
theorem Counts.transfers (active : depth + hspi.TxXferCount ≠ 0 ∨ hspi.txe = true ∨ hspi.closing = true) :
    hspi.State = .HAL_SPI_STATE_BUSY_TX := by
  cases state : hspi.State with
  | HAL_SPI_STATE_BUSY_TX => rfl
  | HAL_SPI_STATE_READY =>
    obtain ⟨empty,no_txe,not_closing⟩ := counts.ready state
    simp [empty,no_txe,not_closing] at active

/-- Every read that is due has started, and none gets bytes of the next frame,
    while the main loop prepares a transfer. -/
theorem Counts.preparing (prepares : armed main = 1) :
    executions + 1 = frames ∧ pending = 0 ∧ depth + hspi.TxXferCount = 408 := by
  obtain ⟨runs,read,bytes,frame,fifo,raised,behind,signals,_⟩ := counts
  omega

/-- Every read has started once no transfer is in progress. -/
theorem Counts.quiet (free : hspi.State = .HAL_SPI_STATE_READY) : executions = frames ∧ edges = frames ∧ pending = 0 := by
  have empty := (counts.ready free).1
  obtain ⟨runs,read,bytes,frame,fifo,raised,behind,signals,_⟩ := counts
  omega

/-- At most one interrupt or work is pending. -/
theorem Counts.pending_le : pending ≤ 1 := by
  obtain ⟨runs,read,bytes,frame,fifo,raised,behind,signals,_⟩ := counts
  omega

/-- The pin is low until it is raised. -/
theorem Counts.low (prepares : armed main = 1) : pin = false := by
  have level := mt counts.high.mp
  simp only [prepares] at level
  exact Bool.eq_false_iff.mpr (level (by simp))

/-- Before the driver reads, a low pin means that no edge was missed. -/
theorem Counts.no_edge (low : pin = false) (none_pending : pending = 0) (none_executed : executions = 0) :
    executions + pending = edges := by
  have level := mt counts.high.mpr (by simp [low])
  obtain ⟨runs,read,bytes,frame,fifo,raised,behind,signals,_⟩ := counts
  omega

/-- The SPI asks for a byte only while some are left. -/
theorem Counts.enabled_left (enabled : hspi.txe) : 0 < hspi.TxXferCount :=
  ((counts.busy (counts.transfers (.inr (.inl enabled)))).2.2.mp enabled).2

/-- The main loop tests or proceeds without a change of the transfer. -/
theorem Counts.turn (next : MainLoop) (lock : HAL_LockTypeDef) (same : armed next = armed main) (not_enable : next ≠ .enable)
    (was_not : main ≠ .enable) (tested : next = .testFrames ∨ next = .transmit → hspi.State = .HAL_SPI_STATE_READY)
    (locked : lock = .HAL_LOCKED ↔ next = .enable ∨ next = .unlock) :
    Counts { hspi with Lock := lock } next pin frames edges pending executions reads running received depth := by
  refine { counts with
    raised := ?_, busy := ?_, prepared := ?_, tested := tested, lock := locked, high := ?_ }
  · rw [same]
    exact counts.raised
  · intro transfers
    obtain ⟨size,closes,interrupts⟩ := counts.busy transfers
    exact ⟨size,closes,by simpa [not_enable,was_not] using interrupts⟩
  · rw [same]
    exact counts.prepared
  · rw [same]
    exact counts.high

/-- The frame at the tail is handed to `HAL_SPI_Transmit_IT`. -/
theorem Counts.arm (at_ : main = .transmit) (p : BytePtr) :
    Counts { hspi with
      State := .HAL_SPI_STATE_BUSY_TX, Lock := .HAL_LOCKED, pTxBuffPtr := some p
      TxXferSize := OPQ_Frame.size, TxXferCount := OPQ_Frame.size } .enable pin
      (frames + 1) edges pending executions reads running received depth := by
  have free := counts.tested (.inr at_)
  obtain ⟨started,signalled,none_pending⟩ := counts.quiet free
  obtain ⟨empty,no_txe,not_closing⟩ := counts.ready free
  have size : OPQ_Frame.size = 408 := rfl
  have bytes := counts.bytes
  have low : ¬ pin := by
    intro high
    have := (counts.high.mp high).2
    omega
  exact { counts with
    bytes := by simp only [size]; omega
    frame := by simp only [size]; omega
    raised := by simp only [armed]; omega
    behind := by omega
    ready := by rintro ⟨⟩
    busy := fun _ => ⟨rfl,by simp [not_closing,size],by simp [no_txe]⟩
    prepared := fun _ => rfl
    tested := by simp
    lock := by simp
    high := by simp [low,armed] }

/-- The interrupt is enabled. -/
theorem Counts.enable (at_ : main = .enable) :
    Counts { hspi with txe := true } .unlock pin frames edges pending executions reads running received depth := by
  subst at_
  have full := (counts.preparing rfl).2.2
  have transfers := counts.prepared rfl
  obtain ⟨size,closes,_⟩ := counts.busy transfers
  have fifo := counts.fifo
  exact { counts with
    ready := fun free => by cases transfers.symm.trans free
    busy := fun _ => ⟨size,closes,by simp; omega⟩
    tested := by simp
    lock := by simpa using counts.lock }

/-- The pin is raised. -/
theorem Counts.raise (at_ : main = .setPin) {edge : Nat} (one : edge ≤ 1) :
    Counts hspi .testState true frames (edges + 1) (pending + edge) executions reads running received depth := by
  subst at_
  have full := (counts.preparing rfl).2.2
  have fifo := counts.fifo
  have signals := counts.signals
  exact { counts with
    signals := by omega
    busy := by simpa using counts.busy
    prepared := by rintro ⟨⟩
    tested := by simp
    lock := by simpa using counts.lock
    high := by simp only [armed]; simp; omega }

/-- A byte goes to the FIFO, and halfway the pin is lowered. -/
theorem Counts.push (enabled : hspi.txe) (room : depth < 4) :
    Counts (SPI_TxISR_8BIT hspi) main (if hspi.TxXferSize / 2 = hspi.TxXferCount then false else pin)
      frames edges pending executions reads running received (depth + 1) := by
  have transfers := counts.transfers (.inr (.inl enabled))
  obtain ⟨size,closes,interrupts⟩ := counts.busy transfers
  obtain ⟨not_enable,positive⟩ := interrupts.mp enabled
  obtain ⟨n,left⟩ := Nat.exists_eq_add_one_of_ne_zero (Nat.ne_of_gt positive)
  have next : decremented hspi.TxXferCount = n := by rw [left,decremented]
  have bytes := counts.bytes
  have frame := counts.frame
  refine { counts with
    bytes := ?_, frame := ?_, fifo := room, ready := ?_, busy := ?_, prepared := ?_, tested := ?_, lock := ?_, high := ?_ }
  · rw [SPI_TxISR_8BIT_TxXferCount,next]
    omega
  · rw [SPI_TxISR_8BIT_TxXferCount,next]
    omega
  · rw [SPI_TxISR_8BIT_State,transfers]
    rintro ⟨⟩
  · intro _
    rw [SPI_TxISR_8BIT_TxXferSize,SPI_TxISR_8BIT_TxXferCount,next]
    refine ⟨size,?_⟩
    by_cases last : n = 0
    · obtain ⟨txe,closing⟩ := SPI_TxISR_8BIT_last (next.trans last)
      simp [txe,closing,last]
    · obtain ⟨txe,closing⟩ := SPI_TxISR_8BIT_more (fun none_left => last (next.symm.trans none_left))
      rw [txe,closing]
      exact ⟨closes.trans (by omega),interrupts.trans (and_congr_right fun _ => by omega)⟩
  · rw [SPI_TxISR_8BIT_State]
    exact counts.prepared
  · rw [SPI_TxISR_8BIT_State]
    exact counts.tested
  · rw [SPI_TxISR_8BIT_Lock]
    exact counts.lock
  · rw [SPI_TxISR_8BIT_TxXferCount,next,size]
    split_ifs with half
    · simp
      omega
    · rw [counts.high]
      omega

/-- The transaction ends. -/
theorem Counts.close (closing : hspi.closing) (empty : depth = 0) :
    Counts { hspi with State := .HAL_SPI_STATE_READY, closing := false } main pin
      frames edges pending executions reads running received depth := by
  obtain ⟨size,closes,interrupts⟩ := counts.busy (counts.transfers (.inr (.inr closing)))
  have spent := closes.mp closing
  have unprepared : armed main ≠ 1 := by
    intro prepares
    have full := (counts.preparing prepares).2.2
    omega
  have no_txe : hspi.txe = false := by
    by_contra enabled
    have left := counts.enabled_left (by simpa using enabled)
    omega
  exact { counts with
    ready := fun _ => ⟨by simp only [empty,spent],no_txe,rfl⟩
    busy := by rintro ⟨⟩
    prepared := fun prepares => absurd prepares unprepared
    tested := fun _ => rfl }

end

section
variable {hspi : SPI_HandleTypeDef} {main : MainLoop} {pin : Bool}
  {frames edges pending executions reads received depth : Nat}

/-- The work starts to read. -/
theorem Counts.run (counts : Counts hspi main pin frames edges (pending + 1) executions reads 0 received depth) :
    Counts hspi main pin frames edges pending (executions + 1) reads 1 0 depth := by
  have runs := counts.runs
  have read := counts.read
  have bytes := counts.bytes
  have behind := counts.behind
  have signals := counts.signals
  exact { counts with runs := by omega, read := by omega, bytes := by omega, behind := by omega, signals := by omega }

/-- A read that is not complete is that of the last frame, which is in transfer. -/
theorem Counts.reads_last (counts : Counts hspi main pin frames edges pending executions reads 1 received depth)
    (more : received < 408) : executions = frames ∧ edges = frames ∧ pending = 0 ∧ 0 < depth + hspi.TxXferCount ∧
      hspi.State = .HAL_SPI_STATE_BUSY_TX ∧ armed main = 0 := by
  have left : depth + hspi.TxXferCount ≠ 0 := by
    obtain ⟨runs,read,bytes,frame,fifo,raised,behind,signals,_⟩ := counts
    omega
  have transfers := counts.transfers (.inl left)
  obtain ⟨runs,read,bytes,frame,fifo,raised,behind,signals,_⟩ := counts
  exact ⟨by omega,by omega,by omega,by omega,transfers,by omega⟩

/-- A byte is clocked. -/
theorem Counts.clock (counts : Counts hspi main pin frames edges pending executions reads 1 received (depth + 1))
    (more : received < 408) : Counts hspi main pin frames edges pending executions reads 1 (received + 1) depth := by
  have transfers := (counts.reads_last more).2.2.2.2.1
  have bytes := counts.bytes
  have frame := counts.frame
  have fifo := counts.fifo
  exact { counts with
    read := by omega, bytes := by omega, frame := by omega, fifo := by omega
    ready := fun free => by cases transfers.symm.trans free }

/-- A read is complete. -/
theorem Counts.done (counts : Counts hspi main pin frames edges pending executions reads 1 received depth)
    (all : received = 408) : Counts hspi main pin frames edges pending executions (reads + 1) 0 0 depth := by
  have runs := counts.runs
  have bytes := counts.bytes
  exact { counts with runs := by omega, read := by omega, bytes := by omega }

end

/-! ### The numbers of the system -/

namespace System

/-- The interrupts and work that are pending. -/
def pending (s : System) : Nat := s.irq.toNat + s.work.toNat

def running (s : System) : Nat := s.reading.isSome.toNat

/-- The bytes of the running read. -/
def received (s : System) : List (BitVec 8) := s.reading.getD []

/-- The numbers of the system fit together. -/
def Balanced (s : System) : Prop :=
  Counts s.firmware.hspi3 s.firmware.main s.firmware.pin s.firmware.handed.length s.edges s.pending s.executions
    s.reads.length s.running s.received.length s.fifo.length

theorem pending_eq_zero {s : System} (none_pending : s.pending = 0) : s.irq = false ∧ s.work = false := by
  obtain ⟨irq,work⟩ := Nat.add_eq_zero_iff.mp none_pending
  exact ⟨Bool.toNat_eq_zero.mp irq,Bool.toNat_eq_zero.mp work⟩

/-- While the interrupt is armed every rising edge has its own run of the work;
    before, the driver does nothing. -/
structure Live (s : System) : Prop where
  balanced : s.Balanced
  signalled : s.loaded → s.executions + s.pending = s.edges
  unloaded : s.loaded = false → s.pending = 0 ∧ s.reading = none ∧ s.executions = 0

end System

theorem off_live (memory : OPQ_Frame_Buffer) : (off memory).Live := by
  refine ⟨?_,nofun,fun _ => ⟨rfl,rfl,rfl⟩⟩
  constructor <;> simp [off,start,armed,System.pending,System.running,System.received]

theorem ready_live (memory : OPQ_Frame_Buffer) : (ready memory).Live :=
  ⟨(off_live memory).balanced,fun _ => rfl,nofun⟩

namespace System

/-- A step of the firmware without a rising edge. -/
theorem Live.level {s : System} {f : State} {sent : List (BitVec 8)} (live : s.Live) (level : f.pin → s.firmware.pin)
    (counts : Counts f.hspi3 f.main f.pin f.handed.length s.edges s.pending s.executions s.reads.length s.running
      s.received.length (s.fifo.length + sent.length)) : (s.follow f sent).Live := by
  rw [follow_level level]
  exact ⟨by simpa [Balanced,pending,running,received] using counts,live.signalled,live.unloaded⟩

/-- A statement of the firmware that changes neither the transfer nor the pin. -/
theorem Live.aside {s : System} {f : State} (live : s.Live) (hspi : f.hspi3 = s.firmware.hspi3) (main : f.main = s.firmware.main)
    (pin : f.pin = s.firmware.pin) (handed : f.handed = s.firmware.handed) : (s.follow f []).Live := by
  refine live.level (fun high => by rwa [pin] at high) ?_
  rw [hspi,main,pin,handed]
  exact live.balanced

/-- No interrupt is pending where the main loop raises the pin. -/
theorem Balanced.not_pending {s : System} (balanced : s.Balanced) (at_ : s.firmware.main = .setPin) : s.irq = false := by
  have none_pending := (balanced.preparing (by rw [at_]; rfl)).2.1
  exact (pending_eq_zero none_pending).1

/-- The main loop raises the pin, which is low. -/
theorem Live.setPin {s : System} (live : s.Live) (at_ : s.firmware.main = .setPin) : (s.follow s.firmware.mainLoop []).Live := by
  have low := live.balanced.low (by rw [at_]; rfl)
  have irq := live.balanced.not_pending at_
  have same : s.follow s.firmware.mainLoop [] =
      { s with firmware := { s.firmware with pin := true, main := .testState }, edges := s.edges + 1, irq := s.loaded } := by
    simp [follow,State.mainLoop,at_,low,irq]
  have now : pending { s with
      firmware := { s.firmware with pin := true, main := .testState }, edges := s.edges + 1, irq := s.loaded } = s.pending + s.loaded.toNat := by
    simp [pending,irq,Nat.add_comm]
  rw [same]
  refine ⟨?_,?_,?_⟩
  · rw [Balanced,now]
    exact live.balanced.raise at_ (Bool.toNat_le _)
  · intro loaded
    have signalled := live.signalled loaded
    rw [now,show s.loaded = true from loaded]
    show s.executions + (s.pending + 1) = s.edges + 1
    omega
  · intro unloaded
    change s.loaded = false at unloaded
    rw [now,unloaded]
    exact live.unloaded unloaded

/-- The main loop goes on without a change of the transfer or the pin. -/
theorem Live.turn {s : System} (live : s.Live) (b : OPQ_Frame_Buffer) (lock : HAL_LockTypeDef) (next : MainLoop)
    (same : armed next = armed s.firmware.main) (not_enable : next ≠ .enable) (was_not : s.firmware.main ≠ .enable)
    (tested : next = .testFrames ∨ next = .transmit → s.firmware.hspi3.State = .HAL_SPI_STATE_READY)
    (locked : lock = .HAL_LOCKED ↔ next = .enable ∨ next = .unlock) :
    (s.follow { s.firmware with frameBuffer := b, hspi3 := { s.firmware.hspi3 with Lock := lock }, main := next } []).Live :=
  live.level id (live.balanced.turn next lock same not_enable was_not tested locked)

theorem Live.mainLoop {s : System} (live : s.Live) : (s.follow s.firmware.mainLoop []).Live := by
  have balanced := live.balanced
  have lock := balanced.lock
  have turn := live.turn s.firmware.frameBuffer s.firmware.hspi3.Lock
  rw [State.mainLoop]
  cases at_ : s.firmware.main with
  | testState =>
    simp only [at_,reduceCtorEq,or_self,iff_false] at lock
    dsimp only
    split_ifs with free
    · exact turn .testFrames (by rw [at_]; rfl) (by decide) (by rw [at_]; decide) (fun _ => free) (by simp [lock])
    · exact turn .testState (by rw [at_]) (by decide) (by rw [at_]; decide) (by simp) (by simp [lock])
  | testFrames =>
    have free := balanced.tested (.inl at_)
    simp only [at_,reduceCtorEq,or_self,iff_false] at lock
    dsimp only
    split_ifs with waits
    · exact turn .transmit (by rw [at_]; rfl) (by decide) (by rw [at_]; decide) (fun _ => free) (by simp [lock])
    · exact turn .testState (by rw [at_]; rfl) (by decide) (by rw [at_]; decide) (by simp) (by simp [lock])
  | transmit =>
    have free := balanced.tested (.inr at_)
    simp only [at_,reduceCtorEq,or_self,iff_false] at lock
    rw [HAL_SPI_Transmit_IT_ready lock free ⟨s.firmware.frameBuffer.tail,0⟩ (by decide)]
    refine live.level id ?_
    rw [List.length_append]
    exact balanced.arm at_ _
  | enable => exact live.level id (balanced.enable at_)
  | unlock =>
    exact live.turn s.firmware.frameBuffer .HAL_UNLOCKED .advanceTail (by rw [at_]; rfl) (by decide) (by rw [at_]; decide)
      (by simp) (by simp)
  | advanceTail =>
    exact live.turn _ s.firmware.hspi3.Lock .wrapTail (by rw [at_]; rfl) (by decide) (by rw [at_]; decide)
      (by simp) (by simpa [at_] using lock)
  | wrapTail =>
    exact live.turn _ s.firmware.hspi3.Lock .setPin (by rw [at_]; rfl) (by decide) (by rw [at_]; decide)
      (by simp) (by simpa [at_] using lock)
  | setPin =>
    have raised := live.setPin at_
    rwa [State.mainLoop,at_] at raised

theorem Live.firmwareStep {s t : System} {a : Firmware.Action} (live : s.Live) (taken : s.firmwareStep a = some t) : t.Live := by
  obtain ⟨⟨_,allowed⟩,stepped⟩ := Option.ite_none_right_eq_some.mp taken
  obtain ⟨f,moved,rfl⟩ := Option.map_eq_some_iff.mp stepped
  cases a with
  | sample v =>
    obtain ⟨_,same⟩ := Option.ite_none_right_eq_some.mp moved
    cases same
    exact live.aside rfl rfl rfl rfl
  | callback htim4 =>
    obtain ⟨b,pc,conversions,completed,rfl⟩ := State.callback_shape moved
    exact live.aside rfl rfl rfl rfl
  | capture v =>
    cases moved
    exact live.aside rfl rfl rfl rfl
  | main =>
    obtain ⟨_,same⟩ := Option.ite_none_right_eq_some.mp moved
    cases same
    exact live.mainLoop
  | spi =>
    obtain ⟨enabled,same⟩ := Option.ite_none_right_eq_some.mp moved
    cases same
    refine live.level ?_ (live.balanced.push enabled (of_decide_eq_true allowed))
    dsimp only
    split_ifs with half
    · exact nofun
    · exact id
  | close =>
    obtain ⟨closing,same⟩ := Option.ite_none_right_eq_some.mp moved
    cases same
    have empty : s.fifo.length = 0 := List.length_eq_zero_iff.mpr (List.isEmpty_iff.mp allowed)
    exact live.level id (live.balanced.close closing empty)

/-- The work is not queued yet when the interrupt comes. -/
theorem Live.not_queued {s : System} (live : s.Live) (irq : s.irq) : s.work = false := by
  have one := live.balanced.pending_le
  cases work : s.work with
  | false => rfl
  | true => simp [pending,irq,work] at one

theorem Live.opq_gpio_irq_handler {s t : System} (live : s.Live) (taken : s.opq_gpio_irq_handler = some t) : t.Live := by
  obtain ⟨irq,same⟩ := Option.ite_none_right_eq_some.mp taken
  cases same
  have work := live.not_queued irq
  have keeps : pending { s with irq := false, work := true } = s.pending := by simp [pending,irq,work]
  refine ⟨?_,?_,?_⟩
  · rw [Balanced,keeps]
    exact live.balanced
  · rw [keeps]
    exact live.signalled
  · rw [keeps]
    exact live.unloaded

theorem Live.opq_wq_spi_reader_handler {s t : System} (live : s.Live) (taken : s.opq_wq_spi_reader_handler = some t) :
    t.Live := by
  obtain ⟨⟨work,idle⟩,same⟩ := Option.ite_none_right_eq_some.mp taken
  cases same
  have fewer : s.pending = pending { s with work := false, reading := some [], executions := s.executions + 1 } + 1 := by
    simp [pending,work]
  refine ⟨?_,?_,?_⟩
  · have balanced := live.balanced
    rw [Balanced,fewer,running,idle] at balanced
    exact balanced.run
  · intro loaded
    have signalled := live.signalled loaded
    show s.executions + 1 + _ = s.edges
    omega
  · intro unloaded
    have := (live.unloaded unloaded).1
    omega

/-- A driver that reads is loaded. -/
theorem Live.loaded_of_reading {s : System} {bytes : List (BitVec 8)} (live : s.Live) (reading : s.reading = some bytes) :
    s.loaded ≠ false := by
  intro unloaded
  cases reading.symm.trans (live.unloaded unloaded).2.1

theorem Balanced.reads {s : System} {bytes : List (BitVec 8)} (balanced : s.Balanced) (reading : s.reading = some bytes) :
    Counts s.firmware.hspi3 s.firmware.main s.firmware.pin s.firmware.handed.length s.edges s.pending s.executions
      s.reads.length 1 bytes.length s.fifo.length := by
  rw [Balanced,running,received,reading] at balanced
  exact balanced

theorem Balanced.spent {s : System} (balanced : s.Balanced) (free : ¬ s.firmware.Transferring) :
    s.firmware.hspi3.TxXferCount = 0 := by
  by_contra left
  exact free (balanced.transfers (.inl (by omega)))

/-- A read that is not complete finds a byte in the FIFO or to be sent. -/
theorem Live.transferring {s : System} {bytes : List (BitVec 8)} (live : s.Live) (reading : s.reading = some bytes)
    (more : bytes.length < OPQ_CYCLE_BUFFER_SIZE) :
    s.firmware.Transferring ∧ 0 < s.fifo.length + s.firmware.hspi3.TxXferCount := by
  obtain ⟨_,_,_,positive,transfers,_⟩ := (live.balanced.reads reading).reads_last more
  exact ⟨transfers,positive⟩

theorem Live.clock {s t : System} {noise : BitVec 8} (live : s.Live) (taken : s.clock noise = some t) : t.Live := by
  obtain ⟨bytes,reading,more,⟨b,fifo,queued,rfl⟩ | ⟨empty,spent,_⟩⟩ := clock_cases taken
  · refine ⟨?_,live.signalled,fun unloaded => absurd unloaded (live.loaded_of_reading reading)⟩
    have counts := live.balanced.reads reading
    rw [queued] at counts
    have clocked := counts.clock more
    have length : bytes.length + 1 = (bytes ++ [b]).length := by simp
    rw [length] at clocked
    exact clocked
  · have := (live.transferring reading more).2
    simp [empty,spent] at this

theorem Live.finish {s t : System} (live : s.Live) (taken : s.finish = some t) : t.Live := by
  obtain ⟨bytes,reading,all,rfl⟩ := finish_cases taken
  refine ⟨?_,live.signalled,fun unloaded => absurd unloaded (live.loaded_of_reading reading)⟩
  rw [Balanced,List.length_append]
  exact (live.balanced.reads reading).done all

/-- Every step keeps the numbers, where `request_irq` finds the pin low and no
    `spi_read` fails. -/
theorem Live.step {s t : System} {a : Action} (live : s.Live) (taken : step s a = some t)
    (load_low : a = .load → s.firmware.pin = false) (succeeds : a ≠ .fail) : t.Live := by
  have balanced := live.balanced
  cases a with
  | boot =>
    obtain ⟨_,same⟩ := Option.ite_none_left_eq_some.mp taken
    cases same
    exact ⟨balanced,live.signalled,live.unloaded⟩
  | load =>
    obtain ⟨not_loaded,same⟩ := Option.ite_none_left_eq_some.mp taken
    cases same
    refine ⟨balanced,fun _ => ?_,nofun⟩
    obtain ⟨none_pending,no_read,none_executed⟩ := live.unloaded (Bool.eq_false_iff.mpr not_loaded)
    exact balanced.no_edge (load_low rfl) none_pending none_executed
  | firmware a => exact live.firmwareStep taken
  | interrupt => exact live.opq_gpio_irq_handler taken
  | work => exact live.opq_wq_spi_reader_handler taken
  | clock noise => exact live.clock taken
  | finish => exact live.finish taken
  | fail => exact absurd rfl succeeds

end System

end Opqbox.Handshake
