import Opqbox.Driver
import Opqbox.FrameRing

/-!
The firmware and the driver around the data ready pin. The main loop of the
firmware raises the pin when a transfer is prepared, and its SPI interrupt lowers
it halfway; a rising edge starts an interrupt of the driver, this its work, and
the work an `spi_read` that clocks the bytes out of the FIFO of the SPI.
-/
namespace Opqbox.Handshake
open Opqbox.Runs Opqbox.Firmware
open Opqbox.Driver (OPQ_CYCLE_BUFFER_SIZE)

/-- Both sides. `started` and `loaded` hold once `main` is in its loop and once
    `request_irq` has been called. The driver has a GPIO interrupt pending, the
    work queued, and an `spi_read` running with the bytes that it got so far.
    `edges` and `executions` count the rising edges and the runs of the work,
    and `reads` holds what the `spi_read`s that succeeded delivered. -/
structure System where
  firmware : State
  started : Bool
  /-- The transmit FIFO. -/
  fifo : List (BitVec 8)
  loaded : Bool
  irq : Bool
  work : Bool
  reading : Option (List (BitVec 8))
  reads : List (List (BitVec 8))
  edges : Nat
  executions : Nat

/-- Before the firmware and the driver are started. -/
def off (memory : OPQ_Frame_Buffer) : System where
  firmware := start memory
  started := false
  fifo := []
  loaded := false
  irq := false
  work := false
  reading := none
  reads := []
  edges := 0
  executions := 0

/-- The firmware at the start of its loop, with the pin low and the SPI ready,
    and the driver with its interrupt armed. -/
def ready (memory : OPQ_Frame_Buffer) : System := { off memory with started := true, loaded := true }

inductive Action where
  /-- The firmware starts. -/
  | boot
  /-- `request_irq` in `opq_init_gpio_int`. -/
  | load
  | firmware (a : Firmware.Action)
  | interrupt
  /-- The work queue calls the handler, which calls `spi_read`. -/
  | work
  /-- A byte is clocked; `noise` is read where the FIFO is empty. -/
  | clock (noise : BitVec 8)
  /-- `spi_read` has all bytes, and the handler returns. -/
  | finish
  /-- `spi_read` fails, and the handler returns. -/
  | fail

namespace System

/-- What the bus asks for: the TXE interrupt comes while the FIFO takes a byte,
    and the transaction ends with the FIFO empty. -/
def allows (s : System) : Firmware.Action → Bool
  | .spi => s.fifo.length < 4
  | .close => s.fifo.isEmpty
  | _ => true

/-- The byte that a step of the firmware writes into the FIFO. -/
def sent (s : System) : Firmware.Action → List (BitVec 8)
  | .spi => [s.firmware.unsent.headD 0]
  | _ => []

/-- The firmware has made a step to `f` and sent bytes. A rising edge of the pin
    is noted where the interrupt of the driver is armed. -/
def follow (s : System) (f : State) (sent : List (BitVec 8)) : System :=
  let edge := !s.firmware.pin && f.pin
  { s with
    firmware := f, fifo := s.fifo ++ sent, edges := s.edges + edge.toNat
    irq := s.irq || (s.loaded && edge) }

theorem follow_level {s : System} {f : State} (level : f.pin → s.firmware.pin) (sent : List (BitVec 8)) :
    s.follow f sent = { s with firmware := f, fifo := s.fifo ++ sent } := by
  have no_edge : (!s.firmware.pin && f.pin) = false := by
    cases high : f.pin with
    | false => simp
    | true => simp [level high]
  simp [follow,no_edge]

def firmwareStep (s : System) (a : Firmware.Action) : Option System :=
  if s.started ∧ s.allows a then (Firmware.step s.firmware a).map fun f => s.follow f (s.sent a) else none

/-- `opq_gpio_irq_handler`: work that is queued already is not queued again. -/
def opq_gpio_irq_handler (s : System) : Option System :=
  if s.irq then some { s with irq := false, work := true } else none

/-- The work is no longer pending when its handler starts. -/
def opq_wq_spi_reader_handler (s : System) : Option System :=
  if s.work ∧ s.reading = none then
    some { s with work := false, reading := some [], executions := s.executions + 1 }
  else none

/-- A byte of `spi_read`. During a transfer the FIFO is refilled in time. -/
def clock (s : System) (noise : BitVec 8) : Option System :=
  match s.reading with
  | none => none
  | some bytes =>
    if bytes.length < OPQ_CYCLE_BUFFER_SIZE then
      match s.fifo with
      | b :: fifo => some { s with fifo := fifo, reading := some (bytes ++ [b]) }
      | [] => if s.firmware.hspi3.TxXferCount = 0 then some { s with reading := some (bytes ++ [noise]) } else none
    else none

theorem clock_cases {s t : System} {noise : BitVec 8} (taken : s.clock noise = some t) :
    ∃ bytes, s.reading = some bytes ∧ bytes.length < OPQ_CYCLE_BUFFER_SIZE ∧
      ((∃ b fifo, s.fifo = b :: fifo ∧ t = { s with fifo := fifo, reading := some (bytes ++ [b]) }) ∨
        s.fifo = [] ∧ s.firmware.hspi3.TxXferCount = 0 ∧ t = { s with reading := some (bytes ++ [noise]) }) := by
  rw [clock] at taken
  cases reading : s.reading with
  | none => simp [reading] at taken
  | some bytes =>
    rw [reading] at taken
    obtain ⟨more,clocked⟩ := Option.ite_none_right_eq_some.mp taken
    refine ⟨bytes,rfl,more,?_⟩
    cases fifo : s.fifo with
    | cons b fifo' =>
      rw [fifo] at clocked
      cases clocked
      exact .inl ⟨b,fifo',rfl,rfl⟩
    | nil =>
      rw [fifo] at clocked
      obtain ⟨spent,same⟩ := Option.ite_none_right_eq_some.mp clocked
      cases same
      exact .inr ⟨rfl,spent,rfl⟩

def finish (s : System) : Option System :=
  match s.reading with
  | none => none
  | some bytes =>
    if bytes.length = OPQ_CYCLE_BUFFER_SIZE then some { s with reading := none, reads := s.reads ++ [bytes] } else none

theorem finish_cases {s t : System} (taken : s.finish = some t) :
    ∃ bytes, s.reading = some bytes ∧ bytes.length = OPQ_CYCLE_BUFFER_SIZE ∧
      t = { s with reading := none, reads := s.reads ++ [bytes] } := by
  rw [finish] at taken
  cases reading : s.reading with
  | none => simp [reading] at taken
  | some bytes =>
    rw [reading] at taken
    obtain ⟨all,same⟩ := Option.ite_none_right_eq_some.mp taken
    cases same
    exact ⟨bytes,rfl,all,rfl⟩

def fail (s : System) : Option System :=
  match s.reading with
  | none => none
  | some bytes => if bytes.length < OPQ_CYCLE_BUFFER_SIZE then some { s with reading := none } else none

theorem fail_cases {s t : System} (taken : s.fail = some t) :
    ∃ bytes, s.reading = some bytes ∧ bytes.length < OPQ_CYCLE_BUFFER_SIZE ∧ t = { s with reading := none } := by
  rw [fail] at taken
  cases reading : s.reading with
  | none => simp [reading] at taken
  | some bytes =>
    rw [reading] at taken
    obtain ⟨more,same⟩ := Option.ite_none_right_eq_some.mp taken
    cases same
    exact ⟨bytes,rfl,more,rfl⟩

end System

def step (s : System) : Action → Option System
  | .boot => if s.started then none else some { s with started := true }
  | .load => if s.loaded then none else some { s with loaded := true }
  | .firmware a => s.firmwareStep a
  | .interrupt => s.opq_gpio_irq_handler
  | .work => s.opq_wq_spi_reader_handler
  | .clock noise => s.clock noise
  | .finish => s.finish
  | .fail => s.fail

/-- A frame is completed, its transfer started and the pin raised. -/
def startFrame : List Action := (fillFrame 7 ++ List.replicate 8 Firmware.Action.main).map Action.firmware

end Opqbox.Handshake
