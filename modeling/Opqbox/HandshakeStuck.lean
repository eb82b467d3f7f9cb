import Opqbox.HandshakeCounts

/-!
Where the handshake gets stuck. The firmware waits for the end of a transfer and
the driver for a rising edge. The edge comes once for a frame; it is lost where
`request_irq` is called after it, and where the `spi_read` that it started fails.
-/
namespace Opqbox.Handshake
open Opqbox.Runs Opqbox.Firmware
open Opqbox.Driver (OPQ_CYCLE_BUFFER_SIZE)

namespace System

/-- A frame is armed and not fully clocked out, with the pin high, and nothing
    is pending or running in the driver, whose interrupt is armed. -/
def Stuck (s : System) : Prop :=
  s.firmware.Transferring ∧ (0 < s.firmware.hspi3.TxXferCount ∨ s.fifo ≠ []) ∧ s.firmware.pin ∧
    s.loaded ∧ s.irq = false ∧ s.work = false ∧ s.reading = none

instance (s : System) : Decidable s.Stuck := inferInstanceAs (Decidable (_ ∧ _))

/-- The firmware waits for the end of a transfer that the driver does not clock. -/
structure Halted (s : System) : Prop where
  transfers : s.firmware.Transferring
  queued : 0 < s.firmware.hspi3.TxXferCount ∨ s.fifo ≠ []
  waits : s.firmware.main = .testState
  txe : s.firmware.hspi3.txe → 0 < s.firmware.hspi3.TxXferCount
  closing : s.firmware.hspi3.closing → s.firmware.hspi3.TxXferCount = 0
  loaded : s.loaded
  irq : s.irq = false
  work : s.work = false
  idle : s.reading = none

theorem Live.not_stuck {s : System} (live : s.Live) : ¬ s.Stuck := by
  rintro ⟨_,_,high,loaded,irq,work,idle⟩
  have signalled := live.signalled loaded
  obtain ⟨unprepared,half⟩ := live.balanced.high.mp high
  obtain ⟨runs,read,bytes,frame,fifo,raised,_⟩ := live.balanced
  have none_pending : s.pending = 0 := by simp [pending,irq,work]
  have not_running : s.running = 0 := by simp [running,idle]
  omega

theorem Halted.stuck {s : System} (halted : s.Halted) (high : s.firmware.pin) : s.Stuck :=
  ⟨halted.transfers,halted.queued,high,halted.loaded,halted.irq,halted.work,halted.idle⟩

/-- A transfer with bytes left that no edge will announce any more. -/
theorem Live.halts {s : System} (live : s.Live) (left : 0 < s.fifo.length + s.firmware.hspi3.TxXferCount)
    (unprepared : armed s.firmware.main = 0) (none_pending : s.pending = 0) :
    Halted { s with loaded := true, reading := none } := by
  have balanced := live.balanced
  have transfers := balanced.transfers (.inl (Nat.ne_of_gt left))
  obtain ⟨size,closes,interrupts⟩ := balanced.busy transfers
  obtain ⟨irq,work⟩ := pending_eq_zero none_pending
  refine ⟨transfers,?_,?_,fun txe => (interrupts.mp txe).2,closes.mp,rfl,irq,work,rfl⟩
  · rcases Nat.eq_zero_or_pos s.firmware.hspi3.TxXferCount with spent | more
    · exact .inr (List.ne_nil_of_length_pos (by rwa [spent] at left))
    · exact .inl more
  · have tested := balanced.tested
    rw [transfers] at tested
    show s.firmware.main = .testState
    cases at_ : s.firmware.main <;> simp_all [armed]

/-- The work handler returns although its frame is not clocked out. -/
theorem Live.fail_halts {s t : System} (live : s.Live) (taken : s.fail = some t) : t.Halted ∧ t.firmware = s.firmware := by
  obtain ⟨bytes,reading,more,rfl⟩ := fail_cases taken
  obtain ⟨_,_,none_pending,left,_,unprepared⟩ := (live.balanced.reads reading).reads_last more
  have loaded : s.loaded = true := by simpa using live.loaded_of_reading reading
  have halted := live.halts left unprepared none_pending
  rw [← loaded] at halted
  exact ⟨halted,rfl⟩

/-- `request_irq` comes after the edge. -/
theorem Live.load_halts {s : System} (live : s.Live) (not_loaded : s.loaded = false) (high : s.firmware.pin) :
    Halted { s with loaded := true } := by
  obtain ⟨none_pending,idle,_⟩ := live.unloaded not_loaded
  obtain ⟨unprepared,half⟩ := live.balanced.high.mp high
  have halted := live.halts (by omega) unprepared none_pending
  rw [← idle] at halted
  exact halted

/-- A step of the firmware that leaves it waiting. -/
theorem Halted.follow {s : System} {f : State} {sent : List (BitVec 8)} (halted : s.Halted) (level : f.pin → s.firmware.pin)
    (transfers : f.Transferring) (queued : 0 < f.hspi3.TxXferCount ∨ s.fifo ++ sent ≠ []) (waits : f.main = .testState)
    (txe : f.hspi3.txe → 0 < f.hspi3.TxXferCount) (closing : f.hspi3.closing → f.hspi3.TxXferCount = 0) :
    (s.follow f sent).Halted := by
  rw [follow_level level]
  exact ⟨transfers,queued,waits,txe,closing,halted.loaded,halted.irq,halted.work,halted.idle⟩

theorem Halted.aside {s : System} {f : State} (halted : s.Halted) (hspi : f.hspi3 = s.firmware.hspi3)
    (main : f.main = s.firmware.main) (pin : f.pin = s.firmware.pin) : (s.follow f []).Halted := by
  refine halted.follow (by rw [pin]; exact id) ?_ ?_ (main.trans halted.waits) ?_ ?_
  · rw [State.Transferring,hspi]
    exact halted.transfers
  · rw [hspi,List.append_nil]
    exact halted.queued
  · rw [hspi]
    exact halted.txe
  · rw [hspi]
    exact halted.closing

/-- The next byte goes to the FIFO. -/
theorem Halted.push {s : System} (halted : s.Halted) (enabled : s.firmware.hspi3.txe) (b : BitVec 8) {pin : Bool}
    (level : pin → s.firmware.pin) :
    (s.follow { s.firmware with pin := pin, hspi3 := SPI_TxISR_8BIT s.firmware.hspi3 } [b]).Halted := by
  have left := halted.txe enabled
  refine halted.follow level ?_ (.inr (by simp)) halted.waits ?_ ?_
  · exact (SPI_TxISR_8BIT_State _).trans halted.transfers
  · show (SPI_TxISR_8BIT s.firmware.hspi3).txe → 0 < (SPI_TxISR_8BIT s.firmware.hspi3).TxXferCount
    rw [SPI_TxISR_8BIT_TxXferCount]
    by_cases last : decremented s.firmware.hspi3.TxXferCount = 0
    · simp [SPI_TxISR_8BIT_last last]
    · exact fun _ => Nat.pos_of_ne_zero last
  · show (SPI_TxISR_8BIT s.firmware.hspi3).closing → (SPI_TxISR_8BIT s.firmware.hspi3).TxXferCount = 0
    rw [SPI_TxISR_8BIT_TxXferCount]
    by_cases last : decremented s.firmware.hspi3.TxXferCount = 0
    · exact fun _ => last
    · rw [(SPI_TxISR_8BIT_more last).2]
      intro closing
      have spent := halted.closing closing
      omega

/-- No step of the firmware ends the wait or raises the pin. -/
theorem Halted.firmwareStep {s t : System} {a : Firmware.Action} (halted : s.Halted) (taken : s.firmwareStep a = some t) :
    t.Halted ∧ t.reads = s.reads ∧ (t.firmware.pin → s.firmware.pin) := by
  obtain ⟨⟨_,allowed⟩,stepped⟩ := Option.ite_none_right_eq_some.mp taken
  obtain ⟨f,moved,rfl⟩ := Option.map_eq_some_iff.mp stepped
  cases a with
  | sample v =>
    obtain ⟨_,same⟩ := Option.ite_none_right_eq_some.mp moved
    cases same
    exact ⟨halted.aside rfl rfl rfl,rfl,id⟩
  | callback htim4 =>
    obtain ⟨b,pc,conversions,completed,rfl⟩ := State.callback_shape moved
    exact ⟨halted.aside rfl rfl rfl,rfl,id⟩
  | capture v =>
    cases moved
    exact ⟨halted.aside rfl rfl rfl,rfl,id⟩
  | main =>
    obtain ⟨_,same⟩ := Option.ite_none_right_eq_some.mp moved
    cases same
    have waits := halted.waits
    have busy : s.firmware.hspi3.State ≠ .HAL_SPI_STATE_READY := by rw [halted.transfers]; decide
    have still : s.firmware.mainLoop = s.firmware := by
      rw [State.mainLoop]
      simp only [waits,busy,↓reduceIte]
      rw [← waits]
    rw [still]
    exact ⟨halted.aside rfl rfl rfl,rfl,id⟩
  | spi =>
    obtain ⟨enabled,same⟩ := Option.ite_none_right_eq_some.mp moved
    cases same
    have level : ((if s.firmware.hspi3.TxXferSize / 2 = s.firmware.hspi3.TxXferCount then false
        else s.firmware.pin) : Bool) = true → s.firmware.pin := by
      split_ifs with half
      · rintro ⟨⟩
      · exact id
    exact ⟨halted.push enabled _ level,rfl,level⟩
  | close =>
    obtain ⟨closing,_⟩ := Option.ite_none_right_eq_some.mp moved
    have spent := halted.closing closing
    have empty : s.fifo = [] := List.isEmpty_iff.mp allowed
    rcases halted.queued with left | queued
    · omega
    · exact absurd empty queued

/-- Once the driver does not clock the transfer, no read succeeds any more. -/
theorem Halted.step {s t : System} {a : Action} (halted : s.Halted) (taken : step s a = some t) :
    t.Halted ∧ t.reads = s.reads ∧ (t.firmware.pin → s.firmware.pin) := by
  cases a with
  | boot =>
    obtain ⟨_,same⟩ := Option.ite_none_left_eq_some.mp taken
    cases same
    exact ⟨⟨halted.transfers,halted.queued,halted.waits,halted.txe,halted.closing,halted.loaded,halted.irq,halted.work,
      halted.idle⟩,rfl,id⟩
  | load =>
    obtain ⟨not_loaded,_⟩ := Option.ite_none_left_eq_some.mp taken
    exact absurd halted.loaded not_loaded
  | firmware a => exact halted.firmwareStep taken
  | interrupt =>
    obtain ⟨irq,_⟩ := Option.ite_none_right_eq_some.mp taken
    cases irq.symm.trans halted.irq
  | work =>
    obtain ⟨⟨work,_⟩,_⟩ := Option.ite_none_right_eq_some.mp taken
    cases work.symm.trans halted.work
  | clock noise =>
    obtain ⟨_,reading,_⟩ := clock_cases taken
    cases reading.symm.trans halted.idle
  | finish =>
    obtain ⟨_,reading,_⟩ := finish_cases taken
    cases reading.symm.trans halted.idle
  | fail =>
    obtain ⟨_,reading,_⟩ := fail_cases taken
    cases reading.symm.trans halted.idle

end System

/-- No run gets the system out of the wait. -/
theorem halted_run {s t : System} {actions : List Action} (halted : s.Halted) (ran : run step s actions = some t) :
    t.Halted ∧ t.reads = s.reads := by
  have preserved : ∀ u a v, u.Halted ∧ u.reads = s.reads → step u a = some v → v.Halted ∧ v.reads = s.reads := by
    rintro u a v ⟨halted,same⟩ taken
    obtain ⟨halted',reads,_⟩ := halted.step taken
    exact ⟨halted',reads.trans same⟩
  exact run_invariant preserved ⟨halted,rfl⟩ ran

/-- `request_irq` finds the pin low, and no `spi_read` fails while it is high. -/
def FindsLow (s : System) (a : Action) (_ : System) : Prop :=
  match a with
  | .load | .fail => s.firmware.pin = false
  | _ => True

/-- Both sides go on, or a read failed after the pin was lowered. -/
def GoesOn (s : System) : Prop := s.Live ∨ s.Halted ∧ s.firmware.pin = false

theorem GoesOn.not_stuck {s : System} (goes_on : GoesOn s) : ¬ s.Stuck := by
  rcases goes_on with live | ⟨_,low⟩
  · exact live.not_stuck
  · rintro ⟨_,_,high,_⟩
    cases low.symm.trans high

theorem GoesOn.after {s t : System} {a : Action} (goes_on : GoesOn s) (taken : step s a = some t) (finds_low : FindsLow s a t) :
    GoesOn t := by
  rcases goes_on with live | ⟨halted,low⟩
  · by_cases fails : a = .fail
    · subst fails
      obtain ⟨halted,same⟩ := live.fail_halts taken
      exact .inr ⟨halted,same ▸ finds_low⟩
    · exact .inl (live.step taken (fun loads => by subst loads; exact finds_low) fails)
  · obtain ⟨halted',_,level⟩ := halted.step taken
    exact .inr ⟨halted',Bool.eq_false_iff.mpr fun high => by cases low.symm.trans (level high)⟩

/-- A step that finds the pin high where it should be low ends the acquisition. -/
theorem GoesOn.misses {s t : System} {a : Action} (goes_on : GoesOn s) (taken : step s a = some t) (misses : ¬ FindsLow s a t) :
    t.Halted ∧ t.firmware.pin := by
  rcases goes_on with live | ⟨halted,low⟩
  · cases a with
    | load =>
      obtain ⟨not_loaded,same⟩ := Option.ite_none_left_eq_some.mp taken
      cases same
      have high : s.firmware.pin = true := by simpa [FindsLow] using misses
      exact ⟨live.load_halts (Bool.eq_false_iff.mpr not_loaded) high,high⟩
    | fail =>
      obtain ⟨halted,same⟩ := live.fail_halts taken
      have high : s.firmware.pin = true := by simpa [FindsLow] using misses
      exact ⟨halted,same ▸ high⟩
    | _ => exact absurd trivial misses
  · cases a with
    | load | fail => exact absurd low misses
    | _ => exact absurd trivial misses

/-- The handshake does not get stuck in exactly the runs in which
    `request_irq` and a failing `spi_read` find the pin low. -/
theorem never_stuck_iff (memory : OPQ_Frame_Buffer) (actions : List Action) :
    Along step (fun _ _ t => ¬ t.Stuck) (off memory) actions ↔ Along step FindsLow (off memory) actions := by
  refine (along_iff (P := FindsLow) GoesOn (fun _ _ _ goes_on => goes_on.after) ?_ (.inl (off_live memory))).symm
  intro s a t goes_on taken
  constructor
  · exact fun finds_low => (goes_on.after taken finds_low).not_stuck
  · intro not_stuck
    by_contra misses
    obtain ⟨halted,high⟩ := goes_on.misses taken misses
    exact not_stuck (halted.stuck high)

/-- After the first step that finds the pin high no read succeeds any more. -/
theorem missed_for_good (memory : OPQ_Frame_Buffer) {before after : List Action} {a : Action} {s t u : System}
    (ran : run step (off memory) before = some s) (found_low : Along step FindsLow (off memory) before)
    (taken : step s a = some t) (misses : ¬ FindsLow s a t) (ran_on : run step t after = some u) : u.reads = t.reads := by
  have goes_on := run_invariant_along GoesOn (fun _ _ _ goes_on => goes_on.after) (.inl (off_live memory)) found_low ran
  have halted := (goes_on.misses taken misses).1
  exact (halted_run halted ran_on).2

set_option maxRecDepth 20000 in
/-- The driver is loaded when the pin is high; an `spi_read` fails before the
    transfer is half through. -/
theorem edge_missed :
    ¬ Along step (fun _ _ t => ¬ t.Stuck) (off zeroed) (.boot :: startFrame ++ [.load]) ∧
    ¬ Along step (fun _ _ t => ¬ t.Stuck) (off zeroed) (.load :: .boot :: startFrame ++ [.interrupt,.work,.fail]) := by
  constructor <;> decide +kernel

end Opqbox.Handshake
