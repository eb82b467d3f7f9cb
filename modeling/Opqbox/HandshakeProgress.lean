import Mathlib.Logic.Function.Iterate
import Opqbox.HandshakeCounts

/-!
A transfer that is prepared goes through: the SPI of the firmware fills the FIFO,
the interrupt of the driver starts its work, and a byte is written for every byte
that is clocked (`clockFrame_run`). Then the main loop can hand the next frame
over (`handOver_run`).
-/
namespace Opqbox.Handshake
open Opqbox.Runs Opqbox.Firmware
open Opqbox.Driver (OPQ_CYCLE_BUFFER_SIZE)

/-- The SPI after `n` of the bytes that are left. -/
structure Sent (n : Nat) (hspi hspi' : SPI_HandleTypeDef) : Prop where
  lock : hspi'.Lock = hspi.Lock
  count : hspi'.TxXferCount + n = hspi.TxXferCount
  goes_on : hspi'.TxXferCount ≠ 0 → hspi'.txe = hspi.txe
  ends : hspi'.TxXferCount = 0 → 0 < n → hspi'.closing = true

theorem sent_iterate {hspi : SPI_HandleTypeDef} {n : Nat} (left : n ≤ hspi.TxXferCount) :
    Sent n hspi (SPI_TxISR_8BIT^[n] hspi) := by
  induction n with
  | zero => exact ⟨rfl,rfl,fun _ => rfl,fun _ positive => absurd positive (Nat.lt_irrefl 0)⟩
  | succ n ih =>
    obtain ⟨lock,count,goes_on,_⟩ := ih (by omega)
    rw [Function.iterate_succ_apply']
    obtain ⟨k,more⟩ : ∃ k, (SPI_TxISR_8BIT^[n] hspi).TxXferCount = k + 1 := Nat.exists_eq_succ_of_ne_zero (by omega)
    have next : (SPI_TxISR_8BIT (SPI_TxISR_8BIT^[n] hspi)).TxXferCount = k := by
      rw [SPI_TxISR_8BIT_TxXferCount,more]
      rfl
    refine ⟨(SPI_TxISR_8BIT_Lock _).trans lock,by omega,?_,?_⟩
    · intro some_left
      rw [SPI_TxISR_8BIT_TxXferCount] at some_left
      exact (SPI_TxISR_8BIT_more some_left).1.trans (goes_on (by omega))
    · intro none_left _
      rw [SPI_TxISR_8BIT_TxXferCount] at none_left
      exact (SPI_TxISR_8BIT_last none_left).2

/-- The system with this much of a transfer done. -/
def System.sending (s : System) (hspi : SPI_HandleTypeDef) (pin : Bool) (fifo : List (BitVec 8))
    (reading : Option (List (BitVec 8))) : System :=
  { s with firmware := { s.firmware with hspi3 := hspi, pin := pin }, fifo := fifo, reading := reading }

section
variable {s : System} (started : s.started = true)
include started

/-- The TXE interrupt writes a byte into the FIFO. -/
theorem spi_sends {hspi : SPI_HandleTypeDef} {fifo : List (BitVec 8)} (txe : hspi.txe = true) (space : fifo.length < 4) (pin : Bool)
    (reading : Option (List (BitVec 8))) : ∃ pin' b, step (s.sending hspi pin fifo reading) (.firmware .spi) =
      some (s.sending (SPI_TxISR_8BIT hspi) pin' (fifo ++ [b]) reading) := by
  have allowed : s.started ∧ (s.sending hspi pin fifo reading).allows .spi := ⟨started,decide_eq_true space⟩
  have moved : Firmware.step (s.sending hspi pin fifo reading).firmware .spi = some { s.firmware with
      pin := if hspi.TxXferSize / 2 = hspi.TxXferCount then false else pin, hspi3 := SPI_TxISR_8BIT hspi } := if_pos txe
  refine ⟨if hspi.TxXferSize / 2 = hspi.TxXferCount then false else pin,
    (s.sending hspi pin fifo reading).firmware.unsent.headD 0,(if_pos allowed).trans ?_⟩
  rw [moved,Option.map_some,System.follow_level]
  · rfl
  · show (if _ then false else pin) = true → pin = true
    split_ifs <;> simp

/-- The FIFO takes the first bytes. -/
theorem fifo_filled {hspi : SPI_HandleTypeDef} (txe : hspi.txe = true) (pin : Bool) (reading : Option (List (BitVec 8))) {n : Nat}
    (left : n ≤ hspi.TxXferCount) (space : n ≤ 4) :
    ∃ pin' fifo, run step (s.sending hspi pin [] reading) (List.replicate n (.firmware .spi)) =
      some (s.sending (SPI_TxISR_8BIT^[n] hspi) pin' fifo reading) ∧ fifo.length = n := by
  induction n with
  | zero => exact ⟨pin,[],rfl,rfl⟩
  | succ n ih =>
    obtain ⟨pin',fifo,ran,length⟩ := ih (by omega) (by omega)
    have sent : Sent n hspi _ := sent_iterate (by omega)
    have still := (sent.goes_on (by have := sent.count; omega)).trans txe
    obtain ⟨pin'',b,stepped⟩ := spi_sends started still (show fifo.length < 4 by omega) pin' reading
    refine ⟨pin'',fifo ++ [b],?_,by simp [length]⟩
    rw [List.replicate_succ',Function.iterate_succ_apply']
    exact run_concat ran stepped

/-- A byte is clocked, and the next is written into the FIFO. -/
theorem byte_sent {hspi : SPI_HandleTypeDef} {fifo bytes : List (BitVec 8)} (txe : hspi.txe = true) (filled : fifo.length = 4)
    (more : bytes.length < OPQ_CYCLE_BUFFER_SIZE) (pin : Bool) : ∃ pin' fifo' b,
      run step (s.sending hspi pin fifo (some bytes)) [.clock 0,.firmware .spi] =
        some (s.sending (SPI_TxISR_8BIT hspi) pin' fifo' (some (bytes ++ [b]))) ∧ fifo'.length = 4 := by
  cases fifo with
  | nil => cases filled
  | cons b fifo =>
    have clocked : step (s.sending hspi pin (b :: fifo) (some bytes)) (.clock 0) =
        some (s.sending hspi pin fifo (some (bytes ++ [b]))) := if_pos more
    have length : fifo.length + 1 = 4 := filled
    obtain ⟨pin',b',sent⟩ := spi_sends started txe (show fifo.length < 4 by omega) pin (some (bytes ++ [b]))
    refine ⟨pin',fifo ++ [b'],b,?_,by simp [length]⟩
    rw [run_cons clocked,run_cons sent]
    rfl

/-- While bytes of the frame are left, one is written for every one clocked. -/
theorem bytes_sent {hspi : SPI_HandleTypeDef} (txe : hspi.txe = true) {fifo : List (BitVec 8)} (filled : fifo.length = 4) (pin : Bool)
    {n : Nat} (left : n ≤ hspi.TxXferCount) (space : n ≤ OPQ_CYCLE_BUFFER_SIZE) :
    ∃ pin' fifo' bytes, run step (s.sending hspi pin fifo (some [])) (List.replicate n [.clock 0,.firmware .spi]).flatten =
      some (s.sending (SPI_TxISR_8BIT^[n] hspi) pin' fifo' (some bytes)) ∧ fifo'.length = 4 ∧ bytes.length = n := by
  induction n with
  | zero => exact ⟨pin,fifo,[],rfl,filled,rfl⟩
  | succ n ih =>
    obtain ⟨pin',fifo',bytes,ran,filled',length⟩ := ih (by omega) (by omega)
    have sent : Sent n hspi _ := sent_iterate (by omega)
    have still := (sent.goes_on (by have := sent.count; omega)).trans txe
    obtain ⟨pin'',fifo'',b,stepped,filled''⟩ :=
      byte_sent started still filled' (show bytes.length < OPQ_CYCLE_BUFFER_SIZE by omega) pin'
    refine ⟨pin'',fifo'',bytes ++ [b],?_,filled'',by simp [length]⟩
    rw [List.replicate_succ',List.flatten_append,List.flatten_singleton,Function.iterate_succ_apply']
    exact (run_append ran _).trans stepped

omit started in
/-- The bytes that are left in the FIFO are clocked. -/
theorem fifo_read (hspi : SPI_HandleTypeDef) (pin : Bool) {fifo bytes : List (BitVec 8)}
    (space : bytes.length + fifo.length ≤ OPQ_CYCLE_BUFFER_SIZE) :
    run step (s.sending hspi pin fifo (some bytes)) (List.replicate fifo.length (.clock 0)) =
      some (s.sending hspi pin [] (some (bytes ++ fifo))) := by
  induction fifo generalizing bytes with
  | nil => simp
  | cons b fifo ih =>
    have clocked : step (s.sending hspi pin (b :: fifo) (some bytes)) (.clock 0) =
        some (s.sending hspi pin fifo (some (bytes ++ [b]))) := if_pos (by simp at space; omega)
    rw [List.length_cons,List.replicate_succ,run_cons clocked,ih (by simp at space ⊢; omega)]
    simp

omit started in
/-- Where the interrupt is pending and no read is running, the whole frame is left. -/
theorem System.Live.prepared (live : s.Live) (irq : s.irq = true) (idle : s.reading = none) (fifo : s.fifo = []) :
    s.firmware.hspi3.txe = true ∧ s.firmware.hspi3.TxXferCount = OPQ_Frame.size := by
  have balanced := live.balanced
  rw [System.Balanced,System.running,System.received,idle,fifo] at balanced
  have pending : 0 < s.pending := by
    rw [System.pending,irq]
    exact Nat.lt_add_right _ Nat.one_pos
  obtain ⟨runs,_,bytes,_,_,raised,behind,signals,_,busy,_⟩ := balanced
  simp only [Option.getD_none,Option.isSome_none,Bool.toNat_false,List.length_nil] at runs bytes
  have count : s.firmware.hspi3.TxXferCount = 408 := by omega
  have transfers := live.balanced.transfers (.inl (by omega))
  have not_enable : s.firmware.main ≠ .enable := by
    intro at_
    rw [at_] at raised
    change s.edges + 1 = _ at raised
    omega
  exact ⟨(busy transfers).2.2.mpr ⟨not_enable,by omega⟩,count⟩

/-- The transfer of a frame, with a byte written for every byte clocked once the
    FIFO is full. -/
def clockFrame : List Action :=
  List.replicate 4 (.firmware .spi) ++ [.interrupt,.work] ++ (List.replicate 404 [.clock 0,.firmware .spi]).flatten ++
    List.replicate 4 (.clock 0)

/-- A prepared transfer goes over the bus whole. -/
theorem clockFrame_run (live : s.Live) (irq : s.irq = true) (idle : s.reading = none) (fifo : s.fifo = []) :
    ∃ hspi pin bytes, run step s clockFrame = some { s.sending hspi pin [] (some bytes) with
        irq := false, work := false, executions := s.executions + 1 } ∧ bytes.length = OPQ_CYCLE_BUFFER_SIZE ∧
      hspi.closing = true ∧ hspi.Lock = s.firmware.hspi3.Lock := by
  obtain ⟨txe,count⟩ := live.prepared irq idle fifo
  have size : OPQ_Frame.size = 404 + 4 := rfl
  have whole : s = s.sending s.firmware.hspi3 s.firmware.pin [] s.reading := by rw [← fifo]; rfl
  obtain ⟨pin,first,filled,four⟩ := fifo_filled started txe s.firmware.pin s.reading (show 4 ≤ _ by omega) (Nat.le_refl 4)
  have sent : Sent 4 s.firmware.hspi3 _ := sent_iterate (by omega)
  have left : (SPI_TxISR_8BIT^[4] s.firmware.hspi3).TxXferCount = 404 := by have := sent.count; omega
  have still := (sent.goes_on (by omega)).trans txe
  -- The interrupt queues the work, and the work starts the read.
  let called : System := { s with irq := false, work := false, executions := s.executions + 1 }
  have begun : run step (s.sending (SPI_TxISR_8BIT^[4] s.firmware.hspi3) pin first s.reading) [.interrupt,.work] =
      some (called.sending (SPI_TxISR_8BIT^[4] s.firmware.hspi3) pin first (some [])) := by
    simp [run,step,System.opq_gpio_irq_handler,System.opq_wq_spi_reader_handler,System.sending,called,irq,idle]
  obtain ⟨pin',last,bytes,clocked,four',most⟩ := bytes_sent (s := called) started still four pin (show 404 ≤ _ by omega) (by decide)
  have rest := fifo_read (s := called) (SPI_TxISR_8BIT^[404] (SPI_TxISR_8BIT^[4] s.firmware.hspi3)) pin'
    (show bytes.length + last.length ≤ OPQ_CYCLE_BUFFER_SIZE by rw [most,four']; decide)
  rw [four'] at rest
  have all : Sent OPQ_Frame.size s.firmware.hspi3 (SPI_TxISR_8BIT^[404] (SPI_TxISR_8BIT^[4] s.firmware.hspi3)) := by
    rw [← Function.iterate_add_apply]
    exact sent_iterate (by omega)
  have none_left := all.count
  refine ⟨SPI_TxISR_8BIT^[404] (SPI_TxISR_8BIT^[4] s.firmware.hspi3),pin',bytes ++ last,?_,
    by rw [List.length_append,most,four']; rfl,all.ends (by omega) (by decide),all.lock⟩
  have first_part := (run_append filled [.interrupt,.work]).trans begun
  have most_part := (run_append first_part _).trans clocked
  rw [← whole] at most_part
  exact (run_append most_part _).trans rest

/-- The main loop hands the next frame to the SPI and raises the pin. -/
theorem handOver_run (live : s.Live) (loaded : s.loaded = true) (sdadc : s.firmware.sdadc = .idle)
    (main : s.firmware.main = .testState) (free : s.firmware.hspi3.State = .HAL_SPI_STATE_READY)
    (waits : s.firmware.frameBuffer.head ≠ s.firmware.frameBuffer.tail) :
    ∃ f, run step s (List.replicate 8 (.firmware .main)) = some { s with firmware := f, edges := s.edges + 1, irq := true } := by
  have low : s.firmware.pin = false := by
    have spent := (live.balanced.ready free).1
    exact Bool.eq_false_iff.mpr fun high => by
      have := (live.balanced.high.mp high).2
      omega
  have unlocked : s.firmware.hspi3.Lock = .HAL_UNLOCKED := by
    have lock := live.balanced.lock
    simp only [main,reduceCtorEq,or_self,iff_false] at lock
    cases at_ : s.firmware.hspi3.Lock with
    | HAL_UNLOCKED => rfl
    | HAL_LOCKED => exact absurd at_ lock
  obtain ⟨⟨b,⟨state,lock,p,size,count,txe,closing⟩,pin,main',sdadc',conversions,completed,handed,captured,refused⟩,
    started',fifo,loaded',irq,work,reading,reads,edges,executions⟩ := s
  simp only at started loaded sdadc main free unlocked waits low
  subst started loaded sdadc main free unlocked low
  simp [run,step,System.firmwareStep,System.allows,System.sent,System.follow,Firmware.step,State.mainLoop,waits,HAL_SPI_Transmit_IT,
    OPQ_Frame.size]

/-- The transfer ends, and the next frame is handed over. -/
theorem nextFrame_run (live : s.Live) (loaded : s.loaded = true) (closing : s.firmware.hspi3.closing = true) (fifo : s.fifo = [])
    (sdadc : s.firmware.sdadc = .idle) (main : s.firmware.main = .testState)
    (waits : s.firmware.frameBuffer.head ≠ s.firmware.frameBuffer.tail) :
    ∃ f, run step s (.firmware .close :: List.replicate 8 (.firmware .main)) =
      some { s with firmware := f, edges := s.edges + 1, irq := true } := by
  let t : System := { s with
    firmware := { s.firmware with hspi3 := { s.firmware.hspi3 with State := .HAL_SPI_STATE_READY, closing := false } } }
  have closed : step s (.firmware .close) = some t := by
    simp [step,System.firmwareStep,System.allows,System.sent,System.follow,Firmware.step,State.closeTx,started,closing,fifo,t]
  have free : t.Live := live.step closed (fun load => by cases load) (fun fails => by cases fails)
  obtain ⟨f,handed⟩ := handOver_run (s := t) started free loaded sdadc main rfl waits
  exact ⟨f,(run_cons closed _).trans handed⟩

end

/-- Neither `request_irq` nor an `spi_read` that fails. -/
def calm : Action → Bool
  | .load | .fail => false
  | _ => true

/-- The numbers stay in balance in calm runs. -/
theorem live_run {s t : System} {as : List Action} (live : s.Live) (calms : ∀ a ∈ as, calm a = true)
    (ran : run step s as = some t) : t.Live := by
  have along : Along step (fun _ a _ => calm a = true) s as := along_of_forall (fun a mem _ _ => calms a mem) s
  refine run_invariant_along System.Live ?_ live along ran
  intro s a t live taken calms
  exact live.step taken (fun load => by rw [load] at calms; cases calms) (fun fails => by rw [fails] at calms; cases calms)

end Opqbox.Handshake
