import Opqbox.HandshakeProgress

/-!
What the driver reads. The bytes of the frames handed over are, in order, those
of the reads that are done, of the running read, of the FIFO and those still to
be sent (`Stream`), whatever both sides do. As every read takes as many bytes as
a frame has, the reads are the frames.
-/
namespace Opqbox.Handshake
open Opqbox.Runs Opqbox.Firmware
open Opqbox.Driver (OPQ_CYCLE_BUFFER_SIZE)

/-- Blocks of one length that begin a sequence of such blocks are its first ones. -/
theorem blocks_eq_take {α : Type*} {n : Nat} (positive : 0 < n) : ∀ {xs ys : List (List α)} {rest : List α},
    (∀ x ∈ xs, x.length = n) → (∀ y ∈ ys, y.length = n) → xs.flatten ++ rest = ys.flatten → xs = ys.take xs.length
  | [], _, _, _, _, _ => rfl
  | x :: xs, [], _, wholeX, _, same => by
    have length := wholeX x List.mem_cons_self
    have empty : x = [] := by
      rw [List.flatten_cons,List.append_assoc] at same
      exact (List.append_eq_nil_iff.mp same).1
    rw [empty,List.length_nil] at length
    omega
  | x :: xs, y :: ys, rest, wholeX, wholeY, same => by
    rw [List.flatten_cons,List.flatten_cons,List.append_assoc] at same
    have length := (wholeX x List.mem_cons_self).trans (wholeY y List.mem_cons_self).symm
    obtain ⟨rfl,tails⟩ := List.append_inj same length
    have later := blocks_eq_take positive (fun z mem => wholeX z (List.mem_cons_of_mem _ mem))
      (fun z mem => wholeY z (List.mem_cons_of_mem _ mem)) tails
    rw [List.length_cons,List.take_succ_cons,← later]

/-- Where every byte of the frames handed over is. -/
structure Stream (s : System) : Prop where
  bytes : s.reads.flatten ++ (s.received ++ (s.fifo ++ s.firmware.unsent)) = s.firmware.handed.flatMap OPQ_Frame.bytes
  whole : ∀ r ∈ s.reads, r.length = OPQ_CYCLE_BUFFER_SIZE
  pointer : ∀ p, s.firmware.hspi3.pTxBuffPtr = some p → p.offset + s.firmware.hspi3.TxXferCount = OPQ_Frame.size
  unarmed : s.firmware.hspi3.pTxBuffPtr = none → s.firmware.hspi3.TxXferCount = 0

/-- `spi_read` succeeds, and the sample interrupt does not write into the slot
    that is being sent. -/
def Assumed (s : System) (a : Action) (t : System) : Prop :=
  match a with
  | .fail => False
  | .firmware c => KeepsTransfer s.firmware c t.firmware
  | _ => True

instance (s : System) (a : Action) (t : System) : Decidable (Assumed s a t) :=
  match a with
  | .fail => .isFalse id
  | .firmware c => inferInstanceAs (Decidable (KeepsTransfer s.firmware c t.firmware))
  | .boot | .load | .interrupt | .work | .clock _ | .finish => .isTrue trivial

theorem ready_stream (memory : OPQ_Frame_Buffer) : Stream (ready memory) := by
  constructor <;> simp [ready,off,start,State.unsent,System.received]

theorem length_unsent {s : State} (pointer : ∀ p, s.hspi3.pTxBuffPtr = some p → p.offset + s.hspi3.TxXferCount = OPQ_Frame.size)
    (unarmed : s.hspi3.pTxBuffPtr = none → s.hspi3.TxXferCount = 0) : s.unsent.length = s.hspi3.TxXferCount := by
  rw [State.unsent]
  cases at_ : s.hspi3.pTxBuffPtr with
  | none => exact (unarmed at_).symm
  | some p =>
    have position := pointer p at_
    rw [List.length_drop,OPQ_Frame.length_bytes]
    omega

theorem unsent_nil {s : State} (pointer : ∀ p, s.hspi3.pTxBuffPtr = some p → p.offset + s.hspi3.TxXferCount = OPQ_Frame.size)
    (unarmed : s.hspi3.pTxBuffPtr = none → s.hspi3.TxXferCount = 0) (spent : s.hspi3.TxXferCount = 0) : s.unsent = [] :=
  List.eq_nil_of_length_eq_zero ((length_unsent pointer unarmed).trans spent)

/-- The reads that are done are those of the first frames. -/
theorem Stream.reads {s : System} (stream : Stream s) :
    s.reads = (s.firmware.handed.map OPQ_Frame.bytes).take s.reads.length := by
  have whole : ∀ bytes ∈ s.firmware.handed.map OPQ_Frame.bytes, bytes.length = OPQ_CYCLE_BUFFER_SIZE := by
    intro bytes mem
    obtain ⟨f,_,rfl⟩ := List.mem_map.mp mem
    exact f.length_bytes
  exact blocks_eq_take (by decide) stream.whole whole (stream.bytes.trans List.flatMap_def)

/-! ### The firmware -/

/-- A step of the firmware that hands over the frames `added` and keeps the
    order of the bytes. -/
theorem Stream.follow {s : System} {f : State} {sent : List (BitVec 8)} (stream : Stream s) (added : List OPQ_Frame)
    (handed : f.handed = s.firmware.handed ++ added)
    (conserved : sent ++ f.unsent = s.firmware.unsent ++ added.flatMap OPQ_Frame.bytes)
    (pointer : ∀ p, f.hspi3.pTxBuffPtr = some p → p.offset + f.hspi3.TxXferCount = OPQ_Frame.size)
    (unarmed : f.hspi3.pTxBuffPtr = none → f.hspi3.TxXferCount = 0) : Stream (s.follow f sent) := by
  refine ⟨?_,stream.whole,pointer,unarmed⟩
  show s.reads.flatten ++ (s.received ++ (s.fifo ++ sent ++ f.unsent)) = f.handed.flatMap OPQ_Frame.bytes
  rw [handed,List.flatMap_append,← stream.bytes,List.append_assoc,conserved]
  simp only [List.append_assoc]

/-- A step of the firmware that leaves the transfer as it is. -/
theorem Stream.aside {s : System} {f : State} (stream : Stream s) (handed : f.handed = s.firmware.handed)
    (pointer : f.hspi3.pTxBuffPtr = s.firmware.hspi3.pTxBuffPtr) (count : f.hspi3.TxXferCount = s.firmware.hspi3.TxXferCount)
    (unsent : f.unsent = s.firmware.unsent) : Stream (s.follow f []) := by
  refine stream.follow [] (by rw [handed,List.append_nil]) (by simp [unsent]) ?_ ?_
  · rw [pointer,count]
    exact stream.pointer
  · rw [pointer,count]
    exact stream.unarmed

/-- The slot that is being sent keeps its bytes. -/
theorem unsent_congr {s t : State} (pointer : t.hspi3.pTxBuffPtr = s.hspi3.pTxBuffPtr)
    (slot : ∀ p, s.hspi3.pTxBuffPtr = some p → t.frameBuffer.frames p.slot = s.frameBuffer.frames p.slot) :
    t.unsent = s.unsent := by
  rw [State.unsent,State.unsent,pointer]
  cases at_ : s.hspi3.pTxBuffPtr with
  | none => rfl
  | some p => simp only [slot p at_]

/-- The statements of the sample interrupt change the slot at the head only. -/
theorem callback_frames {s t : State} {htim4 : BitVec 16} (taken : s.callback htim4 = some t) {slot : Nat}
    (apart : s.sdadc.writes → slot ≠ s.frameBuffer.head) : t.frameBuffer.frames slot = s.frameBuffer.frames slot := by
  rw [State.callback] at taken
  cases at_ : s.sdadc with
  | idle => simp [at_] at taken
  | store v | copyGpsCounter | copyCounter | clearFlags | markFrame =>
    simp only [at_,Option.some.injEq] at taken
    subst taken
    dsimp only
    exact s.frameBuffer.atHead_of_ne _ (apart (by rw [at_]; rfl))
  | wrapHead =>
    simp only [at_,Option.some.injEq] at taken
    subst taken
    dsimp only
    split_ifs <;> rfl
  | _ =>
    simp only [at_,Option.some.injEq] at taken
    subst taken
    rfl

/-- A statement of the sample interrupt, which leaves the slot alone that is
    being sent. -/
theorem Stream.callback {s : System} {f : State} {htim4 : BitVec 16} (stream : Stream s) (balanced : s.Balanced)
    (taken : s.firmware.callback htim4 = some f) (keeps : KeepsTransfer s.firmware (.callback htim4) f) :
    Stream (s.follow f []) := by
  obtain ⟨b,pc,conversions,completed,same⟩ := State.callback_shape taken
  subst same
  refine stream.aside rfl rfl rfl ?_
  by_cases transfers : s.firmware.Transferring
  · exact unsent_congr rfl fun p pointer => callback_frames taken fun writes => keeps writes transfers p pointer
  · have spent := balanced.spent transfers
    rw [unsent_nil stream.pointer stream.unarmed spent]
    exact unsent_nil stream.pointer stream.unarmed spent

/-- The main loop hands over the frame at the tail, or leaves the transfer as it is. -/
theorem Stream.mainLoop {s : System} (stream : Stream s) (balanced : s.Balanced) : Stream (s.follow s.firmware.mainLoop []) := by
  by_cases transmits : s.firmware.main = .transmit
  · have free := balanced.tested (.inr transmits)
    have unlocked : s.firmware.hspi3.Lock ≠ .HAL_LOCKED := by simp [balanced.lock,transmits]
    have spent : s.firmware.hspi3.TxXferCount = 0 := by have := (balanced.ready free).1; omega
    rw [State.mainLoop]
    simp only [transmits,
      HAL_SPI_Transmit_IT_ready unlocked free ⟨s.firmware.frameBuffer.tail,0⟩ (by decide : OPQ_Frame.size ≠ 0)]
    refine stream.follow [s.firmware.frameBuffer.frames s.firmware.frameBuffer.tail] rfl ?_ ?_ (by rintro ⟨⟩)
    · rw [unsent_nil stream.pointer stream.unarmed spent]
      simp [State.unsent]
    · rintro p pointer
      cases pointer
      rfl
  · obtain ⟨handed,pointer,count⟩ := State.mainLoop_transfer transmits
    obtain ⟨tail,frames⟩ := s.firmware.mainLoop_frameBuffer
    exact stream.aside handed pointer count (unsent_congr pointer fun p _ => by rw [frames])

/-- The next byte goes to the FIFO. -/
theorem Stream.push {s : System} (stream : Stream s) (balanced : s.Balanced) (enabled : s.firmware.hspi3.txe) (pin : Bool) :
    Stream (s.follow { s.firmware with pin := pin, hspi3 := SPI_TxISR_8BIT s.firmware.hspi3 } [s.firmware.unsent.headD 0]) := by
  have left := balanced.enabled_left enabled
  obtain ⟨n,count⟩ := Nat.exists_eq_add_one_of_ne_zero (Nat.ne_of_gt left)
  cases at_ : s.firmware.hspi3.pTxBuffPtr with
  | none =>
    have := stream.unarmed at_
    omega
  | some p =>
    have position := stream.pointer p at_
    have inside : p.offset < (s.firmware.frameBuffer.frames p.slot).bytes.length := by
      rw [OPQ_Frame.length_bytes]
      omega
    have unsent : s.firmware.unsent = (s.firmware.frameBuffer.frames p.slot).bytes.drop p.offset := by rw [State.unsent,at_]
    refine stream.follow [] (List.append_nil _).symm ?_ ?_ ?_
    · rw [unsent,List.drop_eq_getElem_cons inside,List.headD_cons,State.unsent]
      simp only [SPI_TxISR_8BIT_pTxBuffPtr,at_,Option.map_some]
      exact (List.append_nil _).symm
    · intro q pointer
      simp only [SPI_TxISR_8BIT_pTxBuffPtr,at_,Option.map_some,Option.some.injEq] at pointer
      subst pointer
      rw [SPI_TxISR_8BIT_TxXferCount,count]
      show p.offset + 1 + n = _
      omega
    · simp [at_]

theorem Stream.firmwareStep {s t : System} {a : Firmware.Action} (stream : Stream s) (balanced : s.Balanced)
    (taken : s.firmwareStep a = some t) (keeps : KeepsTransfer s.firmware a t.firmware) : Stream t := by
  obtain ⟨_,stepped⟩ := Option.ite_none_right_eq_some.mp taken
  obtain ⟨f,moved,rfl⟩ := Option.map_eq_some_iff.mp stepped
  cases a with
  | sample v =>
    obtain ⟨_,same⟩ := Option.ite_none_right_eq_some.mp moved
    cases same
    exact stream.aside rfl rfl rfl rfl
  | callback htim4 => exact stream.callback balanced moved keeps
  | capture v =>
    cases moved
    exact stream.aside rfl rfl rfl rfl
  | main =>
    obtain ⟨_,same⟩ := Option.ite_none_right_eq_some.mp moved
    cases same
    exact stream.mainLoop balanced
  | spi =>
    obtain ⟨enabled,same⟩ := Option.ite_none_right_eq_some.mp moved
    cases same
    exact stream.push balanced enabled _
  | close =>
    obtain ⟨_,same⟩ := Option.ite_none_right_eq_some.mp moved
    cases same
    exact stream.aside rfl rfl rfl rfl

/-! ### The system -/

/-- The bytes keep their order. -/
theorem Stream.step {s t : System} {a : Action} (stream : Stream s) (live : s.Live) (taken : step s a = some t)
    (assumed : Assumed s a t) : Stream t := by
  cases a with
  | boot =>
    obtain ⟨_,same⟩ := Option.ite_none_left_eq_some.mp taken
    cases same
    exact ⟨stream.bytes,stream.whole,stream.pointer,stream.unarmed⟩
  | load =>
    obtain ⟨_,same⟩ := Option.ite_none_left_eq_some.mp taken
    cases same
    exact ⟨stream.bytes,stream.whole,stream.pointer,stream.unarmed⟩
  | firmware a => exact stream.firmwareStep live.balanced taken assumed
  | interrupt =>
    obtain ⟨_,same⟩ := Option.ite_none_right_eq_some.mp taken
    cases same
    exact ⟨stream.bytes,stream.whole,stream.pointer,stream.unarmed⟩
  | work =>
    obtain ⟨⟨_,idle⟩,same⟩ := Option.ite_none_right_eq_some.mp taken
    cases same
    have bytes := stream.bytes
    rw [System.received,idle] at bytes
    exact ⟨bytes,stream.whole,stream.pointer,stream.unarmed⟩
  | clock noise =>
    obtain ⟨bytes,reading,more,⟨b,fifo,queued,rfl⟩ | ⟨empty,spent,_⟩⟩ := System.clock_cases taken
    · refine ⟨?_,stream.whole,stream.pointer,stream.unarmed⟩
      rw [← stream.bytes,System.received,System.received,reading,queued]
      simp
    · have := (live.transferring reading more).2
      simp [empty,spent] at this
  | finish =>
    obtain ⟨bytes,reading,all,rfl⟩ := System.finish_cases taken
    refine ⟨?_,?_,stream.pointer,stream.unarmed⟩
    · rw [← stream.bytes,System.received,System.received,reading]
      simp
    · intro r mem
      rcases List.mem_append.mp mem with before | last
      · exact stream.whole r before
      · rwa [List.mem_singleton.mp last]
  | fail => exact assumed.elim

theorem step_loaded {s t : System} {a : Action} (loaded : s.loaded) (taken : step s a = some t) : t.loaded := by
  cases a with
  | boot =>
    obtain ⟨_,same⟩ := Option.ite_none_left_eq_some.mp taken
    cases same
    exact loaded
  | load =>
    obtain ⟨not_loaded,_⟩ := Option.ite_none_left_eq_some.mp taken
    exact absurd loaded not_loaded
  | firmware a =>
    obtain ⟨_,stepped⟩ := Option.ite_none_right_eq_some.mp taken
    obtain ⟨f,_,rfl⟩ := Option.map_eq_some_iff.mp stepped
    exact loaded
  | interrupt | work =>
    obtain ⟨_,same⟩ := Option.ite_none_right_eq_some.mp taken
    cases same
    exact loaded
  | clock noise => obtain ⟨_,_,_,⟨_,_,_,rfl⟩ | ⟨_,_,rfl⟩⟩ := System.clock_cases taken <;> exact loaded
  | finish =>
    obtain ⟨_,_,_,rfl⟩ := System.finish_cases taken
    exact loaded
  | fail =>
    obtain ⟨_,_,_,rfl⟩ := System.fail_cases taken
    exact loaded

/-- The main loop raises the pin where it is low, which makes one edge and finds
    no interrupt pending; the interrupt finds no work queued; and a byte is
    clocked out of the FIFO during a transfer. -/
def Orderly (s : System) (a : Action) (t : System) : Prop :=
  match a with
  | .firmware .main => s.firmware.main = .setPin → s.firmware.pin = false ∧ s.irq = false ∧ t.edges = s.edges + 1
  | .interrupt => s.work = false
  | .clock _ => s.firmware.Transferring ∧ s.fifo ≠ []
  | _ => True

/-- The invariant of the armed handshake. -/
structure Armed (s : System) : Prop where
  live : s.Live
  stream : Stream s
  loaded : s.loaded

theorem ready_armed (memory : OPQ_Frame_Buffer) : Armed (ready memory) := ⟨ready_live memory,ready_stream memory,rfl⟩

theorem Armed.after {s t : System} {a : Action} (holds : Armed s) (taken : step s a = some t) (assumed : Assumed s a t) :
    Armed t := by
  refine ⟨holds.live.step taken ?_ ?_,holds.stream.step holds.live taken assumed,step_loaded holds.loaded taken⟩
  · rintro rfl
    obtain ⟨not_loaded,_⟩ := Option.ite_none_left_eq_some.mp taken
    exact absurd holds.loaded not_loaded
  · rintro rfl
    exact assumed

theorem Armed.orderly {s t : System} {a : Action} (holds : Armed s) (taken : step s a = some t) : Orderly s a t := by
  cases a with
  | firmware a =>
    cases a with
    | main =>
      intro at_
      obtain ⟨_,stepped⟩ := Option.ite_none_right_eq_some.mp taken
      obtain ⟨f,moved,rfl⟩ := Option.map_eq_some_iff.mp stepped
      obtain ⟨_,same⟩ := Option.ite_none_right_eq_some.mp moved
      cases same
      have low := holds.live.balanced.low (by rw [at_]; rfl)
      refine ⟨low,holds.live.balanced.not_pending at_,?_⟩
      simp [System.follow,State.mainLoop,at_,low]
    | _ => trivial
  | interrupt =>
    obtain ⟨irq,_⟩ := Option.ite_none_right_eq_some.mp taken
    exact holds.live.not_queued irq
  | clock noise =>
    obtain ⟨bytes,reading,more,clocked⟩ := System.clock_cases taken
    obtain ⟨transfers,positive⟩ := holds.live.transferring reading more
    refine ⟨transfers,?_⟩
    rcases clocked with ⟨b,fifo,queued,_⟩ | ⟨empty,spent,_⟩
    · rw [queued]
      exact List.cons_ne_nil b fifo
    · simp [empty,spent] at positive
  | _ => trivial

/-- The k-th read is the k-th frame handed over, with its contents then. -/
def ReadsFrames (s : System) : Prop :=
  ∀ (k : Nat) (r : List (BitVec 8)), s.reads[k]? = some r → ∃ f, s.firmware.handed[k]? = some f ∧ r = f.bytes

/-- While every `spi_read` succeeds and the frame being sent is left alone, each
    edge has its own run of the work, and the reads are the frames. -/
theorem reads_are_frames (memory : OPQ_Frame_Buffer) {actions : List Action} {s : System}
    (ran : run step (ready memory) actions = some s) (assumed : Along step Assumed (ready memory) actions) :
    s.executions + s.pending = s.edges ∧ ReadsFrames s ∧ Along step Orderly (ready memory) actions := by
  have holds := run_invariant_along Armed (fun _ _ _ => Armed.after) (ready_armed memory) assumed ran
  refine ⟨holds.live.signalled holds.loaded,?_,?_⟩
  · intro k r read
    obtain ⟨inside,_⟩ := List.getElem?_eq_some_iff.mp read
    rw [holds.stream.reads,List.getElem?_take_of_lt inside,List.getElem?_map] at read
    obtain ⟨f,handed,same⟩ := Option.map_eq_some_iff.mp read
    exact ⟨f,handed,same.symm⟩
  · exact along_of_along Armed (fun _ _ _ => Armed.after) (fun _ _ _ holds taken _ => holds.orderly taken)
      (ready_armed memory) assumed

/-- The frame is read. -/
def readFrame : List Action := clockFrame ++ [.finish,.firmware .close]

set_option maxRecDepth 20000 in
theorem startFrame_run : ((run step (ready zeroed) startFrame).map fun s =>
      (s.started,s.irq,s.reading,s.fifo,s.reads.length)) = some (true,true,none,[],0) ∧
    Along step Assumed (ready zeroed) startFrame := by
  constructor <;> decide +kernel

theorem reads_are_frames_one : ∃ s, run step (ready zeroed) (startFrame ++ readFrame) = some s ∧ s.reads.length = 1 ∧
    s.executions + s.pending = s.edges ∧ ReadsFrames s ∧ Along step Orderly (ready zeroed) (startFrame ++ readFrame) := by
  obtain ⟨shape,first⟩ := startFrame_run
  obtain ⟨t,begun,is⟩ := Option.map_eq_some_iff.mp shape
  simp only [Prod.mk.injEq] at is
  obtain ⟨started,irq,idle,fifo,no_reads⟩ := is
  have armed := run_invariant_along Armed (fun _ _ _ => Armed.after) (ready_armed zeroed) first begun
  obtain ⟨hspi,pin,bytes,clocked,all,closing,_⟩ := clockFrame_run started armed.live irq idle fifo
  have read : run step t readFrame = some { t.sending { hspi with State := .HAL_SPI_STATE_READY, closing := false } pin [] none with
      irq := false, work := false, reads := t.reads ++ [bytes], executions := t.executions + 1 } := by
    rw [readFrame,run_append clocked]
    simp [run,step,System.finish,System.sending,System.firmwareStep,System.allows,System.sent,System.follow,Firmware.step,
      State.closeTx,started,all,closing]
  have undisturbed : ∀ a ∈ readFrame, ∀ s t, Assumed s a t := by
    intro a mem
    simp only [readFrame,clockFrame,List.mem_append,List.mem_flatten,List.mem_replicate,and_assoc,exists_and_left,exists_eq_left,
      List.mem_cons,List.not_mem_nil,or_false] at mem
    obtain (((⟨_,rfl⟩ | rfl | rfl) | ⟨_,rfl | rfl⟩) | ⟨_,rfl⟩) | rfl | rfl := mem <;> exact fun _ _ => trivial
  have ran := (run_append begun _).trans read
  exact ⟨_,ran,by simp [no_reads],reads_are_frames zeroed ran (first.append begun (along_of_forall undisturbed t))⟩

end Opqbox.Handshake
