import Opqbox.Firmware
import Opqbox.Windows

/-!
The ring of frames within its capacity. While no more than three completed frames
wait, the main loop hands every completed frame to the SPI once and in order, and
no sample is written into a frame that waits; while there are no more than two
and one in transfer, none is written into the frame being sent either.
-/
namespace Opqbox.Firmware
open Opqbox.Runs Opqbox.Windows

namespace State

/-- The number of completed frames that are not yet handed to the SPI. -/
def waiting (s : State) : Nat := s.completed.length - s.handed.length

/-- An SPI transfer is in progress. -/
def Transferring (s : State) : Prop := s.hspi3.State = .HAL_SPI_STATE_BUSY_TX

instance (s : State) : Decidable s.Transferring := inferInstanceAs (Decidable (_ = _))

/-- The first completed frame that is still waiting or, where those count, being sent. -/
def oldest (sent : Bool) (s : State) : Nat :=
  if sent = true ∧ s.Transferring then s.handed.length - 1 else s.handed.length

theorem oldest_le (sent : Bool) (s : State) : s.oldest sent ≤ s.handed.length := by
  rw [oldest]
  split_ifs
  · exact Nat.sub_le ..
  · exact Nat.le_refl _

end State

/-- No more than three frames wait. -/
def FewWaiting (_ : State) (_ : Action) (t : State) : Prop := t.waiting ≤ 3

instance (s : State) (a : Action) (t : State) : Decidable (FewWaiting s a t) := inferInstanceAs (Decidable (_ ≤ _))

/-- No more than three frames wait, and no sample interrupt comes while three do
    and a transfer is in progress. -/
def WithinCapacity (s : State) (a : Action) (t : State) : Prop :=
  t.waiting ≤ 3 ∧
    match a with
    | .sample _ => ¬ (s.waiting = 3 ∧ s.Transferring)
    | _ => True

instance (s : State) (a : Action) (t : State) : Decidable (WithinCapacity s a t) :=
  match a with
  | .sample _ => inferInstanceAs (Decidable (t.waiting ≤ 3 ∧ ¬ (s.waiting = 3 ∧ s.Transferring)))
  | .callback _ => inferInstanceAs (Decidable (t.waiting ≤ 3 ∧ True))
  | .capture _ => inferInstanceAs (Decidable (t.waiting ≤ 3 ∧ True))
  | .main => inferInstanceAs (Decidable (t.waiting ≤ 3 ∧ True))
  | .spi => inferInstanceAs (Decidable (t.waiting ≤ 3 ∧ True))
  | .close => inferInstanceAs (Decidable (t.waiting ≤ 3 ∧ True))

/-! ### The invariant -/

/-- The samples of the frame being filled, at each statement of the sample
    interrupt: `n` conversions and `c` completed frames. -/
def Counted (n c currentSample : Nat) : Callback → Prop
  | .idle | .store _ => currentSample < 200 ∧ n = 200 * c + currentSample
  | .countSample => currentSample < 200 ∧ n = 200 * c + currentSample + 1
  | .testSample => currentSample ≤ 200 ∧ n = 200 * c + currentSample
  | .copyGpsCounter | .copyCounter | .clearFlags | .testPulse | .clearPulse | .markFrame | .resetSample =>
    currentSample = 200 ∧ n = 200 * c + 200
  | .advanceHead => currentSample = 0 ∧ n = 200 * c + 200
  | .wrapHead => currentSample = 0 ∧ n = 200 * c

def HeadAt (c head : Nat) : Callback → Prop
  | .wrapHead => 0 < c ∧ head = (c - 1) % FRAME_BUFFER_SIZE + 1
  | _ => head = c % FRAME_BUFFER_SIZE

/-- The tail at each statement of the main loop, for `h` frames handed over. -/
def TailAt (h tail : Nat) : MainLoop → Prop
  | .enable | .unlock | .advanceTail => 0 < h ∧ tail = (h - 1) % FRAME_BUFFER_SIZE
  | .wrapTail => 0 < h ∧ tail = (h - 1) % FRAME_BUFFER_SIZE + 1
  | _ => tail = h % FRAME_BUFFER_SIZE

/-- What the main loop has found out before a statement. -/
def Tested (s : State) : MainLoop → Prop
  | .testFrames => ¬ s.Transferring
  | .transmit => ¬ s.Transferring ∧ s.handed.length < s.completed.length
  | _ => True

/-- The ring of the frames that wait and, where `sent`, of the one in transfer. -/
structure Ring (sent : Bool) (s : State) : Prop where
  samples : Counted s.conversions.length s.completed.length s.frameBuffer.currentSample s.sdadc
  head : HeadAt s.completed.length s.frameBuffer.head s.sdadc
  tail : TailAt s.handed.length s.frameBuffer.tail s.main
  tested : Tested s s.main
  lock : s.hspi3.Lock = .HAL_LOCKED ↔ s.main = .enable ∨ s.main = .unlock
  order : s.handed.length ≤ s.completed.length
  capacity : s.completed.length ≤ s.handed.length + 3
  sending : s.Transferring → 0 < s.handed.length ∧
    ∃ offset, s.hspi3.pTxBuffPtr = some ⟨(s.handed.length - 1) % FRAME_BUFFER_SIZE,offset⟩
  /-- The slot being filled is not that of an older frame. -/
  room : s.sdadc ≠ .idle → s.sdadc ≠ .wrapHead → s.completed.length < s.oldest sent + FRAME_BUFFER_SIZE
  /-- The frames of the ring are in their slots. -/
  live : Window FRAME_BUFFER_SIZE (fun slot => some (s.frameBuffer.frames slot)) (fun k => s.completed[k]?)
    (s.oldest sent) s.completed.length
  filling : ∀ i, 200 * s.completed.length + i < s.conversions.length →
    s.conversions[200 * s.completed.length + i]? = some ((s.frameBuffer.frames (s.completed.length % FRAME_BUFFER_SIZE)).data i)
  contents : ∀ (k : Nat) (f : OPQ_Frame), s.completed[k]? = some f →
    ∀ i < FRAME_DATA_COUNT, s.conversions[200 * k + i]? = some (f.data i)
  delivered : s.handed = s.completed.take s.handed.length
  accepted : s.refused = 0

variable {sent : Bool}

theorem start_ring (memory : OPQ_Frame_Buffer) : Ring sent (start memory) := by
  constructor <;> simp [start,Counted,HeadAt,TailAt,Tested,State.Transferring,State.oldest,Window,init_OPQ_RunTime]

/-! ### The sample interrupt -/

theorem Ring.sample {s t : State} {v : BitVec 16} (ring : Ring sent s) (taken : s.sample v = some t)
    (spared : sent = true → ¬ (s.waiting = 3 ∧ s.Transferring)) : Ring sent t := by
  obtain ⟨idle,same⟩ := Option.ite_none_right_eq_some.mp taken
  cases same
  have samples := ring.samples
  have head := ring.head
  rw [idle] at samples head
  refine { ring with samples := samples, head := head, room := ?_ }
  intro _ _
  have order := ring.order
  have capacity := ring.capacity
  show s.completed.length < s.oldest sent + 4
  by_cases kept : sent = true ∧ s.Transferring
  · have sending := (ring.sending kept.2).1
    have fewer := spared kept.1
    rw [State.oldest,if_pos kept]
    simp only [State.waiting,kept.2,and_true] at fewer
    omega
  · rw [State.oldest,if_neg kept]
    omega

theorem Ring.at_head {s : State} (ring : Ring sent s) (inside : s.sdadc ≠ .wrapHead) :
    s.frameBuffer.head = s.completed.length % FRAME_BUFFER_SIZE := by
  have head := ring.head
  cases at_ : s.sdadc <;> simp_all [HeadAt]

/-- A change of the slot being filled leaves the older frames alone. -/
theorem Ring.live_atHead {s : State} (ring : Ring sent s) (running : s.sdadc ≠ .idle) (inside : s.sdadc ≠ .wrapHead)
    (change : OPQ_Frame → OPQ_Frame) :
    Window FRAME_BUFFER_SIZE (fun slot => some ((s.frameBuffer.atHead change).frames slot)) (fun k => s.completed[k]?)
      (s.oldest sent) s.completed.length := by
  refine ring.live.frame ?_
  intro k from_oldest before
  have room := ring.room running inside
  have apart : k % FRAME_BUFFER_SIZE ≠ s.frameBuffer.head := ring.at_head inside ▸ slot_ne before (by omega)
  show some ((s.frameBuffer.atHead change).frames (k % FRAME_BUFFER_SIZE)) = _
  rw [s.frameBuffer.atHead_of_ne change apart]

theorem getElem?_append_some {α : Type*} {l : List α} {i : Nat} {x : α} (found : l[i]? = some x) (l' : List α) :
    (l ++ l')[i]? = some x := by
  obtain ⟨inside,_⟩ := List.getElem?_eq_some_iff.mp found
  rw [List.getElem?_append_left inside,found]

/-- The conversion is stored. -/
theorem Ring.store {s : State} {v : BitVec 16} (ring : Ring sent s) (at_ : s.sdadc = .store v) :
    Ring sent { s with
      frameBuffer := s.frameBuffer.atHead (.store s.frameBuffer.currentSample v)
      conversions := s.conversions ++ [v], sdadc := .countSample } := by
  have samples := ring.samples
  have head := ring.head
  have running : s.sdadc ≠ .idle := by simp [at_]
  have inside : s.sdadc ≠ .wrapHead := by simp [at_]
  have slot := ring.at_head inside
  rw [at_] at samples head
  obtain ⟨below,number⟩ := samples
  have length : (s.conversions ++ [v]).length = s.conversions.length + 1 := by simp
  refine { ring with samples := ?_, head := head, room := ?_, live := ?_, filling := ?_, contents := ?_ }
  · exact ⟨below,by rw [length,number]; rfl⟩
  · exact fun _ _ => ring.room running inside
  · exact ring.live_atHead running inside (.store s.frameBuffer.currentSample v)
  · intro i stored
    change 200 * s.completed.length + i < (s.conversions ++ [v]).length at stored
    show (s.conversions ++ [v])[200 * s.completed.length + i]? =
      some (OPQ_Frame.data ((s.frameBuffer.atHead (.store s.frameBuffer.currentSample v)).frames
        (s.completed.length % FRAME_BUFFER_SIZE)) i)
    rw [← slot,OPQ_Frame_Buffer.atHead_self]
    by_cases last : i = s.frameBuffer.currentSample
    · rw [last,OPQ_Frame.store_data_self,← number,List.getElem?_concat_length]
    · have earlier : 200 * s.completed.length + i < s.conversions.length := by omega
      rw [OPQ_Frame.store_data_of_ne last,List.getElem?_append_left earlier,ring.filling i earlier,slot]
  · exact fun k f is_frame i below => getElem?_append_some (ring.contents k f is_frame i below) _

/-- A statement that changes the slot being filled but not its samples. -/
theorem Ring.annotate {s : State} (ring : Ring sent s) (running : s.sdadc ≠ .idle) (inside : s.sdadc ≠ .wrapHead)
    (change : OPQ_Frame → OPQ_Frame) (keeps : ∀ f, (change f).data = f.data) (next : Callback)
    (samples : Counted s.conversions.length s.completed.length s.frameBuffer.currentSample next)
    (head : HeadAt s.completed.length s.frameBuffer.head next) :
    Ring sent { s with frameBuffer := s.frameBuffer.atHead change, sdadc := next } := by
  refine { ring with samples := samples, head := head, room := ?_, live := ?_, filling := ?_ }
  · exact fun _ _ => ring.room running inside
  · exact ring.live_atHead running inside _
  · intro i stored
    have slot := ring.at_head inside
    show _ = some (OPQ_Frame.data ((s.frameBuffer.atHead change).frames (s.completed.length % FRAME_BUFFER_SIZE)) i)
    rw [ring.filling i stored,← slot,OPQ_Frame_Buffer.atHead_self,keeps]

/-- A statement that leaves the slots as they are. -/
theorem Ring.proceed {s : State} (ring : Ring sent s) (b : OPQ_Frame_Buffer) (next : Callback)
    (frames : b.frames = s.frameBuffer.frames) (tail : b.tail = s.frameBuffer.tail)
    (samples : Counted s.conversions.length s.completed.length b.currentSample next)
    (head : HeadAt s.completed.length b.head next)
    (room : next ≠ .idle → next ≠ .wrapHead → s.completed.length < s.oldest sent + FRAME_BUFFER_SIZE) :
    Ring sent { s with frameBuffer := b, sdadc := next } := by
  refine { ring with samples := samples, head := head, tail := ?_, room := room, live := ?_, filling := ?_ }
  · show TailAt _ b.tail _
    rw [tail]
    exact ring.tail
  · show Window _ (fun slot => some (b.frames slot)) _ _ _
    rw [frames]
    exact ring.live
  · show ∀ i, _ → _ = some ((b.frames _).data i)
    rw [frames]
    exact ring.filling

theorem Tested.mono {s t : State} {m : MainLoop} (tested : Tested s m) (free : t.Transferring → s.Transferring)
    (more : s.handed.length < s.completed.length → t.handed.length < t.completed.length) : Tested t m := by
  cases m with
  | testFrames => exact mt free tested
  | transmit => exact ⟨mt free tested.1,more tested.2⟩
  | _ => trivial

/-- The frame is complete, and the head goes to the next slot. -/
theorem Ring.complete {s : State} (ring : Ring sent s) (at_ : s.sdadc = .advanceHead)
    (within : s.completed.length + 1 ≤ s.handed.length + 3) :
    Ring sent { s with
      frameBuffer := { s.frameBuffer with head := incremented s.frameBuffer.head }
      completed := s.completed ++ [s.frameBuffer.frames s.frameBuffer.head], sdadc := .wrapHead } := by
  have samples := ring.samples
  have slot := ring.at_head (by simp [at_])
  rw [at_] at samples
  obtain ⟨reset,number⟩ := samples
  have below : s.frameBuffer.head < 4 := slot ▸ Nat.mod_lt _ (by decide)
  have length : (s.completed ++ [s.frameBuffer.frames s.frameBuffer.head]).length = s.completed.length + 1 := by simp
  have last : (s.completed ++ [s.frameBuffer.frames s.frameBuffer.head])[s.completed.length]? =
      some (s.frameBuffer.frames (s.completed.length % FRAME_BUFFER_SIZE)) := by rw [List.getElem?_concat_length,slot]
  have earlier : ∀ k < s.completed.length,
      (s.completed ++ [s.frameBuffer.frames s.frameBuffer.head])[k]? = s.completed[k]? :=
    fun k before => List.getElem?_append_left before
  refine { ring with
    samples := ?_, head := ?_, tested := ?_, order := ?_, capacity := ?_, room := ?_, live := ?_, filling := ?_
    contents := ?_, delivered := ?_ }
  · exact ⟨reset,by rw [length]; omega⟩
  · refine ⟨by rw [length]; omega,?_⟩
    show (s.frameBuffer.head + 1) % 256 = _
    rw [length,Nat.add_sub_cancel,← slot,Nat.mod_eq_of_lt (by omega)]
  · refine ring.tested.mono id ?_
    intro waits
    exact length ▸ Nat.lt_succ_of_lt waits
  · exact length ▸ Nat.le_succ_of_le ring.order
  · exact length ▸ within
  · exact fun _ inside => absurd rfl inside
  · intro k from_oldest before
    rw [length] at before
    rcases Nat.lt_succ_iff_lt_or_eq.mp before with before | rfl
    · exact (ring.live k from_oldest before).trans (earlier k before).symm
    · exact last.symm
  · intro i stored
    rw [length] at stored
    change _ < s.conversions.length at stored
    omega
  · intro k f is_frame i below
    rcases Nat.lt_or_ge k s.completed.length with before | after
    · exact ring.contents k f ((earlier k before).symm.trans is_frame) i below
    · have inside := (List.getElem?_eq_some_iff.mp is_frame).1
      rw [length] at inside
      obtain rfl : k = s.completed.length := by omega
      cases last.symm.trans is_frame
      exact ring.filling i (by change i < 200 at below; omega)
  · have order := ring.order
    show s.handed = (s.completed ++ _).take s.handed.length
    rw [List.take_append_of_le_length order]
    exact ring.delivered

theorem Ring.callback {s t : State} {htim4 : BitVec 16} (ring : Ring sent s) (taken : s.callback htim4 = some t)
    (few : t.waiting ≤ 3) : Ring sent t := by
  have samples := ring.samples
  have head := ring.head
  have room := ring.room
  have order := ring.order
  rw [State.callback] at taken
  cases at_ : s.sdadc with
  | idle => simp [at_] at taken
  | store v =>
    simp only [at_,Option.some.injEq] at taken
    subst taken
    exact ring.store at_
  | countSample =>
    simp only [at_,Option.some.injEq] at taken
    subst taken
    rw [at_] at samples head
    obtain ⟨below,number⟩ := samples
    have next : incremented s.frameBuffer.currentSample = s.frameBuffer.currentSample + 1 := Nat.mod_eq_of_lt (by omega)
    have counted : Counted s.conversions.length s.completed.length (incremented s.frameBuffer.currentSample) .testSample :=
      ⟨by omega,by omega⟩
    exact ring.proceed { s.frameBuffer with currentSample := _ } .testSample rfl rfl counted head
      fun _ _ => room (by simp [at_]) (by simp [at_])
  | testSample =>
    simp only [at_,Option.some.injEq] at taken
    subst taken
    rw [at_] at samples head
    obtain ⟨below,number⟩ := samples
    by_cases full : s.frameBuffer.currentSample ≥ 200
    · rw [if_pos full]
      exact ring.proceed s.frameBuffer .copyGpsCounter rfl rfl ⟨by omega,by omega⟩ head
        fun _ _ => room (by simp [at_]) (by simp [at_])
    · rw [if_neg full]
      exact ring.proceed s.frameBuffer .idle rfl rfl ⟨by omega,number⟩ head fun running => absurd rfl running
  | copyGpsCounter =>
    simp only [at_,Option.some.injEq] at taken
    subst taken
    rw [at_] at samples head
    exact ring.annotate (by simp [at_]) (by simp [at_])
      (fun f => { f with last_gps_counter := s.frameBuffer.gps_last_counter }) (fun _ => rfl) .copyCounter samples head
  | copyCounter =>
    simp only [at_,Option.some.injEq] at taken
    subst taken
    rw [at_] at samples head
    exact ring.annotate (by simp [at_]) (by simp [at_])
      (fun f => { f with current_counter := htim4 }) (fun _ => rfl) .clearFlags samples head
  | clearFlags =>
    simp only [at_,Option.some.injEq] at taken
    subst taken
    rw [at_] at samples head
    exact ring.annotate (by simp [at_]) (by simp [at_])
      (fun f => { f with flags := 0 }) (fun _ => rfl) .testPulse samples head
  | testPulse =>
    simp only [at_,Option.some.injEq] at taken
    subst taken
    rw [at_] at samples head
    by_cases pulse : s.frameBuffer.gps_pulse_flag ≠ 0
    · rw [if_pos pulse]
      exact ring.proceed s.frameBuffer .clearPulse rfl rfl samples head
        fun _ _ => room (by simp [at_]) (by simp [at_])
    · rw [if_neg pulse]
      exact ring.proceed s.frameBuffer .resetSample rfl rfl samples head
        fun _ _ => room (by simp [at_]) (by simp [at_])
  | clearPulse =>
    simp only [at_,Option.some.injEq] at taken
    subst taken
    rw [at_] at samples head
    exact ring.proceed { s.frameBuffer with gps_pulse_flag := 0 } .markFrame rfl rfl samples head
      fun _ _ => room (by simp [at_]) (by simp [at_])
  | markFrame =>
    simp only [at_,Option.some.injEq] at taken
    subst taken
    rw [at_] at samples head
    exact ring.annotate (by simp [at_]) (by simp [at_])
      (fun f => { f with flags := OPQ_GPS_THIS_FRAME }) (fun _ => rfl) .resetSample samples head
  | resetSample =>
    simp only [at_,Option.some.injEq] at taken
    subst taken
    rw [at_] at samples head
    exact ring.proceed { s.frameBuffer with currentSample := 0 } .advanceHead rfl rfl ⟨rfl,samples.2⟩ head
      fun _ _ => room (by simp [at_]) (by simp [at_])
  | advanceHead =>
    simp only [at_,Option.some.injEq] at taken
    subst taken
    refine ring.complete at_ ?_
    simp only [State.waiting,List.length_append,List.length_singleton] at few
    omega
  | wrapHead =>
    simp only [at_,Option.some.injEq] at taken
    subst taken
    rw [at_] at samples head
    obtain ⟨reset,number⟩ := samples
    obtain ⟨positive,at_last⟩ := head
    have wrapped := slot_succ (show 0 < FRAME_BUFFER_SIZE by decide) (s.completed.length - 1)
    rw [← at_last,Nat.sub_add_cancel positive] at wrapped
    have counted : s.frameBuffer.currentSample < 200 ∧
        s.conversions.length = 200 * s.completed.length + s.frameBuffer.currentSample := ⟨by omega,by omega⟩
    by_cases last : s.frameBuffer.head ≥ FRAME_BUFFER_SIZE
    · rw [if_pos last] at wrapped ⊢
      exact ring.proceed { s.frameBuffer with head := 0 } .idle rfl rfl counted wrapped fun running => absurd rfl running
    · rw [if_neg last] at wrapped ⊢
      exact ring.proceed s.frameBuffer .idle rfl rfl counted wrapped fun running => absurd rfl running

theorem Ring.capture {s : State} (ring : Ring sent s) (captured : BitVec 16) : Ring sent (s.HAL_TIM_IC_CaptureCallback captured) :=
  { ring with }

/-! ### The main loop and the SPI -/

/-- A statement of the main loop that neither starts nor ends a transfer. -/
theorem Ring.turn {s : State} (ring : Ring sent s) (next : MainLoop) (tail : Nat) (lock : HAL_LockTypeDef) (txe pin : Bool)
    (at_tail : TailAt s.handed.length tail next) (tested : Tested s next)
    (locked : lock = .HAL_LOCKED ↔ next = .enable ∨ next = .unlock) :
    Ring sent { s with
      frameBuffer := { s.frameBuffer with tail := tail }
      hspi3 := { s.hspi3 with Lock := lock, txe := txe }, pin := pin, main := next } :=
  { ring with tail := at_tail, tested := by cases next <;> exact tested, lock := locked }

/-- The frame at the tail is handed to `HAL_SPI_Transmit_IT`. -/
theorem Ring.transmit {s : State} (ring : Ring sent s) (idle : s.sdadc = .idle) (at_ : s.main = .transmit) :
    Ring sent { s with
      hspi3 := { s.hspi3 with
        State := .HAL_SPI_STATE_BUSY_TX, Lock := .HAL_LOCKED, pTxBuffPtr := some ⟨s.frameBuffer.tail,0⟩
        TxXferSize := OPQ_Frame.size, TxXferCount := OPQ_Frame.size }
      handed := s.handed ++ [s.frameBuffer.frames s.frameBuffer.tail], main := .enable } := by
  have tested := ring.tested
  have tail := ring.tail
  rw [at_] at tested tail
  obtain ⟨ready,waits⟩ := tested
  change s.frameBuffer.tail = _ at tail
  have capacity := ring.capacity
  have length : (s.handed ++ [s.frameBuffer.frames s.frameBuffer.tail]).length = s.handed.length + 1 := by simp
  have oldest : s.oldest sent = s.handed.length := if_neg fun kept => ready kept.2
  have next := ring.live s.handed.length (Nat.le_of_eq oldest) waits
  refine { ring with
    tail := ?_, tested := trivial, lock := ?_, order := ?_, capacity := ?_, sending := ?_, room := ?_
    live := ?_, delivered := ?_ }
  · exact ⟨length ▸ Nat.succ_pos _,by rw [length,Nat.add_sub_cancel]; exact tail⟩
  · simp
  · exact length ▸ waits
  · show s.completed.length ≤ (s.handed ++ _).length + 3
    omega
  · intro _
    refine ⟨length ▸ Nat.succ_pos _,0,?_⟩
    show some _ = some _
    rw [length,Nat.add_sub_cancel,tail]
  · exact fun running => absurd idle running
  · refine ring.live.mono ?_ (Nat.le_refl _)
    rw [oldest,State.oldest]
    split_ifs <;> simp
  · show s.handed ++ _ = s.completed.take (s.handed ++ _).length
    rw [length,List.take_add_one,← ring.delivered,tail]
    exact congrArg (s.handed ++ ·) (congrArg Option.toList next)

theorem Ring.mainLoop {s : State} (ring : Ring sent s) (idle : s.sdadc = .idle) : Ring sent s.mainLoop := by
  have tail := ring.tail
  have tested := ring.tested
  have lock := ring.lock
  rw [State.mainLoop]
  cases at_ : s.main with
  | testState =>
    rw [at_] at tail lock
    by_cases ready : s.hspi3.State = .HAL_SPI_STATE_READY
    · have free : ¬ s.Transferring := by simp [State.Transferring,ready]
      simp only [ready,if_true]
      exact ring.turn .testFrames s.frameBuffer.tail s.hspi3.Lock s.hspi3.txe s.pin tail free (by simpa using lock)
    · simp only [ready,if_false]
      exact ring.turn .testState s.frameBuffer.tail s.hspi3.Lock s.hspi3.txe s.pin tail trivial lock
  | testFrames =>
    rw [at_] at tail tested lock
    by_cases waits : s.frameBuffer.head = s.frameBuffer.tail
    · simp only [waits,ne_eq,not_true_eq_false,if_false]
      exact ring.turn .testState s.frameBuffer.tail s.hspi3.Lock s.hspi3.txe s.pin tail trivial (by simpa using lock)
    · have behind : s.handed.length < s.completed.length := by
        rcases Nat.lt_or_eq_of_le ring.order with behind | same
        · exact behind
        · exact absurd ((ring.at_head (by simp [idle])).trans (by rw [← same]; exact tail.symm)) waits
      simp only [waits,ne_eq,not_false_eq_true,if_true]
      exact ring.turn .transmit s.frameBuffer.tail s.hspi3.Lock s.hspi3.txe s.pin tail ⟨tested,behind⟩ (by simpa using lock)
  | transmit =>
    rw [at_] at tested lock
    have ready : s.hspi3.State = .HAL_SPI_STATE_READY := by
      cases state : s.hspi3.State with
      | HAL_SPI_STATE_READY => rfl
      | HAL_SPI_STATE_BUSY_TX => exact absurd state tested.1
    simp only [HAL_SPI_Transmit_IT_ready (by simp [lock]) ready _ (show OPQ_Frame.size ≠ 0 by decide)]
    exact ring.transmit idle at_
  | enable =>
    rw [at_] at tail lock
    exact ring.turn .unlock s.frameBuffer.tail s.hspi3.Lock true s.pin tail trivial (by simpa using lock)
  | unlock =>
    rw [at_] at tail
    exact ring.turn .advanceTail s.frameBuffer.tail .HAL_UNLOCKED s.hspi3.txe s.pin tail trivial (by simp)
  | advanceTail =>
    rw [at_] at tail lock
    obtain ⟨positive,slot⟩ := tail
    have below : s.frameBuffer.tail < 4 := slot ▸ Nat.mod_lt _ (by decide)
    have next : incremented s.frameBuffer.tail = s.frameBuffer.tail + 1 := Nat.mod_eq_of_lt (by omega)
    have at_tail : TailAt s.handed.length (incremented s.frameBuffer.tail) .wrapTail := ⟨positive,by rw [next,slot]⟩
    exact ring.turn .wrapTail (incremented s.frameBuffer.tail) s.hspi3.Lock s.hspi3.txe s.pin at_tail trivial (by simpa using lock)
  | wrapTail =>
    rw [at_] at tail lock
    obtain ⟨positive,at_last⟩ := tail
    have wrapped := slot_succ (show 0 < FRAME_BUFFER_SIZE by decide) (s.handed.length - 1)
    rw [← at_last,Nat.sub_add_cancel positive] at wrapped
    by_cases last : s.frameBuffer.tail ≥ FRAME_BUFFER_SIZE
    · simp only [last,if_true] at wrapped ⊢
      exact ring.turn .setPin 0 s.hspi3.Lock s.hspi3.txe s.pin wrapped trivial (by simpa using lock)
    · simp only [last,if_false] at wrapped ⊢
      exact ring.turn .setPin s.frameBuffer.tail s.hspi3.Lock s.hspi3.txe s.pin wrapped trivial (by simpa using lock)
  | setPin =>
    rw [at_] at tail lock
    exact ring.turn .testState s.frameBuffer.tail s.hspi3.Lock s.hspi3.txe true tail trivial (by simpa using lock)

theorem State.oldest_congr {s t : State} (transferring : t.Transferring ↔ s.Transferring) (handed : t.handed = s.handed) :
    t.oldest sent = s.oldest sent := by
  rw [State.oldest,State.oldest,handed]
  exact if_congr (and_congr_right fun _ => transferring) rfl rfl

/-- A byte is sent. -/
theorem Ring.spi {s t : State} (ring : Ring sent s) (taken : s.SPI3_IRQHandler = some t) : Ring sent t := by
  obtain ⟨_,same⟩ := Option.ite_none_right_eq_some.mp taken
  have state : t.hspi3.State = s.hspi3.State := by cases same; exact SPI_TxISR_8BIT_State _
  have transferring : t.Transferring ↔ s.Transferring := by simp only [State.Transferring,state]
  have oldest : t.oldest sent = s.oldest sent := State.oldest_congr transferring (by cases same; rfl)
  cases same
  refine { ring with tested := ring.tested.mono transferring.mp id, lock := ?_, sending := ?_, room := ?_, live := ?_ }
  · show (SPI_TxISR_8BIT s.hspi3).Lock = _ ↔ _
    rw [SPI_TxISR_8BIT_Lock]
    exact ring.lock
  · intro busy
    obtain ⟨positive,offset,pointer⟩ := ring.sending (transferring.mp busy)
    refine ⟨positive,offset + 1,?_⟩
    show (SPI_TxISR_8BIT s.hspi3).pTxBuffPtr = _
    rw [SPI_TxISR_8BIT_pTxBuffPtr,pointer]
    rfl
  · rw [oldest]
    exact ring.room
  · rw [oldest]
    exact ring.live

/-- The transfer ends. -/
theorem Ring.close {s t : State} (ring : Ring sent s) (taken : s.closeTx = some t) : Ring sent t := by
  obtain ⟨_,same⟩ := Option.ite_none_right_eq_some.mp taken
  have free : ¬ t.Transferring := by
    cases same
    simp [State.Transferring]
  have later : s.oldest sent ≤ t.oldest sent := by
    have handed : t.handed = s.handed := by cases same; rfl
    have none_sent : t.oldest sent = t.handed.length := if_neg fun kept => free kept.2
    rw [none_sent,handed]
    exact s.oldest_le sent
  cases same
  refine { ring with
    tested := ring.tested.mono (fun busy => absurd busy free) id, sending := fun busy => absurd busy free
    room := ?_, live := ?_ }
  · intro running inside
    exact Nat.lt_of_lt_of_le (ring.room running inside) (Nat.add_le_add_right later _)
  · exact ring.live.mono later (Nat.le_refl _)

/-! ### Runs -/

theorem step_ring {s t : State} {a : Action} (ring : Ring sent s) (taken : step s a = some t) (few : FewWaiting s a t)
    (spared : sent = true → WithinCapacity s a t) : Ring sent t := by
  cases a with
  | sample v => exact ring.sample taken fun counts => (spared counts).2
  | callback htim4 => exact ring.callback taken few
  | capture v =>
    cases taken
    exact ring.capture v
  | main =>
    obtain ⟨idle,same⟩ := Option.ite_none_right_eq_some.mp taken
    cases same
    exact ring.mainLoop idle
  | spi => exact ring.spi taken
  | close => exact ring.close taken

/-- Within the capacity the frame in transfer belongs to the ring. -/
theorem step_ring_sent {s t : State} {a : Action} (ring : Ring true s) (taken : step s a = some t)
    (within : WithinCapacity s a t) : Ring true t := step_ring ring taken within.1 fun _ => within

/-- The frames are handed over once each and in order, hold the conversions in
    order, and are not changed before the end of their transfer. -/
structure Delivers (s : State) : Prop where
  in_order : s.handed <+: s.completed
  all : s.sdadc = .idle → s.main = .testFrames → s.frameBuffer.head = s.frameBuffer.tail → s.handed = s.completed
  conversions : ∀ (k : Nat) (f : OPQ_Frame), s.completed[k]? = some f →
    ∀ i < FRAME_DATA_COUNT, s.conversions[FRAME_DATA_COUNT * k + i]? = some (f.data i)
  unchanged : s.Transferring → ∃ p, s.hspi3.pTxBuffPtr = some p ∧ s.handed.getLast? = some (s.frameBuffer.frames p.slot)
  never_refused : s.refused = 0

/-- Where head and tail meet, no frame waits. -/
theorem Ring.all_handed {s : State} (ring : Ring sent s) (idle : s.sdadc = .idle) (at_ : s.main = .testFrames)
    (met : s.frameBuffer.head = s.frameBuffer.tail) : s.handed.length = s.completed.length := by
  have head := ring.at_head (by simp [idle])
  have tail := ring.tail
  rw [at_] at tail
  have order := ring.order
  have capacity := ring.capacity
  have slots : s.completed.length % 4 = s.handed.length % 4 := head.symm.trans (met.trans tail)
  omega

theorem Ring.delivers {s : State} (ring : Ring true s) : Delivers s where
  in_order := ring.delivered ▸ List.take_prefix _ _
  all := by
    intro idle at_ met
    rw [ring.delivered,ring.all_handed idle at_ met,List.take_length]
  conversions := ring.contents
  unchanged := by
    intro busy
    obtain ⟨positive,offset,pointer⟩ := ring.sending busy
    have order := ring.order
    refine ⟨_,pointer,?_⟩
    have kept := ring.live (s.handed.length - 1) (Nat.le_of_eq (if_pos ⟨rfl,busy⟩)) (by omega)
    rw [List.getLast?_eq_getElem?,ring.delivered,List.length_take,Nat.min_eq_left order,List.getElem?_take_of_lt (by omega)]
    exact kept.symm
  never_refused := ring.accepted

/-- A sample interrupt finds the counters in their ranges; `tail` is at the end
    of its range only where the main loop is about to wrap it. -/
def InRange (s : State) (a : Action) (_ : State) : Prop :=
  ∀ v, a = .sample v → s.frameBuffer.head < FRAME_BUFFER_SIZE ∧ s.frameBuffer.currentSample < FRAME_DATA_COUNT ∧
    s.frameBuffer.tail ≤ FRAME_BUFFER_SIZE ∧ (s.main ≠ .wrapTail → s.frameBuffer.tail < FRAME_BUFFER_SIZE)

theorem Ring.in_range {s t : State} {a : Action} (ring : Ring sent s) (taken : step s a = some t) : InRange s a t := by
  rintro v rfl
  obtain ⟨idle,_⟩ := Option.ite_none_right_eq_some.mp taken
  have samples := ring.samples
  have tail := ring.tail
  rw [idle] at samples
  refine ⟨?_,samples.1,?_⟩
  · rw [ring.at_head (by simp [idle])]
    exact Nat.mod_lt _ (by decide)
  · have slot : ∀ n, n % FRAME_BUFFER_SIZE < FRAME_BUFFER_SIZE := fun n => Nat.mod_lt n (by decide)
    cases at_ : s.main with
    | wrapTail =>
      rw [at_] at tail
      exact ⟨tail.2 ▸ slot _,fun inside => absurd rfl inside⟩
    | enable | unlock | advanceTail =>
      rw [at_] at tail
      exact ⟨Nat.le_of_lt (tail.2 ▸ slot _),fun _ => tail.2 ▸ slot _⟩
    | testState | testFrames | transmit | setPin =>
      rw [at_] at tail
      change s.frameBuffer.tail = _ at tail
      exact ⟨Nat.le_of_lt (tail ▸ slot _),fun _ => tail ▸ slot _⟩

/-- Every run within the capacity delivers its frames. -/
theorem ring_delivers (memory : OPQ_Frame_Buffer) {actions : List Action} {s : State}
    (ran : run step (start memory) actions = some s) (within : Along step WithinCapacity (start memory) actions) :
    Delivers s ∧ Along step InRange (start memory) actions := by
  have preserved : ∀ s a t, Ring true s → step s a = some t → WithinCapacity s a t → Ring true t :=
    fun _ _ _ => step_ring_sent
  exact ⟨(run_invariant_along (Ring true) preserved (start_ring memory) within ran).delivers,
    along_of_along (Ring true) preserved (fun _ _ _ ring taken _ => ring.in_range taken) (start_ring memory) within⟩

set_option maxRecDepth 20000 in
theorem ring_delivers_frame : ∃ s, run step (start zeroed) (fillFrame 7 ++ List.replicate 8 .main ++ sendFrame) = some s ∧
    Delivers s ∧ Along step InRange (start zeroed) (fillFrame 7 ++ List.replicate 8 .main ++ sendFrame) := by
  have possible : (run step (start zeroed) (fillFrame 7 ++ List.replicate 8 .main ++ sendFrame)).isSome = true := by
    decide +kernel
  obtain ⟨s,ran⟩ := Option.isSome_iff_exists.mp possible
  exact ⟨s,ran,ring_delivers zeroed ran (by decide +kernel)⟩

/-- Three frames are sent, and the fourth is handed over up to `tail++`. -/
def beforeWrap : List Action :=
  (List.replicate 3 (fillFrame 7 ++ List.replicate 8 .main ++ sendFrame)).flatten ++ fillFrame 7 ++ List.replicate 6 .main

set_option maxRecDepth 20000 in
/-- A sample interrupt comes between `tail++` and the wrap of the tail. -/
theorem tail_beyond : Along step WithinCapacity (start zeroed) (beforeWrap ++ [.sample 7]) ∧
    ((run step (start zeroed) beforeWrap).map fun s => (s.frameBuffer.tail,(step s (.sample 7)).isSome)) = some (4,true) := by
  constructor <;> decide +kernel

/-! ### Overwriting and forgetting -/

/-- The statement writes into the frame at the head. -/
def Callback.writes : Callback → Bool
  | .store _ | .copyGpsCounter | .copyCounter | .clearFlags | .markFrame => true
  | _ => false

/-- The sample interrupt does not write into the slot whose transfer is in progress. -/
def KeepsTransfer (s : State) (a : Action) (_ : State) : Prop :=
  match a with
  | .callback _ => s.sdadc.writes → s.Transferring → ∀ p, s.hspi3.pTxBuffPtr = some p → p.slot ≠ s.frameBuffer.head
  | _ => True

instance (s : State) (a : Action) (t : State) : Decidable (KeepsTransfer s a t) :=
  match a with
  | .callback _ => inferInstanceAs (Decidable
      (s.sdadc.writes → s.Transferring → ∀ p ∈ s.hspi3.pTxBuffPtr, p.slot ≠ s.frameBuffer.head))
  | .sample _ | .capture _ | .main | .spi | .close => .isTrue trivial

/-- Where the main loop finds head and tail equal, every completed frame has
    been handed over. -/
def ForgetsNothing (s : State) (a : Action) (_ : State) : Prop :=
  match a with
  | .main => s.main = .testFrames → s.frameBuffer.head = s.frameBuffer.tail → s.waiting = 0
  | _ => True

theorem Ring.keeps_transfer {s : State} (ring : Ring true s) (a : Action) (t : State) : KeepsTransfer s a t := by
  cases a with
  | callback htim4 =>
    intro writes busy p pointer
    have running : s.sdadc ≠ .idle := fun at_ => by rw [at_] at writes; cases writes
    have inside : s.sdadc ≠ .wrapHead := fun at_ => by rw [at_] at writes; cases writes
    obtain ⟨positive,offset,is⟩ := ring.sending busy
    cases is.symm.trans pointer
    have room := ring.room running inside
    have order := ring.order
    rw [State.oldest,if_pos ⟨rfl,busy⟩] at room
    rw [ring.at_head inside]
    exact slot_ne (by omega) room
  | _ => trivial

theorem Ring.forgets_nothing {s t : State} {a : Action} (ring : Ring sent s) (taken : step s a = some t) : ForgetsNothing s a t := by
  cases a with
  | main =>
    intro at_ met
    obtain ⟨idle,_⟩ := Option.ite_none_right_eq_some.mp taken
    rw [State.waiting,ring.all_handed idle at_ met,Nat.sub_self]
  | _ => trivial

/-- No frame is forgotten while no more than three wait, and within the capacity
    none is corrupted either. -/
theorem ring_keeps_frames (memory : OPQ_Frame_Buffer) {actions : List Action}
    (few : Along step FewWaiting (start memory) actions) :
    Along step ForgetsNothing (start memory) actions ∧
      (Along step WithinCapacity (start memory) actions → Along step KeepsTransfer (start memory) actions) := by
  constructor
  · have preserved : ∀ s a t, Ring false s → step s a = some t → FewWaiting s a t → Ring false t :=
      fun _ _ _ ring taken few => step_ring ring taken few fun counts => by cases counts
    exact along_of_along (Ring false) preserved (fun _ _ _ ring taken _ => ring.forgets_nothing taken) (start_ring memory) few
  · exact along_of_along (Ring true) (fun _ _ _ => step_ring_sent) (fun _ a t ring _ _ => ring.keeps_transfer a t)
      (start_ring memory)

/-- A frame is handed over and not clocked while three more are completed; the
    next sample is written into it. -/
def overwritten : List Action :=
  fillFrame 7 ++ List.replicate 8 .main ++ (List.replicate 3 (fillFrame 8)).flatten ++ [.sample 9]

/-- The frames that wait then are sent, up to where the main loop finds none. -/
def drained : List Action :=
  overwritten ++ List.replicate 3 (.callback 0) ++ (List.replicate 3 (sendFrame ++ List.replicate 8 .main)).flatten ++
    sendFrame ++ [.main,.main]

set_option maxRecDepth 20000 in
theorem ring_keeps_frames_two : (run step (start zeroed) drained).isSome = true ∧ Along step ForgetsNothing (start zeroed) drained ∧
    Along step KeepsTransfer (start zeroed) (fillFrame 7 ++ List.replicate 8 .main ++ fillFrame 8) :=
  ⟨by decide +kernel,(ring_keeps_frames zeroed (by decide +kernel)).1,
    (ring_keeps_frames zeroed (by decide +kernel)).2 (by decide +kernel)⟩

set_option maxRecDepth 20000 in
/-- A transfer that is not clocked while three more frames are completed is
    overwritten by the next sample; four frames that complete before the main
    loop looks at the ring are forgotten. -/
theorem ring_overflows :
    ((run step (start zeroed) overwritten).map
      fun s => (s.sdadc,decide s.Transferring,s.hspi3.pTxBuffPtr.map BytePtr.slot,s.frameBuffer.head)) =
        some (.store 9,true,some 0,0) ∧
    ((run step (start zeroed) ((List.replicate 4 (fillFrame 7)).flatten ++ [.main])).map
      fun s => (s.main,s.frameBuffer.head,s.frameBuffer.tail,s.waiting)) = some (.testFrames,0,0,4) := by
  constructor <;> decide +kernel

end Opqbox.Firmware
