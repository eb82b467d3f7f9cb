import Opqbox.Runs

/-!
The life of the kernel module (`opq_main.c`): the statements of `opq_module_init`
and `opq_module_exit`, with the interrupts, the executions of the work and the
reads of the character device that come between them. What the exit releases too
early is still used by work that was queued before (`safe_iff_kept`).
-/
namespace Opqbox.KernelModule
open Opqbox.Runs

/-- The statement that comes next, from `kmalloc` of `opq_dev` to its `kfree`.
    While the module is `loaded`, its exit may begin. -/
inductive Statement where
  | allocate | circ_buffer_init | alloc_chrdev_region | cdev_add | busnum_to_master | new_device
  | gpio_request | gpio_direction_input | gpio_to_irq | create_workqueue | request_irq | loaded
  | cdev_del | unregister_device | free_irq | gpio_free | cancel_work_sync | destroy_workqueue
  | circ_buffer_remove | free | exited
  deriving DecidableEq

/-- Where `opq_wq_spi_reader_handler` is: not running, before its `spi_read`, or
    in it. -/
inductive Handler where
  | idle | locked | reading
  deriving DecidableEq

/-- What there is: the ring, the character device, the SPI device that
    `opq_dev` points to, the work queue and the interrupt handler. -/
structure State where
  next : Statement
  cycles : Bool
  cdev : Bool
  spi_device : Bool
  wq : Bool
  irq : Bool
  /-- `opq_gpio_irq_handler` runs, and comes to its `queue_work`. -/
  interrupted : Bool
  /-- The work is queued. -/
  pending : Bool
  handler : Handler
  /-- The open files of the character device. -/
  files : Nat

def start : State := ⟨.allocate,false,false,false,false,false,false,false,.idle,0⟩

inductive Action where
  /-- The next statement of init or exit; `ok` is whether it succeeds. -/
  | module (ok : Bool)
  | interrupt
  | queue_work
  | work
  | spi_read
  | returned
  | open
  | release
  | read

/-- The statements of init and exit. `opq_module_init` does not look at the return
    values of its parts. -/
def stepModule (s : State) (ok : Bool) : Option State :=
  match s.next with
  | .allocate => some { s with next := .circ_buffer_init }
  | .circ_buffer_init => some { s with next := .alloc_chrdev_region, cycles := true }
  | .alloc_chrdev_region => some { s with next := if ok then .cdev_add else .busnum_to_master }
  | .cdev_add => some { s with next := .busnum_to_master, cdev := ok }
  | .busnum_to_master => some { s with next := if ok then .new_device else .gpio_request }
  | .new_device => some { s with next := .gpio_request, spi_device := ok }
  | .gpio_request => some { s with next := if ok then .gpio_direction_input else .loaded }
  | .gpio_direction_input => some { s with next := if ok then .gpio_to_irq else .loaded }
  | .gpio_to_irq => some { s with next := if ok then .create_workqueue else .loaded }
  | .create_workqueue => some { s with next := .request_irq, wq := ok }
  | .request_irq => some { s with next := .loaded, irq := ok }
  -- An open file keeps the module.
  | .loaded => if s.files = 0 then some { s with next := .cdev_del } else none
  | .cdev_del => some { s with next := .unregister_device, cdev := false }
  | .unregister_device => some { s with next := .free_irq, spi_device := false }
  | .free_irq => if s.interrupted then none else some { s with next := .gpio_free, irq := false }
  | .gpio_free => some { s with next := .cancel_work_sync }
  | .cancel_work_sync => if s.handler = .idle then some { s with next := .destroy_workqueue, pending := false } else none
  | .destroy_workqueue => some { s with next := .circ_buffer_remove, wq := false }
  | .circ_buffer_remove => some { s with next := .free, cycles := false }
  | .free => some { s with next := .exited }
  | .exited => none

/-- The number of a statement. -/
def number : Statement → Nat
  | .allocate => 0
  | .circ_buffer_init => 1
  | .alloc_chrdev_region => 2
  | .cdev_add => 3
  | .busnum_to_master => 4
  | .new_device => 5
  | .gpio_request => 6
  | .gpio_direction_input => 7
  | .gpio_to_irq => 8
  | .create_workqueue => 9
  | .request_irq => 10
  | .loaded => 11
  | .cdev_del => 12
  | .unregister_device => 13
  | .free_irq => 14
  | .gpio_free => 15
  | .cancel_work_sync => 16
  | .destroy_workqueue => 17
  | .circ_buffer_remove => 18
  | .free => 19
  | .exited => 20

def step (s : State) : Action → Option State
  | .module ok => stepModule s ok
  | .interrupt => if s.irq ∧ ¬ s.interrupted then some { s with interrupted := true } else none
  | .queue_work => if s.interrupted then some { s with interrupted := false, pending := s.pending || s.wq } else none
  | .work => if s.pending ∧ s.handler = .idle then some { s with pending := false, handler := .locked } else none
  | .spi_read => if s.handler = .locked then some { s with handler := .reading } else none
  | .returned => if s.handler = .reading then some { s with handler := .idle } else none
  -- The module can be opened until its exit begins.
  | .open => if s.cdev ∧ number s.next ≤ number .loaded then some { s with files := s.files + 1 } else none
  | .release => if 0 < s.files then some { s with files := s.files - 1 } else none
  | .read => if 0 < s.files ∧ s.handler = .idle then some s else none

/-! ### Uses of what there is -/

/-- `queue_work` is called with a work queue, `spi_read` with a registered device, and
    the ring is there where it is touched. -/
def Safe (s : State) (a : Action) (_ : State) : Prop :=
  match a with
  | .queue_work => s.wq = true
  | .work => s.cycles = true
  | .spi_read => s.spi_device = true ∧ s.cycles = true
  | .returned => s.cycles = true
  | .read => s.cycles = true
  | _ => True

/-- An interrupt comes where `create_workqueue` has succeeded, an execution of the
    work begins where `opq_init_spi` has succeeded and `opq_release_spi` not been
    called, and this is not called while an execution is before its `spi_read`. -/
def Kept (s : State) (a : Action) (_ : State) : Prop :=
  match a with
  | .interrupt => s.wq = true
  | .work => s.spi_device = true
  | .module _ => s.next = .unregister_device → s.handler ≠ .locked
  | _ => True

/-! ### What there is when -/

/-- What a statement of init or exit does to each thing, by its number. -/
structure Moved (s t : State) : Prop where
  later : number t.next = number s.next + 1 ∨
    number .circ_buffer_init < number s.next ∧ number s.next < number t.next ∧ number t.next ≤ number .loaded
  kept : t.interrupted = s.interrupted ∧ t.handler = s.handler ∧ t.files = s.files
  cycles : t.cycles = true ∨ t.cycles = s.cycles ∧ number s.next ≠ number .circ_buffer_init ∨
    number s.next = number .circ_buffer_remove
  cdev : t.cdev = true → s.cdev = true ∨ number s.next = number .cdev_add
  spi_device : number s.next = number .unregister_device ∧ t.spi_device = false ∨
    number s.next ≠ number .unregister_device ∧ (t.spi_device = s.spi_device ∨ number s.next = number .new_device)
  wq : t.wq = s.wq ∨ number s.next = number .create_workqueue ∨ number s.next = number .destroy_workqueue ∧ t.wq = false
  irq : t.irq = true → s.irq = true ∧ number s.next ≠ number .free_irq ∨ number s.next = number .request_irq
  pending : t.pending = true → s.pending = true ∧ number s.next ≠ number .cancel_work_sync
  waits : (s.interrupted = true → number s.next ≠ number .free_irq) ∧
    (s.handler ≠ .idle → number s.next ≠ number .cancel_work_sync) ∧ (0 < s.files → number s.next ≠ number .loaded)

theorem numbers : number .circ_buffer_init = 1 ∧ number .cdev_add = 3 ∧ number .new_device = 5 ∧
    number .create_workqueue = 9 ∧ number .request_irq = 10 ∧ number .loaded = 11 ∧ number .unregister_device = 13 ∧
    number .free_irq = 14 ∧ number .cancel_work_sync = 16 ∧ number .destroy_workqueue = 17 ∧
    number .circ_buffer_remove = 18 := by decide

variable {s t : State}

theorem module_moved {ok : Bool} (taken : stepModule s ok = some t) : Moved s t := by
  cases next : s.next <;> simp only [stepModule,next,Option.some.injEq,reduceCtorEq,Option.ite_none_left_eq_some,
    Option.ite_none_right_eq_some] at taken
  case loaded =>
    obtain ⟨closed,rfl⟩ := taken
    constructor <;> simp [next,number,closed]
  case free_irq =>
    obtain ⟨idle,rfl⟩ := taken
    constructor <;> simp [next,number,idle]
  case cancel_work_sync =>
    obtain ⟨idle,rfl⟩ := taken
    constructor <;> simp [next,number,idle]
  all_goals
    subst taken
    constructor <;> cases ok <;> simp [next,number]

/-- What holds between the steps: each thing is there at most from its acquisition
    by init to its release by exit, and the ring always. -/
structure Inv (s : State) : Prop where
  cycles : number .circ_buffer_init < number s.next → number s.next ≤ number .circ_buffer_remove → s.cycles = true
  cdev : s.cdev = true → number .cdev_add < number s.next
  irq : s.irq = true → number .request_irq < number s.next ∧ number s.next ≤ number .free_irq
  interrupted : s.interrupted = true → number .request_irq < number s.next ∧ number s.next ≤ number .free_irq
  pending : s.pending = true → number .request_irq < number s.next ∧ number s.next ≤ number .cancel_work_sync
  handler : s.handler ≠ .idle → number .request_irq < number s.next ∧ number s.next ≤ number .cancel_work_sync
  files : 0 < s.files → number .cdev_add < number s.next ∧ number s.next ≤ number .loaded

theorem inv_start : Inv start := by
  constructor <;> simp [start,number]

theorem Inv.module (inv : Inv s) (moved : Moved s t) : Inv t := by
  obtain ⟨interrupted,handler,files⟩ := moved.kept
  have later := moved.later
  have waits := moved.waits
  simp only [numbers] at later waits
  constructor <;> simp only [numbers]
  · intro low high
    have was := inv.cycles
    rcases moved.cycles with there | ⟨same,other⟩ | last
    · exact there
    · simp only [numbers] at was other
      rw [same]
      exact was (by omega) (by omega)
    · simp only [numbers] at last
      omega
  · intro there
    have was := inv.cdev
    simp only [numbers] at was
    rcases moved.cdev there with before | now
    · have := was before
      omega
    · simp only [numbers] at now
      omega
  · intro there
    have was := inv.irq
    simp only [numbers] at was
    rcases moved.irq there with ⟨before,other⟩ | now
    · simp only [numbers] at other
      have := was before
      omega
    · simp only [numbers] at now
      omega
  · rw [interrupted]
    intro runs
    have was := inv.interrupted runs
    have blocks := waits.1 runs
    simp only [numbers] at was
    omega
  · intro queued
    obtain ⟨before,other⟩ := moved.pending queued
    have was := inv.pending before
    simp only [numbers] at was other
    omega
  · rw [handler]
    intro runs
    have was := inv.handler runs
    have blocks := waits.2.1 runs
    simp only [numbers] at was
    omega
  · rw [files]
    intro opened
    have was := inv.files opened
    have blocks := waits.2.2 opened
    simp only [numbers] at was
    omega

theorem Inv.step (inv : Inv s) {a : Action} (taken : step s a = some t) : Inv t := by
  obtain ⟨cycles,cdev,irq,interrupted,pending,handler,files⟩ := inv
  cases a with
  | module ok => exact Inv.module ⟨cycles,cdev,irq,interrupted,pending,handler,files⟩ (module_moved taken)
  | interrupt =>
    obtain ⟨⟨armed,_⟩,same⟩ := Option.ite_none_right_eq_some.mp taken
    cases same
    exact ⟨cycles,cdev,irq,fun _ => irq armed,pending,handler,files⟩
  | queue_work =>
    obtain ⟨runs,same⟩ := Option.ite_none_right_eq_some.mp taken
    cases same
    have window := interrupted runs
    refine ⟨cycles,cdev,irq,nofun,fun _ => ⟨window.1,?_⟩,handler,files⟩
    exact Nat.le_trans window.2 (by decide)
  | work =>
    obtain ⟨⟨queued,_⟩,same⟩ := Option.ite_none_right_eq_some.mp taken
    cases same
    exact ⟨cycles,cdev,irq,interrupted,nofun,fun _ => pending queued,files⟩
  | spi_read =>
    obtain ⟨locked,same⟩ := Option.ite_none_right_eq_some.mp taken
    cases same
    exact ⟨cycles,cdev,irq,interrupted,pending,fun _ => handler (by simp [locked]),files⟩
  | returned =>
    obtain ⟨_,same⟩ := Option.ite_none_right_eq_some.mp taken
    cases same
    exact ⟨cycles,cdev,irq,interrupted,pending,fun busy => absurd rfl busy,files⟩
  | «open» =>
    obtain ⟨⟨there,early⟩,same⟩ := Option.ite_none_right_eq_some.mp taken
    cases same
    exact ⟨cycles,cdev,irq,interrupted,pending,handler,fun _ => ⟨cdev there,early⟩⟩
  | release =>
    obtain ⟨opened,same⟩ := Option.ite_none_right_eq_some.mp taken
    cases same
    exact ⟨cycles,cdev,irq,interrupted,pending,handler,fun _ => files opened⟩
  | read =>
    obtain ⟨_,same⟩ := Option.ite_none_right_eq_some.mp taken
    cases same
    exact ⟨cycles,cdev,irq,interrupted,pending,handler,files⟩

/-- The ring is there whenever it is touched, in every run. -/
theorem Inv.ring (inv : Inv s) (busy : s.pending = true ∨ s.handler ≠ .idle ∨ 0 < s.files) : s.cycles = true := by
  have pending := inv.pending
  have handler := inv.handler
  have files := inv.files
  have cycles := inv.cycles
  simp only [numbers] at pending handler files cycles
  rcases busy with queued | running | opened
  · have := pending queued
    exact cycles (by omega) (by omega)
  · have := handler running
    exact cycles (by omega) (by omega)
  · have := files opened
    exact cycles (by omega) (by omega)

/-! ### What is still needed -/

/-- An interrupt that is to queue the work finds a work queue, and an execution that is
    to call `spi_read` a device. -/
def Supplied (s : State) : Prop := (s.interrupted = true → s.wq = true) ∧ (s.handler = .locked → s.spi_device = true)

theorem supplied_start : Supplied start := ⟨nofun,nofun⟩

/-- While a handler runs, init is over, and exit destroys no work queue. -/
theorem Inv.module_kept (inv : Inv s) (moved : Moved s t) :
    (s.interrupted = true → t.wq = s.wq) ∧ (s.handler = .locked →
      s.next = .unregister_device ∧ t.spi_device = false ∨ s.next ≠ .unregister_device ∧ t.spi_device = s.spi_device) := by
  have waits := moved.waits
  constructor
  · intro runs
    have window := inv.interrupted runs
    have wq := moved.wq
    simp only [numbers] at window wq
    rcases wq with same | first | ⟨last,_⟩
    · exact same
    · omega
    · omega
  · intro locked
    have window := inv.handler (by simp [locked])
    have device := moved.spi_device
    simp only [numbers] at window device
    rcases device with ⟨last,gone⟩ | ⟨other,same | first⟩
    · refine .inl ⟨?_,gone⟩
      cases next : s.next <;> rw [next] at last <;> first | rfl | cases last
    · refine .inr ⟨fun is => other ?_,same⟩
      rw [is]
      rfl
    · omega

theorem Supplied.step (supplied : Supplied s) (inv : Inv s) {a : Action} (taken : step s a = some t) (kept : Kept s a t) :
    Supplied t := by
  obtain ⟨queue,device⟩ := supplied
  cases a with
  | module ok =>
    have moved := module_moved taken
    obtain ⟨interrupted,handler,_⟩ := moved.kept
    obtain ⟨sameQueue,sameDevice⟩ := inv.module_kept moved
    constructor
    · rw [interrupted]
      intro runs
      rw [sameQueue runs]
      exact queue runs
    · rw [handler]
      intro locked
      rcases sameDevice locked with ⟨last,_⟩ | ⟨_,same⟩
      · exact absurd locked (kept last)
      · rw [same]
        exact device locked
  | interrupt =>
    obtain ⟨_,same⟩ := Option.ite_none_right_eq_some.mp taken
    cases same
    exact ⟨fun _ => kept,device⟩
  | queue_work =>
    obtain ⟨_,same⟩ := Option.ite_none_right_eq_some.mp taken
    cases same
    exact ⟨nofun,device⟩
  | work =>
    obtain ⟨_,same⟩ := Option.ite_none_right_eq_some.mp taken
    cases same
    exact ⟨queue,fun _ => kept⟩
  | spi_read =>
    obtain ⟨_,same⟩ := Option.ite_none_right_eq_some.mp taken
    cases same
    exact ⟨queue,nofun⟩
  | returned =>
    obtain ⟨_,same⟩ := Option.ite_none_right_eq_some.mp taken
    cases same
    exact ⟨queue,nofun⟩
  | «open» =>
    obtain ⟨_,same⟩ := Option.ite_none_right_eq_some.mp taken
    cases same
    exact ⟨queue,device⟩
  | release =>
    obtain ⟨_,same⟩ := Option.ite_none_right_eq_some.mp taken
    cases same
    exact ⟨queue,device⟩
  | read =>
    obtain ⟨_,same⟩ := Option.ite_none_right_eq_some.mp taken
    cases same
    exact ⟨queue,device⟩

/-- Where a safe step leaves what is needed, it was there before and the step meets the condition. -/
theorem Supplied.before (supplied : Supplied t) (inv : Inv s) {a : Action} (taken : KernelModule.step s a = some t)
    (safe : Safe s a t) : Supplied s ∧ Kept s a t := by
  obtain ⟨queue,device⟩ := supplied
  cases a with
  | module ok =>
    have moved := module_moved taken
    obtain ⟨interrupted,handler,_⟩ := moved.kept
    obtain ⟨sameQueue,sameDevice⟩ := inv.module_kept moved
    rw [interrupted] at queue
    rw [handler] at device
    refine ⟨⟨fun runs => ?_,fun locked => ?_⟩,fun last locked => ?_⟩
    · rw [← sameQueue runs]
      exact queue runs
    · rcases sameDevice locked with ⟨_,gone⟩ | ⟨_,same⟩
      · rw [device locked] at gone
        cases gone
      · rw [← same]
        exact device locked
    · rcases sameDevice locked with ⟨_,gone⟩ | ⟨other,_⟩
      · rw [device locked] at gone
        cases gone
      · exact other last
  | interrupt =>
    obtain ⟨_,same⟩ := Option.ite_none_right_eq_some.mp taken
    cases same
    exact ⟨⟨fun _ => queue rfl,device⟩,queue rfl⟩
  | queue_work =>
    obtain ⟨_,same⟩ := Option.ite_none_right_eq_some.mp taken
    cases same
    exact ⟨⟨fun _ => safe,device⟩,trivial⟩
  | work =>
    obtain ⟨_,same⟩ := Option.ite_none_right_eq_some.mp taken
    cases same
    exact ⟨⟨queue,fun _ => device rfl⟩,device rfl⟩
  | spi_read =>
    obtain ⟨_,same⟩ := Option.ite_none_right_eq_some.mp taken
    cases same
    exact ⟨⟨queue,fun _ => safe.1⟩,trivial⟩
  | returned =>
    obtain ⟨reading,same⟩ := Option.ite_none_right_eq_some.mp taken
    cases same
    exact ⟨⟨queue,fun locked => by rw [reading] at locked; cases locked⟩,trivial⟩
  | «open» =>
    obtain ⟨_,same⟩ := Option.ite_none_right_eq_some.mp taken
    cases same
    exact ⟨⟨queue,device⟩,trivial⟩
  | release =>
    obtain ⟨_,same⟩ := Option.ite_none_right_eq_some.mp taken
    cases same
    exact ⟨⟨queue,device⟩,trivial⟩
  | read =>
    obtain ⟨_,same⟩ := Option.ite_none_right_eq_some.mp taken
    cases same
    exact ⟨⟨queue,device⟩,trivial⟩

/-- What is supplied is there when it is used. -/
theorem Supplied.safe (supplied : Supplied s) (inv : Inv s) {a : Action} (taken : KernelModule.step s a = some t) :
    Safe s a t := by
  obtain ⟨queue,device⟩ := supplied
  cases a with
  | queue_work =>
    obtain ⟨runs,_⟩ := Option.ite_none_right_eq_some.mp taken
    exact queue runs
  | work =>
    obtain ⟨⟨queued,_⟩,_⟩ := Option.ite_none_right_eq_some.mp taken
    exact inv.ring (.inl queued)
  | spi_read =>
    obtain ⟨locked,_⟩ := Option.ite_none_right_eq_some.mp taken
    exact ⟨device locked,inv.ring (.inr (.inl (by simp [locked])))⟩
  | returned =>
    obtain ⟨reading,_⟩ := Option.ite_none_right_eq_some.mp taken
    exact inv.ring (.inr (.inl (by simp [reading])))
  | read =>
    obtain ⟨⟨opened,_⟩,_⟩ := Option.ite_none_right_eq_some.mp taken
    exact inv.ring (.inr (.inr opened))
  | _ => trivial

/-- A run that meets the condition uses nothing that is not there. Where no handler is
    left before its call, a run meets the condition exactly if it does so. -/
theorem safe_iff_kept (actions : List Action) :
    (Along step Kept start actions → Along step Safe start actions) ∧
      ∀ s, run step start actions = some s → s.interrupted = false → s.handler ≠ .locked →
        (Along step Safe start actions ↔ Along step Kept start actions) := by
  have safe : Along step Kept start actions → Along step Safe start actions :=
    along_of_along (fun s => Inv s ∧ Supplied s)
      (fun s a t inv taken kept => ⟨inv.1.step taken,inv.2.step inv.1 taken kept⟩)
      (fun s a t inv taken _ => inv.2.safe inv.1 taken) ⟨inv_start,supplied_start⟩
  refine ⟨safe,fun s ran idle unlocked => ⟨fun along => ?_,safe⟩⟩
  refine along_of_escaped Inv (fun s => ¬ Supplied s) (fun _ _ _ inv taken _ => inv.step taken) ?_ ?_ inv_start along ran ?_
  · exact fun s a t inv taken safe fails supplied => fails (supplied.before inv taken safe).2
  · exact fun s a t inv taken safe lacks supplied => lacks (supplied.before inv taken safe).1
  · refine fun lacks => lacks ⟨fun runs => ?_,fun locked => absurd locked unlocked⟩
    rw [idle] at runs
    cases runs

/-- Everything succeeds; the exit unregisters the SPI device, and then an interrupt comes. -/
def lateInterrupt : List Action := List.replicate 14 (.module true) ++ [.interrupt,.queue_work,.work]

theorem read_after_release : ¬ Along step Safe start (lateInterrupt ++ [.spi_read]) := by
  intro along
  have ran : run step start lateInterrupt = some _ := rfl
  have safe := along.at [] ran rfl
  cases safe.1

end Opqbox.KernelModule
