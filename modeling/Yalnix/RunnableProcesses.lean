import Mathlib.Data.List.Nodup
import Yalnix.Traces

/-!
# Runnable processes

A process other than idle that is neither blocked nor ended is to be the
running one or on the ready queue. The scheduler loses one when it picks the
process that called it: that process has been made ready and linked, is taken
off the queue, and is not marked running again. In runs in which this does not
happen no process is lost.
-/

namespace Yalnix.RunnableProcesses

open Framework FrameTable KernelState Scheduling Ipc Terminals ProcessLifetime ProgramLoading
open Syscalls Traps KernelStart Coherence Operations OperationCoherence CallOperations
open RunInvariants Traces

variable {M : Machine} {allow : Label → Prop} {s t : Kernel} {live : PcbPtr → Bool}
  {state : PcbPtr → ProcState} {idle current p w : PcbPtr} {ready : List PcbPtr}

/-- A process that could run. -/
def CanRun (s : Kernel) (p : PcbPtr) : Prop :=
  s.live p=true ∧ p≠s.idleProcess ∧ s.state p≠.blocked ∧ s.state p≠.zombie

/-- The current process runs, and the others that could run are queued once. -/
def NoneLost (s : Kernel) : Prop :=
  ∀ p,CanRun s p → (p=s.currentProcess ∧ s.state p=.running) ∨
    (s.readyQueue.count p=1 ∧ s.state p=.ready)

/-- Processes that could run are the running one or linked. -/
def KeptOk (live : PcbPtr → Bool) (state : PcbPtr → ProcState) (idle current : PcbPtr)
    (ready : List PcbPtr) : Prop :=
  ∀ p,live p=true → p≠idle → state p≠.blocked → state p≠.zombie →
    (p=current ∧ state p=.running) ∨ (p∈ready ∧ state p=.ready)

/-- A process is made ready and linked. -/
theorem KeptOk.link (h : KeptOk live state idle current ready) :
    KeptOk live (Function.update state w .ready) idle current (ready++[w]) := by
  intro p hl hi hb hz
  by_cases he : p=w
  · rw [he,Function.update_self]
    exact .inr ⟨by simp,rfl⟩
  · rw [Function.update_of_ne he] at hb hz ⊢
    rcases h p hl hi hb hz with hr|⟨hm,hst⟩
    · exact .inl hr
    · exact .inr ⟨List.mem_append_left _ hm,hst⟩

/-- A process blocks or ends. -/
theorem KeptOk.stop {a : ProcState} (h : KeptOk live state idle current ready)
    (ha : a=.blocked ∨ a=.zombie) :
    KeptOk live (Function.update state w a) idle current ready := by
  intro p hl hi hb hz
  by_cases he : p=w
  · rw [he,Function.update_self] at hb hz
    rcases ha with ha|ha
    · exact absurd ha hb
    · exact absurd ha hz
  · rw [Function.update_of_ne he] at hb hz ⊢
    exact h p hl hi hb hz

/-- A process that dies is no longer kept runnable. -/
theorem KeptOk.death (h : KeptOk live state idle current ready) :
    KeptOk (Function.update live w false) state idle current ready := by
  intro p hl hi hb hz
  by_cases he : p=w
  · rw [he,Function.update_self] at hl
    cases hl
  · rw [Function.update_of_ne he] at hl
    exact h p hl hi hb hz

/-- A process is born, ready and linked. -/
theorem KeptOk.birth (h : KeptOk live state idle current ready) :
    KeptOk (Function.update live w true) (Function.update state w .ready) idle current
      (ready++[w]) := by
  intro p hl hi hb hz
  by_cases he : p=w
  · rw [he,Function.update_self]
    exact .inr ⟨by simp,rfl⟩
  · rw [Function.update_of_ne he] at hl hb hz ⊢
    rcases h p hl hi hb hz with hr|⟨hm,hst⟩
    · exact .inl hr
    · exact .inr ⟨List.mem_append_left _ hm,hst⟩

/-- A block that is not in use is written to. -/
theorem KeptOk.unused {a : ProcState} (h : KeptOk live state idle current ready)
    (hw : live w=false) : KeptOk live (Function.update state w a) idle current ready := by
  intro p hl hi hb hz
  have he : p≠w := by
    rintro rfl
    rw [hw] at hl
    cases hl
  rw [Function.update_of_ne he] at hb hz ⊢
  exact h p hl hi hb hz

/-- The scheduler picks another process, or idle its own. -/
theorem kept_dispatch (hc : Coherent M s)
    (h : KeptOk s.live s.state s.idleProcess s.currentProcess s.readyQueue) {env : Env}
    (hs : env.switchOk=true)
    (hr : s.currentProcess=s.idleProcess ∨ s.state s.currentProcess≠.running)
    (hn : nextProcess s=s.currentProcess → s.currentProcess=s.idleProcess) :
    KeptOk (dispatchNext M env s).live (dispatchNext M env s).state
      (dispatchNext M env s).idleProcess (dispatchNext M env s).currentProcess
      (dispatchNext M env s).readyQueue := by
  have he := dispatchNext_eq hc hs
  rw [he]
  intro p hl hi hb hz
  dsimp only at hl hi hb hz ⊢
  by_cases hp : p=nextProcess s
  · have hne : nextProcess s≠s.currentProcess := by
      intro hcur
      exact hi (hp.trans (hcur.trans (hn hcur)))
    rw [if_neg hne,hp,Function.update_self]
    exact .inl ⟨rfl,rfl⟩
  · have hst : (if nextProcess s=s.currentProcess then s.state
        else Function.update s.state (nextProcess s) .running) p=s.state p := by
      split
      · rfl
      · rw [Function.update_of_ne hp]
    rw [hst] at hb hz ⊢
    rcases h p hl hi hb hz with ⟨hcur,hrun⟩|⟨hm,hrdy⟩
    · rw [hcur] at hi hrun
      rcases hr with hr|hr
      · exact absurd hr hi
      · exact absurd hrun hr
    · refine .inr ⟨?_,hrdy⟩
      rcases nextProcess_cases hc with ⟨hq,_⟩|⟨rest,hq⟩
      · rw [hq] at hm
        cases hm
      · rw [hq] at hm ⊢
        rcases List.mem_cons.1 hm with hpn|hm
        · exact absurd hpn hp
        · exact hm

/-- Every operation but the pick of the caller keeps runnable processes. -/
theorem op_kept {b : Bool} (hallow : ¬allow .repick) (hc : Coherent M s)
    (h : KeptOk s.live s.state s.idleProcess s.currentProcess s.readyQueue)
    (hop : Op M allow b s t) :
    KeptOk t.live t.state t.idleProcess t.currentProcess t.readyQueue := by
  cases hop with
  | sleepOver p hl ho => exact h.link
  | requeue hi hs => exact h.link
  | dispatch env hs hcpu hk hr ho =>
    refine kept_dispatch hc h hs hr (fun hn => ?_)
    by_contra hi
    exact hallow (ho hn hi)
  | forkUndone env c pfns pt m₁ m u ha hcp =>
    obtain ⟨h0,hl⟩ := callocPcb_fresh hcp
    have hlive : Function.update (Function.update s.live c true) c false=s.live := by
      rw [Function.update_idem,Function.update_eq_self_iff]
      exact hl.symm
    rw [destroyed_child hc h0 hl]
    have hu : KeptOk s.live (Function.update s.state c .ready) s.idleProcess s.currentProcess
      s.readyQueue := h.unused hl
    rw [←hlive] at hu
    exact hu
  | spawn env caller c pfns pt m₁ m u hb =>
    rw [spawn_eq]
    exact h.birth
  | handOff i l w rest u => exact h.link
  | zombie status k => exact h.stop (.inr rfl)
  | zombieWake status k => exact (h.stop (.inr rfl)).link
  | collect statusPtr c ha hch hz =>
    rw [collectChild_eq hc ha statusPtr hch hz]
    exact h.death
  | blockDelay ticks k u => exact h.stop (.inl rfl)
  | blockChild statusPtr k u => exact h.stop (.inl rfl)
  | blockPipe id buf len pipe k u => exact h.stop (.inl rfl)
  | blockLock id l k u => exact h.stop (.inl rfl)
  | blockCvar id lockId cvar lockOpened k u => exact h.stop (.inl rfl)
  | blockRead i k u => exact h.stop (.inl rfl)
  | startWrite env i buf len k u => exact h.stop (.inl rfl)
  | queueWrite env i buf len k u => exact h.stop (.inl rfl)
  | wake q w rest u => exact h.link
  | deliver i line r rest => exact h.link
  | transmitLast i u => exact h.link
  | transmitNext i u w rest => exact h.link
  | _ => exact h

/-- The initial process runs behind the boot. -/
theorem booted_kept {b : Boot M} {p q : PcbPtr} {pfn : ℕ} {pfns : ℕ → ℕ} {m₁ m₂ m : Memory}
    {v : UserSpace} {u : UserContext} :
    KeptOk (bootedKernel M b p q pfn pfns m₁ m₂ m v u).live
      (bootedKernel M b p q pfn pfns m₁ m₂ m v u).state
      (bootedKernel M b p q pfn pfns m₁ m₂ m v u).idleProcess
      (bootedKernel M b p q pfn pfns m₁ m₂ m v u).currentProcess
      (bootedKernel M b p q pfn pfns m₁ m₂ m v u).readyQueue := by
  intro x hl hi hb hz
  rcases booted_live.1 hl with rfl|rfl
  · exact .inl ⟨rfl,booted_running (.inl rfl)⟩
  · exact absurd rfl hi

/-- In every run in which no trap makes the scheduler pick its caller, no
process that could run is lost. -/
theorem run_noneLost (h : Run M (fun _ => True)
    (fun s env input => env.switchOk=true ∧ ¬Repicks M s input) s) : NoneLost s := by
  have hok : ∀ s env input,env.switchOk=true ∧ ¬Repicks M s input →
      env.switchOk=true ∧ StepAllowed M (fun l => l≠.repick) s env input := by
    rintro s env input ⟨hsw,hn⟩
    refine ⟨hsw,fun x hx => ?_⟩
    cases hx with
    | repick _ hr => exact absurd hr hn
    | _ => simp
  obtain ⟨hs,hk⟩ := run_invariant hok
    (P := fun s => KeptOk s.live s.state s.idleProcess s.currentProcess s.readyQueue)
    (fun b p q pfn pfns m₁ m₂ m v u _ _ => booted_kept)
    (fun c s t hc hp hop => op_kept (by simp) hc hp hop) h
  rintro p ⟨hl,hi,hb,hz⟩
  rcases hk p hl hi hb hz with hr|⟨hm,hst⟩
  · exact .inl hr
  · exact .inr ⟨List.count_eq_one_of_mem hs.ready.nodup hm,hst⟩

/-- A test that a trap does not make the scheduler pick its caller. -/
def pickTest (M : Machine) (s : Kernel) (env : Env) : Input → Bool
  | .trap u => env.switchOk && (s.readyQueue≠[] ||
      (u.vector≠.clock && M.syscallOf u.code≠.delay))
  | .resume => env.switchOk

/-- A step that passes the test picks another process. -/
theorem pickTest_sound (s : Kernel) (env : Env) (input : Input)
    (h : pickTest M s env input=true) : env.switchOk=true ∧ ¬Repicks M s input := by
  cases input with
  | resume => exact ⟨h,fun hr => hr⟩
  | trap u =>
    dsimp only [pickTest] at h
    simp only [Bool.and_eq_true,Bool.or_eq_true,decide_eq_true_eq] at h
    refine ⟨h.1,?_⟩
    rintro (⟨hv,_,_,hq,_⟩|⟨_,hd,_,_,hq,_⟩)
    · rcases h.2 with hn|hn
      · exact hn hq
      · exact hn.1 hv
    · rcases h.2 with hn|hn
      · exact hn hq
      · exact hn.2 hd

/-- Behind a fork a tick makes the parent wait for its turn. -/
theorem run_noneLost_fork : ∃ s,Run sampleMachine (fun _ => True)
      (fun s env input => env.switchOk=true ∧ ¬Repicks sampleMachine s input) s ∧
    s.currentProcess=3 ∧ s.state 2=.ready ∧ NoneLost s := by
  obtain ⟨s,hr,hq⟩ := replay_exists (fun _ => True) (pickTest_sound (M := sampleMachine)) trivial
    sampleBoot_user [forkInput 3 2,tickInput,resumeInput]
    (fun s => s.currentProcess=3 ∧ s.state 2=.ready) (by decide +kernel)
  simp only [decide_eq_true_eq] at hq
  exact ⟨s,hr,hq.1,hq.2,run_noneLost hr⟩

/-- A tick with nobody else to run loses the initial process: it returns to
user mode in state ready and is not on the ready queue. -/
theorem noneLost_fails : ¬∀ (M : Machine) (s : Kernel),Reachable M s → s.cpu=.user →
    NoneLost s := by
  intro hall
  obtain ⟨s,hr,hq⟩ := replay_reachable sampleBoot_user [tickInput,resumeInput]
    (fun s => s.cpu=.user ∧ s.live 2=true ∧ s.idleProcess=1 ∧ s.state 2=.ready ∧ s.readyQueue=[])
    (by decide +kernel)
  simp only [decide_eq_true_eq] at hq
  obtain ⟨hu,hl,hi,hst,hrq⟩ := hq
  rcases hall sampleMachine s hr hu 2 ⟨hl,by rw [hi]; decide,by rw [hst]; decide,
    by rw [hst]; decide⟩ with ⟨_,hrun⟩|⟨hcount,_⟩
  · rw [hst] at hrun
    cases hrun
  · rw [hrq] at hcount
    cases hcount

end Yalnix.RunnableProcesses
