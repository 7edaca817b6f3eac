import Yalnix.FrameDemand
import Yalnix.Families
import Yalnix.PipeBuffers

/-!
# Calls that fail

A call that returns ERROR in the entry in which it was made has done nothing:
beside the history only the registers of the caller have changed. A Fork that
fails may leave other bytes in frames that are free again, and is not among
these calls.
-/

namespace Yalnix.FailedCalls

open Framework FrameTable KernelState Scheduling Ipc Terminals ProcessLifetime ProgramLoading
open Syscalls Traps KernelStart Coherence Operations OperationCoherence CallOperations
open RunInvariants Traces AddressSpaces FramePartition ScratchPage MappedFrames UserBreak
open PipeBuffers Continuations KernelEntries FrameDemand

variable {M : Machine} {allow : Label → Prop} {env : Env} {s t : Kernel} {u w : UserContext}
  {p q caller : PcbPtr} {rc : ℤ} {b : Boot M}

section Identifiers

/-- No process has the error code for an identifier. -/
def PidsValid (s : Kernel) : Prop := ∀ q,s.live q=true → s.pid q≠ERROR

/-- A process with an identifier that was given out is entered. -/
theorem PidsValid.enter (h : PidsValid s) (hn : env.newPid≠ERROR) {c : PcbPtr} {pfns : ℕ → ℕ}
    {pt : PageTable} {m : Memory} : PidsValid (enterChild M p c env.newPid pfns pt m s) := by
  intro q hq
  dsimp only [enterChild] at hq ⊢
  by_cases hqc : q=c
  · rw [hqc,Function.update_self]
    exact hn
  · rw [Function.update_of_ne hqc] at hq ⊢
    exact h q hq

/-- Every operation keeps the identifiers valid. -/
theorem op_pidsValid {b : Bool} (hc : Coherent M s) (h : PidsValid s) (hop : Op M allow b s t) :
    PidsValid t := by
  cases hop with
  | dispatch e hs =>
    have he := dispatchNext_eq hc hs
    rw [he]
    exact h
  | forkUndone e c pfns pt m₁ m u ha hcp =>
    obtain ⟨h0,hdead⟩ := callocPcb_fresh hcp
    rw [destroyed_child hc h0 hdead]
    intro q hq
    dsimp only [releaseProcess,enterChild,Kernel.setUserContext] at hq ⊢
    by_cases hqc : q=c
    · rw [hqc,Function.update_self] at hq
      cases hq
    · rw [Function.update_of_ne hqc,Function.update_of_ne hqc] at hq
      rw [Function.update_of_ne hqc]
      exact h q hq
  | spawn e caller c pfns pt m₁ m u hb hcp _ hn =>
    rw [spawn_eq]
    have henter : PidsValid (enterChild M s.currentProcess c e.newPid pfns pt m s) := h.enter hn
    exact henter
  | collect statusPtr c ha hch hz =>
    rw [collectChild_eq hc ha statusPtr hch hz]
    intro q hq
    dsimp only [releaseProcess] at hq ⊢
    by_cases hqc : q=c
    · rw [hqc,Function.update_self] at hq
      cases hq
    · rw [Function.update_of_ne hqc] at hq
      exact h q hq
  | _ => exact h

/-- Both processes of a boot with all answers have valid identifiers. -/
theorem booted_pidsValid {pfn : ℕ} {pfns : ℕ → ℕ} {m₁ m₂ m : Memory} {v : UserSpace}
    (hb : IdleAnswers b ∧ InitAnswers b) (hf : BootFacts M b p q pfn pfns m₁ m₂ m v) :
    PidsValid (bootedKernel M b p q pfn pfns m₁ m₂ m v u) := by
  have hpid : (bootedKernel M b p q pfn pfns m₁ m₂ m v u).pid=
      Function.update (Function.update (fun _ => 0) p b.idleEnv.newPid) q b.initEnv.newPid := rfl
  intro x hx
  rw [hpid]
  rcases booted_live.1 hx with rfl|rfl
  · rw [Function.update_self]
    exact hb.2.pid
  · rw [Function.update_of_ne hf.ne.symm,Function.update_self]
    exact hb.1.pid

/-- The boot of a run had all answers. -/
theorem run_answers {okBoot : Boot M → Prop} {ok : Kernel → Env → Input → Prop}
    (h : Run M okBoot ok s) : Run M (fun b => IdleAnswers b ∧ InitAnswers b) ok s := by
  induction h with
  | boot b hb hu => exact .boot b (booted_answers hu) hu
  | step env input _ he hok ih => exact .step env input ih he hok

/-- In every run all identifiers are valid. -/
theorem reachable_pidsValid (h : Reachable M s) : PidsValid s := by
  have hop : ∀ c s t,Coherent M s → PidsValid s → Op M (fun _ => True) c s t → PidsValid t :=
    fun _ _ _ hc hp hop => op_pidsValid hc hp hop
  exact (run_invariant (fun _ _ _ hok => ⟨hok,fun _ _ => trivial⟩)
    (fun _ _ _ _ _ _ _ _ _ _ hb hf => booted_pidsValid hb hf) hop (run_answers h)).2

end Identifiers

section Calls

/-- A result ERROR means that nothing but the history has changed. -/
def Untouched (s : Kernel) (u : UserContext) : Flow → Prop
  | .returns t w rc => rc=ERROR → w=u ∧ ∃ log,t={s with log := log}
  | .leaves _ => True

/-- A call that returns at once. -/
theorem untouched_same : Untouched s u (.returns s u rc) := fun _ => ⟨rfl,s.log,rfl⟩

/-- A call that succeeds is under no obligation here. -/
theorem untouched_success (h : rc≠ERROR) : Untouched s u (.returns t w rc) :=
  fun he => absurd he h

/-- A count is no error. -/
theorem count_ne_error {n : ℤ} (h : 0≤n) : n≠ERROR := by
  unfold ERROR
  omega

/-- Where SysWait returns ERROR, nothing but the history has changed. -/
theorem sysWait_untouched (hp : PidsValid s) (hc : Coherent M s) (statusPtr : ℕ) :
    Untouched s u (sysWait M env caller statusPtr u s) := by
  unfold sysWait waitLoop
  split
  · exact untouched_same
  · split
    · rename_i c hz
      have hmem := List.mem_of_find?_eq_some hz
      exact untouched_success (hp c (hc.family.child_parent _ c hc.ready.current_live hmem).1)
    · split
      · exact untouched_same
      · trivial

/-- SysExec fails before it has changed anything. -/
theorem sysExec_untouched (filename argvec : ℕ) :
    Untouched s u (sysExec M env filename argvec u s) := by
  unfold sysExec
  split
  · exact untouched_same
  · unfold execImage
    split
    · exact fun _ => ⟨rfl,_,rfl⟩
    · split
      · exact fun _ => ⟨rfl,_,rfl⟩
      · trivial
      · trivial
      · exact untouched_success (by decide)

/-- SysDelay with a negative number of ticks changes nothing. -/
theorem sysDelay_untouched (ticks : ℤ) : Untouched s u (sysDelay M env caller ticks u s) := by
  unfold sysDelay
  split
  · exact untouched_same
  · split
    · exact untouched_same
    · split
      · exact untouched_same
      · trivial

/-- SysTtyRead that refuses its arguments changes nothing. -/
theorem sysTtyRead_untouched (ttyId : ℤ) (buf : ℕ) (len : ℤ) :
    Untouched s u (sysTtyRead M env caller ttyId buf len u s) := by
  unfold sysTtyRead
  split
  · exact untouched_same
  · split
    · exact untouched_same
    · split
      · exact untouched_same
      · unfold ttyReadLoop
        split
        · exact untouched_success (count_ne_error (Int.natCast_nonneg _))
        · split
          · exact untouched_success (count_ne_error (Int.natCast_nonneg _))
          · trivial

/-- SysTtyWrite that refuses its arguments changes nothing. -/
theorem sysTtyWrite_untouched (ttyId : ℤ) (buf : ℕ) (len : ℤ) :
    Untouched s u (sysTtyWrite M env caller ttyId buf len u s) := by
  unfold sysTtyWrite
  split
  · exact untouched_same
  · split
    · exact untouched_same
    · split
      · exact untouched_same
      · split
        · exact untouched_same
        · split
          · trivial
          · trivial

/-- An initialising call enters an object or does nothing. -/
theorem initCall_untouched {idp : ℕ} {entered : ℕ → Kernel} :
    Untouched s u (if idp=0 then .returns s u ERROR
      else match allocObject s with
        | none => .returns s u ERROR
        | some id => .returns (entered id) u SUCCESS) := by
  split
  · exact untouched_same
  · split
    · exact untouched_same
    · exact untouched_success (by decide)

/-- SysPipeInit without a free slot or a buffer changes nothing. -/
theorem sysPipeInit_untouched (idp : ℕ) : Untouched s u (sysPipeInit M env idp u s) := by
  unfold sysPipeInit
  split
  · exact untouched_same
  · split
    · exact untouched_same
    · split
      · exact untouched_success (by decide)
      · exact untouched_same

/-- SysPipeRead, of a pipe whose length has not overflowed. -/
theorem sysPipeRead_untouched (hp : Pipes (fun pipe => 0≤pipe.len) s) (pipeId : ℤ) (buf : ℕ)
    (len : ℤ) : Untouched s u (sysPipeRead M env caller pipeId buf len u s) := by
  unfold sysPipeRead
  split
  · exact untouched_same
  · split
    · exact untouched_same
    · split
      · exact untouched_same
      · unfold pipeReadLoop
        split
        · rename_i pipe ho
          split
          · trivial
          · refine untouched_success (count_ne_error ?_)
            have hlen : 0≤pipe.len := by
              unfold getObject at ho
              split at ho
              · cases ho
              · exact hp _ pipe ho
            unfold readCount
            split
            · omega
            · exact hlen
        · exact untouched_same

/-- SysPipeWrite that finds no pipe or no room changes nothing but the history. -/
theorem sysPipeWrite_untouched (pipeId : ℤ) (buf : ℕ) (len : ℤ) :
    Untouched s u (sysPipeWrite env pipeId buf len u s) := by
  unfold sysPipeWrite
  split
  · exact untouched_same
  · split
    · exact untouched_same
    · split
      · split
        · exact untouched_same
        · trivial
        · exact untouched_success (count_ne_error (by omega))
      · exact untouched_same

/-- LockAcquire of a number that is no lock changes nothing. -/
theorem lockAcquire_untouched (lockId : ℤ) :
    Untouched s u (lockAcquire M env caller lockId u s) := by
  unfold lockAcquire
  split
  · split
    · exact untouched_same
    · split
      · exact untouched_same
      · unfold lockAcquireLoop
        split
        · trivial
        · exact untouched_success (by decide)
  · exact untouched_same

/-- SysRelease of a lock that its caller does not own changes nothing. -/
theorem sysRelease_untouched (lockId : ℤ) : Untouched s u (sysRelease lockId u s) := by
  unfold sysRelease
  split
  · split
    · exact untouched_same
    · exact untouched_success (by decide)
  · exact untouched_same

/-- SysCvarSignal of a number that is no condition variable changes nothing. -/
theorem sysCvarSignal_untouched (cvarId : ℤ) : Untouched s u (sysCvarSignal cvarId u s) := by
  unfold sysCvarSignal
  split
  · exact untouched_success (by decide)
  · exact untouched_same

/-- SysCvarBroadcast of a number that is no condition variable changes nothing. -/
theorem sysCvarBroadcast_untouched (cvarId : ℤ) :
    Untouched s u (sysCvarBroadcast cvarId u s) := by
  unfold sysCvarBroadcast
  split
  · exact untouched_success (by decide)
  · exact untouched_same

/-- SysCvarWait gives the lock back only when it blocks. -/
theorem sysCvarWait_untouched (cvarId lockId : ℤ) :
    Untouched s u (sysCvarWait M env caller cvarId lockId u s) := by
  unfold sysCvarWait
  split
  · split
    · exact untouched_same
    · trivial
  · exact untouched_same

/-- SysReclaim of an object in use changes nothing. -/
theorem sysReclaim_untouched (id : ℤ) : Untouched s u (sysReclaim id u s) := by
  unfold sysReclaim
  split
  · exact untouched_same
  · exact untouched_success (by decide)

/-- SysBrk of a process with the layout, or of idle. -/
theorem sysBrk_untouched (h0 : s.currentProcess≠0)
    (h : (s.space s.currentProcess).userHeapStart=0 ∨ (LayoutOk M (s.space s.currentProcess) ∧
      ZeroUnmapped M (s.space s.currentProcess).region1Pt)) (addr : ℕ) :
    Untouched s u (sysBrk M addr u s) := by
  have hexact : ∃ t rc,sysBrk M addr u s=.returns t u rc ∧ BrkExact M s addr t rc := by
    rcases h with h|⟨h,hz⟩
    · exact sysBrk_idle h0 h addr u
    · exact sysBrk_layout h0 h hz addr u
  obtain ⟨t,rc,he,hx⟩ := hexact
  rw [he]
  intro hrc
  have hne : rc≠SUCCESS := by
    rw [hrc]
    decide
  exact ⟨rfl,s.log,(hx.failed hne).2⟩

/-- Every call but Fork that returns ERROR has changed nothing but the history. -/
theorem callFlow_untouched (hc : Coherent M s) (hp : PidsValid s)
    (hl : Pipes (fun pipe => 0≤pipe.len) s)
    (h : (s.space s.currentProcess).userHeapStart=0 ∨ (LayoutOk M (s.space s.currentProcess) ∧
      ZeroUnmapped M (s.space s.currentProcess).region1Pt)) (hf : M.syscallOf u.code≠.fork) :
    Untouched s u (callFlow M env caller u s) := by
  unfold callFlow
  cases hcall : M.syscallOf u.code with
  | fork => exact absurd hcall hf
  | exec => exact sysExec_untouched _ _
  | exit => trivial
  | wait => exact sysWait_untouched hp hc _
  | getPid =>
    dsimp only
    unfold sysGetPid
    split
    · exact untouched_same
    · exact untouched_same
  | brk => exact sysBrk_untouched (hc.ready.ne_null hc.ready.current_live) h _
  | delay => exact sysDelay_untouched _
  | ttyRead => exact sysTtyRead_untouched _ _ _
  | ttyWrite => exact sysTtyWrite_untouched _ _ _
  | pipeInit => exact sysPipeInit_untouched _
  | pipeRead => exact sysPipeRead_untouched hl _ _ _
  | pipeWrite => exact sysPipeWrite_untouched _ _ _
  | lockInit => exact initCall_untouched
  | acquire => exact lockAcquire_untouched _
  | release => exact sysRelease_untouched _
  | cvarInit => exact initCall_untouched
  | cvarSignal => exact sysCvarSignal_untouched _
  | cvarBroadcast => exact sysCvarBroadcast_untouched _
  | cvarWait => exact sysCvarWait_untouched _ _
  | reclaim => exact sysReclaim_untouched _
  | unsupported => exact untouched_same

end Calls

section Runs

/-- Sane images and sums of pipe writes that are C ints. -/
def Sane (M : Machine) (s : Kernel) (env : Env) (input : Input) : Prop :=
  env.switchOk=true ∧ LoadInfoOk M env ∧ SumsFit M s input

/-- The heap of the running process in every run with sane images. -/
theorem run_heap (h : Run M (fun b => LoadInfoOk M b.initEnv)
      (fun _ env _ => env.switchOk=true ∧ LoadInfoOk M env) s) (hu : s.cpu=.user) :
    (s.space s.currentProcess).userHeapStart=0 ∨ (LayoutOk M (s.space s.currentProcess) ∧
      ZeroUnmapped M (s.space s.currentProcess).region1Pt) := by
  obtain ⟨hset,hsp,hz⟩ := run_invariant (layout_allowed M)
    (P := fun s => ((s.cpu=.user ∨ s.cpu=.kernel) → Spaces M s) ∧ Zeroed M s)
    (fun b p q pfn pfns m₁ m₂ m v u hb hf => ⟨fun _ => booted_spaces hb hf,booted_zeroed hf⟩)
    (fun c s t hc hp hop => ⟨op_spaces (fun env he => he env rfl) hc hp.1 hop,
      op_zeroed hc hp.2 hop⟩) h
  have hok := hsp (.inl hu)
  by_cases hi : s.currentProcess=s.idleProcess
  · refine .inl ?_
    rw [hi]
    exact hok.idle.1
  · exact .inr ⟨hok.layout _ hset.ready.current_live hi (hset.user hu).toRunnable.not_zombie,
      hz _ hset.ready.current_live⟩

/-- The tail of the trap of a call that fails. -/
theorem step_error (env : Env) (hv : u.vector=.kernel)
    (h : stepFlow M env s (.trap u)=.returns t w ERROR) :
    kernelStep M env s (.trap u)=trapKernelReturn s.currentProcess (w.setResult ERROR) t := by
  by_cases hx : M.syscallOf u.code=.exec
  · dsimp only [stepFlow] at h
    unfold callFlow at h
    rw [hx] at h
    dsimp only at h
    dsimp only [kernelStep,trap]
    rw [hv]
    dsimp only [trapKernel]
    unfold syscallDispatch
    rw [hx]
    dsimp only
    rw [h]
    dsimp only [finishExec]
    rw [if_neg (by decide)]
  · rw [trap_step env hv hx,h]
    rfl

/-- In every run with sane images and no overflow of a pipe, a call other than
Fork that returns ERROR at once has changed the registers of its caller, the
history and nothing else. -/
theorem failed_call (hB : M.pipeBufferLen<2^31)
    (h : Run M (fun b => LoadInfoOk M b.initEnv) (Sane M) s) (hu : s.cpu=.user)
    (hv : u.vector=.kernel) (hf : M.syscallOf u.code≠.fork)
    (hr : returnValue M env s (.trap u)=some ERROR) :
    ∃ log,kernelStep M env s (.trap u)={s with
      userContext := Function.update s.userContext s.currentProcess (u.setResult ERROR)
      uctxt := u.setResult ERROR
      log := log} := by
  have hreach : Reachable M s := h.mono (fun _ _ => trivial) (fun _ _ _ hok => hok.1)
  have hset := reachable_settled hreach
  have h0 := hset.ready.ne_null hset.ready.current_live
  have hlen : Pipes (fun pipe => 0≤pipe.len) s := fun i pipe ho => (run_inBounds hB
    (h.mono (fun _ _ => trivial) (fun _ _ _ hok => ⟨hok.1,hok.2.2⟩)) ho).1
  have hheap := run_heap (h.mono (fun _ hb => hb) (fun _ _ _ hok => ⟨hok.1,hok.2.1⟩)) hu
  have hpids : PidsValid s := reachable_pidsValid hreach
  have huntouched := @callFlow_untouched M env (s.setUserContext s.currentProcess u) u
    s.currentProcess {hset.toCoherent with} hpids hlen hheap hf
  unfold returnValue at hr
  have hflow : stepFlow M env s (.trap u)=callFlow M env s.currentProcess u
      (s.setUserContext s.currentProcess u) := by
    dsimp only [stepFlow]
    rw [saveContext_current u h0]
  cases hcall : callFlow M env s.currentProcess u (s.setUserContext s.currentProcess u) with
  | leaves t =>
    rw [hflow,hcall] at hr
    cases hr
  | returns t w rc =>
    rw [hflow,hcall] at hr
    injection hr with hr
    rw [hcall] at huntouched
    obtain ⟨rfl,log,rfl⟩ := huntouched hr
    rw [step_error env hv (by rw [hflow,hcall,hr])]
    refine ⟨log,Eq.trans (UserContexts.trapKernelReturn_own h0 ?_ _) ?_⟩
    · rfl
    · dsimp only [returnToUser,Kernel.setUserContext]
      rw [Function.update_idem,←hu]

/-- A test of these conditions. -/
def saneTest (M : Machine) (s : Kernel) (env : Env) (input : Input) : Bool :=
  imageTest M s env input && sumTest s env input

/-- A step that passes the test is sane. -/
theorem saneTest_sound (s : Kernel) (env : Env) (input : Input)
    (h : saneTest M s env input=true) : Sane M s env input := by
  obtain ⟨himage,hsum⟩ := (Bool.and_eq_true _ _).mp h
  obtain ⟨hs,hl⟩ := imageTest_sound s env input himage
  exact ⟨hs,hl,(sumTest_sound s env input hsum).2⟩

/-- The initial process owns a lock, and cannot release one that does not exist. -/
theorem failed_call_release : ∃ s log,s.cpu=.user ∧
    kernelStep sampleMachine (sampleEnv 0 0) s (callInput 15 7 0 0).2={s with
      userContext := Function.update s.userContext s.currentProcess
        ((sampleContext .kernel 15 7 0 0).setResult ERROR)
      uctxt := (sampleContext .kernel 15 7 0 0).setResult ERROR
      log := log} := by
  have hb : LoadInfoOk sampleMachine sampleBoot.initEnv :=
    (imageTest_sound (kernelStart sampleMachine sampleBoot) _ .resume (by decide)).2
  obtain ⟨s,hr,hq⟩ := replay_exists (fun b => LoadInfoOk sampleMachine b.initEnv)
    (saneTest_sound (M := sampleMachine)) hb sampleBoot_user
    [callInput 13 0x105000 0 0,callInput 14 0 0 0]
    (fun s => s.cpu=.user ∧ returnValue sampleMachine (sampleEnv 0 0) s (callInput 15 7 0 0).2=
      some ERROR) (by decide +kernel)
  simp only [decide_eq_true_eq] at hq
  obtain ⟨log,he⟩ := failed_call (by decide) hr hq.1 (u := sampleContext .kernel 15 7 0 0) rfl
    (by decide) hq.2
  exact ⟨s,log,hq.1,he⟩

end Runs

end Yalnix.FailedCalls
