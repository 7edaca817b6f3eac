import Yalnix.Housekeeping
import Yalnix.UserContexts

/-!
# Pointers of system calls

A call that takes a pointer names buffers of its caller by address and length.
The history records every load and store that the kernel makes through such a
pointer. None of them leaves the named buffers, also in calls that have been
blocked and go on in a later step, and the page table of the caller is then
still the one of its trap. Apart from null pointers and negative lengths the
kernel checks nothing: where the buffers lie is up to the caller.
-/

namespace Yalnix.UserPointers

open Framework FrameTable KernelState Scheduling Ipc Terminals ProcessLifetime ProgramLoading
open Syscalls Traps KernelStart Coherence Operations OperationCoherence StepOperations
open CallOperations RunInvariants Traces KernelEntries ProcessIsolation UserContexts Housekeeping

variable {M : Machine} {env : Env} {s t w : Kernel} {p q : PcbPtr} {k : KernelContext}
  {x u : UserContext} {e : Entry} {l L S : List (ℕ × ℕ)} {i : ℕ}

section Accesses

/-- Events that record an access through a user pointer. -/
def Access : Event → Prop
  | .stored _ _ _ => True
  | .loaded _ _ _ => True
  | _ => False

/-- The kernel went from s to t without an access through a user pointer, and
kept address spaces and the arguments of terminal reads. -/
structure NoAccess (s t : Kernel) : Prop where
  /-- The address spaces are the same. -/
  space : t.space=s.space
  /-- The destinations of the reads are the same. -/
  buf : ∀ q,(t.tty q).readBuf=(s.tty q).readBuf
  /-- The lengths of the reads are the same. -/
  len : ∀ q,(t.tty q).readLen=(s.tty q).readLen
  /-- No access through a user pointer is recorded. -/
  log : ∃ l,t.log=s.log++l ∧ ∀ e∈l,¬Access e

/-- Where nothing happens there is no access. -/
theorem NoAccess.refl (s : Kernel) : NoAccess s s :=
  ⟨rfl,fun _ => rfl,fun _ => rfl,[],(List.append_nil _).symm,fun _ h => absurd h List.not_mem_nil⟩

/-- Two changes without access make one without access. -/
theorem NoAccess.trans (h : NoAccess s t) (h' : NoAccess t w) : NoAccess s w := by
  obtain ⟨l,hl,hq⟩ := h.log
  obtain ⟨l',hl',hq'⟩ := h'.log
  refine ⟨h'.space.trans h.space,fun q => (h'.buf q).trans (h.buf q),
    fun q => (h'.len q).trans (h.len q),l++l',?_,fun e he => ?_⟩
  · rw [hl',hl,List.append_assoc]
  · exact (List.mem_append.1 he).elim (hq e) (hq' e)

/-- A change that records nothing. -/
theorem noAccess_silent (hs : t.space=s.space) (ht : t.tty=s.tty) (hl : t.log=s.log) :
    NoAccess s t :=
  ⟨hs,fun q => by rw [ht],fun q => by rw [ht],[],by rw [hl,List.append_nil],
    fun _ h => absurd h List.not_mem_nil⟩

/-- A change with events that are no accesses. -/
theorem noAccess_events {l : List Event} (hs : t.space=s.space) (ht : t.tty=s.tty)
    (hl : t.log=s.log++l) (h : ∀ e∈l,¬Access e) : NoAccess s t :=
  ⟨hs,fun q => by rw [ht],fun q => by rw [ht],l,hl,h⟩

/-- A change with one event. -/
theorem noAccess_event {a : Event} (hs : t.space=s.space) (ht : t.tty=s.tty)
    (hl : t.log=s.log++[a]) (h : ¬Access a) : NoAccess s t :=
  noAccess_events hs ht hl (fun e he => by rw [List.mem_singleton.1 he]; exact h)

/-- Routine events are no accesses. -/
theorem routine_noAccess {e : Event} (h : Routine e) : ¬Access e := by
  cases e with
  | stored q a n => exact h.elim
  | loaded q a n => exact h.elim
  | _ => exact id

/-- What queues, terminals and the scheduler do is no access. -/
theorem keeping_noAccess (h : Keeping s t) : NoAccess s t := by
  obtain ⟨l,hl,hq⟩ := h.log
  exact ⟨h.space,h.buf,h.len,l,hl,fun e he => routine_noAccess (hq e he)⟩

/-- ProcessDestroy makes no access through a user pointer. -/
theorem processDestroy_noAccess (c : PcbPtr) (s : Kernel) : NoAccess s (processDestroy M c s) := by
  unfold processDestroy
  split
  · exact .refl s
  · exact (keeping_noAccess (leaveLinks_keeping c s)).trans (noAccess_silent rfl rfl rfl)

/-- The current process becomes a zombie. -/
theorem becomeZombie_noAccess (status : ℤ) (k : KernelContext) (s : Kernel) :
    NoAccess s (becomeZombie status k s) := by
  unfold becomeZombie
  split
  · refine NoAccess.trans ?_ (keeping_noAccess (makeReady_keeping _ _))
    refine noAccess_events rfl rfl rfl (fun e he => ?_)
    rcases List.mem_pair.1 he with rfl|rfl
    · exact id
    · exact id
  · exact noAccess_event rfl rfl rfl id

/-- ProcessExitCurrent makes no access through a user pointer. -/
theorem exitCurrent_noAccess (status : ℤ) (s : Kernel) :
    NoAccess s (processExitCurrent M env status s) := by
  unfold processExitCurrent
  split
  · exact noAccess_silent rfl rfl rfl
  · split
    · exact noAccess_silent rfl rfl rfl
    · have horphan := orphanChildren_keeping s.currentProcess (s.children s.currentProcess) s
      have hlocks := horphan.trans (ipcProcessExit_keeping s.currentProcess _)
      have hzombie := (keeping_noAccess hlocks).trans (becomeZombie_noAccess status
        ⟨s.currentProcess,.exited⟩ _)
      exact hzombie.trans (keeping_noAccess (leaveZombie_keeping _))

/-- The return to user mode makes no access. -/
theorem returnToUser_noAccess (u : UserContext) (s : Kernel) : NoAccess s (returnToUser u s) :=
  noAccess_silent rfl rfl rfl

/-- Returning from a call makes no access. -/
theorem trapKernelReturn_noAccess (caller : PcbPtr) (u : UserContext) (s : Kernel) :
    NoAccess s (trapKernelReturn caller u s) := by
  unfold trapKernelReturn
  split
  · exact noAccess_silent rfl rfl rfl
  · split
    · exact noAccess_silent rfl rfl rfl
    · exact noAccess_silent rfl rfl rfl

end Accesses

section Named

/-- The buffers that a call names for stores. -/
def callStores (u : UserContext) : Syscall → List (ℕ × ℕ)
  | .wait => if u.ptr 0=0 then [] else [(u.ptr 0,4)]
  | .ttyRead => [(u.ptr 1,(u.int 2).toNat)]
  | .pipeInit => [(u.ptr 0,4)]
  | .pipeRead => [(u.ptr 1,(u.int 2).toNat)]
  | .lockInit => [(u.ptr 0,4)]
  | .cvarInit => [(u.ptr 0,4)]
  | _ => []

/-- The buffers that a call names for loads. Exec names strings by their
terminators and an array of at most 64 pointers by its null pointer. -/
def callLoads (env : Env) (u : UserContext) : Syscall → List (ℕ × ℕ)
  | .exec =>
    if u.ptr 0=0 then []
    else (u.ptr 0,(env.cString (u.ptr 0)).length+1)::
      if u.ptr 1=0 then []
      else (u.ptr 1,4*(min (env.ptrArray (u.ptr 1)).length 64+1))::
        (env.ptrArray (u.ptr 1)).map (fun a => (a,(env.cString a).length+1))
  | .ttyWrite => [(u.ptr 1,(u.int 2).toNat)]
  | .pipeWrite => [(u.ptr 1,(u.int 2).toNat)]
  | _ => []

/-- The buffers that a trap names for stores. -/
def namedStores (M : Machine) (u : UserContext) : List (ℕ × ℕ) :=
  if u.vector=.kernel then callStores u (M.syscallOf u.code) else []

/-- The buffers that a trap names for loads. -/
def namedLoads (M : Machine) (env : Env) (u : UserContext) : List (ℕ × ℕ) :=
  if u.vector=.kernel then callLoads env u (M.syscallOf u.code) else []

/-- Accesses are made for the process p and begin at the named buffers, none
of them longer than its buffer. -/
def Named (L S : List (ℕ × ℕ)) (p : PcbPtr) : Event → Prop
  | .stored q a n => q=p ∧ ∃ b∈S,a=b.1 ∧ n≤b.2
  | .loaded q a n => q=p ∧ ∃ b∈L,a=b.1 ∧ n≤b.2
  | _ => True

/-- What is no access needs no name. -/
theorem named_of_not {a : Event} (h : ¬Access a) : Named L S p a := by
  cases a with
  | stored q a n => exact absurd trivial h
  | loaded q a n => exact absurd trivial h
  | _ => trivial

/-- A process keeps its address space and the arguments of its read. -/
structure Keeps (q : PcbPtr) (s t : Kernel) : Prop where
  /-- The process keeps its address space. -/
  space : t.space q=s.space q
  /-- The destination of the read. -/
  buf : (t.tty q).readBuf=(s.tty q).readBuf
  /-- The length of the read. -/
  len : (t.tty q).readLen=(s.tty q).readLen

/-- A process kept by two changes is kept by both together. -/
theorem Keeps.trans (h : Keeps q s t) (h' : Keeps q t w) : Keeps q s w :=
  ⟨h'.space.trans h.space,h'.buf.trans h.buf,h'.len.trans h.len⟩

/-- Without accesses all processes are kept. -/
theorem NoAccess.keeps (h : NoAccess s t) (q : PcbPtr) : Keeps q s t :=
  ⟨by rw [h.space],h.buf q,h.len q⟩

/-- The process p makes the kernel access the named buffers. Other processes
are kept, and p itself where own holds. -/
structure Uses (L S : List (ℕ × ℕ)) (own : Prop) (p : PcbPtr) (s t : Kernel) : Prop where
  /-- Only accesses to the named buffers are recorded. -/
  log : ∃ l,t.log=s.log++l ∧ ∀ e∈l,Named L S p e
  /-- The other processes are kept. -/
  others : ∀ q,q≠p → s.live q=true → Keeps q s t
  /-- The process itself is kept where this is claimed. -/
  own : own → Keeps p s t

variable {own : Prop}

/-- A change without access uses no buffer. -/
theorem NoAccess.uses (h : NoAccess s t) : Uses L S own p s t := by
  obtain ⟨l,hl,hq⟩ := h.log
  exact ⟨⟨l,hl,fun e he => named_of_not (hq e he)⟩,fun q _ _ => h.keeps q,fun _ => h.keeps p⟩

/-- A change without accesses behind. -/
theorem Uses.after (h : Uses L S own p s t) (h' : NoAccess t w) : Uses L S own p s w := by
  obtain ⟨l,hl,hq⟩ := h.log
  obtain ⟨l',hl',hq'⟩ := h'.log
  refine ⟨⟨l++l',?_,fun e he => ?_⟩,fun q hqp hq => (h.others q hqp hq).trans (h'.keeps q),
    fun ho => (h.own ho).trans (h'.keeps p)⟩
  · rw [hl',hl,List.append_assoc]
  · exact (List.mem_append.1 he).elim (hq e) (fun he => named_of_not (hq' e he))

/-- A change in front that is neither recorded nor about memory. -/
theorem Uses.before (h : Uses L S own p t w) (hs : t.space=s.space) (ht : t.tty=s.tty)
    (hlog : t.log=s.log) (hl : t.live=s.live) : Uses L S own p s w := by
  have hk : ∀ q,Keeps q s t := fun q => ⟨by rw [hs],by rw [ht],by rw [ht]⟩
  obtain ⟨l,hw,hq⟩ := h.log
  refine ⟨⟨l,by rw [hw,hlog],hq⟩,fun q hqp hlq => (hk q).trans (h.others q hqp ?_),
    fun ho => (hk p).trans (h.own ho)⟩
  rw [hl]
  exact hlq

/-- Events are recorded and all processes are kept. -/
theorem uses_events {l : List Event} (hs : t.space=s.space) (ht : t.tty=s.tty)
    (hl : t.log=s.log++l) (h : ∀ e∈l,Named L S p e) : Uses L S own p s t := by
  have hk : ∀ q,Keeps q s t := fun q => ⟨by rw [hs],by rw [ht],by rw [ht]⟩
  exact ⟨⟨l,hl,h⟩,fun q _ _ => hk q,fun _ => hk p⟩

/-- The address space of the process itself changes. -/
theorem uses_space {v : UserSpace} {l : List Event} (hs : t.space=Function.update s.space p v)
    (ht : t.tty=s.tty) (hl : t.log=s.log++l) (h : ∀ e∈l,Named L S p e) :
    Uses L S False p s t := by
  refine ⟨⟨l,hl,h⟩,fun q hq _ => ⟨?_,by rw [ht],by rw [ht]⟩,False.elim⟩
  rw [hs,Function.update_of_ne hq]

end Named

section Calls

variable {own : Prop}

/-- The state behind a kernel function. -/
def flowKernel : Flow → Kernel
  | .returns s _ _ => s
  | .leaves s => s

/-- Where nothing is done no buffer is used. -/
theorem uses_same (L S : List (ℕ × ℕ)) (own : Prop) (p : PcbPtr) (s : Kernel) :
    Uses L S own p s s := (NoAccess.refl s).uses

/-- The loop of SysWait stores the status where its argument says. -/
theorem waitLoop_uses {caller : PcbPtr} {statusPtr : ℕ} (hp : s.currentProcess=p)
    (hS : statusPtr≠0 → (statusPtr,4)∈S) :
    Uses L S own p s (flowKernel (waitLoop M env caller statusPtr x s)) := by
  unfold waitLoop
  split
  · refine Uses.after (t := {s with
      log := s.log++(if statusPtr=0 then [] else [.stored s.currentProcess statusPtr 4])++
        [.waited (s.birth s.currentProcess) (s.birth _) (s.pid _) (s.exitStatus _)]}) ?_
      (processDestroy_noAccess _ _)
    refine uses_events rfl rfl (List.append_assoc ..) (fun e he => ?_)
    rcases List.mem_append.1 he with he|he
    · split at he
      · cases he
      · rename_i h0
        rw [List.mem_singleton.1 he]
        exact ⟨hp,_,hS h0,rfl,le_refl 4⟩
    · rw [List.mem_singleton.1 he]
      trivial
  · split
    · exact uses_same ..
    · refine NoAccess.uses (NoAccess.trans ?_ (keeping_noAccess (schedule_keeping _)))
      exact noAccess_silent rfl rfl rfl

/-- SysDelay accesses no buffer. -/
theorem sysDelay_uses {caller : PcbPtr} (ticks : ℤ) :
    Uses L S own p s (flowKernel (sysDelay M env caller ticks x s)) := by
  unfold sysDelay
  split
  · exact uses_same ..
  · split
    · exact uses_same ..
    · split
      · exact uses_same ..
      · refine NoAccess.uses (NoAccess.trans ?_ (keeping_noAccess (schedule_keeping _)))
        exact noAccess_silent rfl rfl rfl

/-- SysBrk accesses no buffer and changes the pages of its caller. -/
theorem sysBrk_uses (hp : s.currentProcess=p) (addr : ℕ) :
    Uses L S False p s (flowKernel (sysBrk M addr x s)) := by
  unfold sysBrk
  split
  · exact uses_same ..
  · subst hp
    exact uses_space rfl rfl (List.append_nil _).symm (fun _ h => absurd h List.not_mem_nil)

/-- A read gets no more than it asks for. -/
theorem lineCount_le (line : TtyLine) (len : ℕ) : lineCount line len≤len := by
  unfold lineCount
  split
  · exact le_refl _
  · omega

/-- Bytes of a line are stored. -/
theorem takeBytes_uses (hp : s.currentProcess=p) (i : ℕ) (line : TtyLine) (tty : TtyState)
    (hS : ((s.tty p).readBuf,(s.tty p).readLen)∈S) :
    Uses L S own p s (ttyTakeBytes i line tty s) := by
  subst hp
  have hk : ∀ q,Keeps q s (ttyTakeBytes i line tty s) := by
    intro q
    dsimp only [ttyTakeBytes]
    by_cases hq : q=s.currentProcess
    · rw [hq]
      refine ⟨rfl,?_,?_⟩
      · dsimp only
        rw [Function.update_self]
      · dsimp only
        rw [Function.update_self]
    · refine ⟨rfl,?_,?_⟩
      · dsimp only
        rw [Function.update_of_ne hq]
      · dsimp only
        rw [Function.update_of_ne hq]
  refine ⟨⟨_,rfl,fun e he => ?_⟩,fun q _ _ => hk q,fun _ => hk _⟩
  rcases List.mem_pair.1 he with rfl|rfl
  · exact ⟨rfl,_,hS,rfl,lineCount_le _ _⟩
  · trivial

/-- The loop of SysTtyRead stores into the buffer of the request. -/
theorem ttyReadLoop_uses {caller : PcbPtr} {i : ℕ} (hp : s.currentProcess=p)
    (hS : ((s.tty p).readBuf,(s.tty p).readLen)∈S) :
    Uses L S own p s (flowKernel (ttyReadLoop M env caller i x s)) := by
  unfold ttyReadLoop
  split
  · exact takeBytes_uses hp _ _ _ hS
  · split
    · exact takeBytes_uses hp _ _ _ hS
    · refine NoAccess.uses (NoAccess.trans ?_ (keeping_noAccess (schedule_keeping _)))
      exact noAccess_silent rfl rfl rfl

/-- SysTtyRead notes its arguments and keeps them when it stops. -/
theorem sysTtyRead_uses {caller : PcbPtr} (hp : s.currentProcess=p) (id : ℤ) (buf : ℕ) (len : ℤ)
    (hS : (buf,len.toNat)∈S) :
    Uses L S False p s (flowKernel (sysTtyRead M env caller id buf len x s)) ∧
      ∀ t,sysTtyRead M env caller id buf len x s=.leaves t →
        t.space p=s.space p ∧ (t.tty p).readBuf=buf ∧ (t.tty p).readLen=len.toNat := by
  unfold sysTtyRead
  split
  · exact ⟨uses_same ..,fun _ h => nomatch h⟩
  · split
    · exact ⟨uses_same ..,fun _ h => nomatch h⟩
    · split
      · exact ⟨uses_same ..,fun _ h => nomatch h⟩
      · subst hp
        have hself : (Function.update s.tty s.currentProcess {s.tty s.currentProcess with
            ttyId := id.toNat, readBuf := buf, readLen := len.toNat}) s.currentProcess=
              {s.tty s.currentProcess with
                ttyId := id.toNat, readBuf := buf, readLen := len.toNat} := Function.update_self ..
        generalize hf : ttyReadLoop M env caller id.toNat x (s.setTty s.currentProcess
          {s.tty s.currentProcess with
            ttyId := id.toNat, readBuf := buf, readLen := len.toNat})=f
        have hloop : Uses L S True s.currentProcess (s.setTty s.currentProcess
            {s.tty s.currentProcess with
              ttyId := id.toNat, readBuf := buf, readLen := len.toNat}) (flowKernel f) := by
          rw [←hf]
          refine ttyReadLoop_uses rfl ?_
          dsimp only [Kernel.setTty]
          rw [hself]
          exact hS
        refine ⟨⟨hloop.log,fun q hqp hlq => ?_,False.elim⟩,fun t ht => ?_⟩
        · obtain ⟨hs,hb,hn⟩ := hloop.others q hqp hlq
          dsimp only [Kernel.setTty] at hs hb hn
          rw [Function.update_of_ne hqp] at hb hn
          exact ⟨hs,hb,hn⟩
        · subst ht
          obtain ⟨hs,hb,hn⟩ := hloop.own trivial
          dsimp only [Kernel.setTty] at hs hb hn
          rw [hself] at hb hn
          exact ⟨hs,hb,hn⟩

/-- SysTtyWrite reads the bytes that its arguments name. -/
theorem sysTtyWrite_uses {caller : PcbPtr} (hp : s.currentProcess=p) (id : ℤ) (buf : ℕ) (len : ℤ)
    (hL : (buf,len.toNat)∈L) :
    Uses L S own p s (flowKernel (sysTtyWrite M env caller id buf len x s)) := by
  have hprep : ∀ k,Uses L S own p s (prepareWrite env k id.toNat buf len x s) := by
    intro k
    subst hp
    have hk : ∀ q,Keeps q s (prepareWrite env k id.toNat buf len x s) := by
      intro q
      dsimp only [prepareWrite]
      by_cases hq : q=s.currentProcess
      · rw [hq]
        refine ⟨rfl,?_,?_⟩
        · dsimp only
          rw [Function.update_self]
        · dsimp only
          rw [Function.update_self]
      · refine ⟨rfl,?_,?_⟩
        · dsimp only
          rw [Function.update_of_ne hq]
        · dsimp only
          rw [Function.update_of_ne hq]
    refine ⟨⟨_,rfl,fun e he => ?_⟩,fun q _ _ => hk q,fun _ => hk _⟩
    rcases List.mem_pair.1 he with rfl|rfl
    · exact ⟨rfl,_,hL,rfl,le_refl _⟩
    · trivial
  unfold sysTtyWrite
  split
  · exact uses_same ..
  · split
    · exact uses_same ..
    · split
      · exact uses_same ..
      · split
        · exact uses_same ..
        · split
          · refine Uses.after (hprep ⟨caller,.ttyWrite id.toNat len⟩)
              (NoAccess.trans ?_ (keeping_noAccess (schedule_keeping _)))
            refine NoAccess.trans ?_ (keeping_noAccess (startWriteFrom_keeping _ _ _))
            exact noAccess_silent rfl rfl rfl
          · refine Uses.after (hprep ⟨caller,.ttyWrite id.toNat len⟩)
              (NoAccess.trans ?_ (keeping_noAccess (schedule_keeping _)))
            exact noAccess_silent rfl rfl rfl

/-- An initialising call stores the number of its object. -/
theorem opened_uses {a : ℕ} (hS : (a,4)∈S) (hs : t.space=s.space) (ht : t.tty=s.tty)
    (hl : t.log=s.log++[.stored p a 4]) : Uses L S own p s t :=
  uses_events hs ht hl (fun e he => by
    rw [List.mem_singleton.1 he]
    exact ⟨rfl,_,hS,rfl,le_refl 4⟩)

/-- SysPipeInit stores the new number where its argument says. -/
theorem sysPipeInit_uses (hp : s.currentProcess=p) (a : ℕ) (hS : (a,4)∈S) :
    Uses L S own p s (flowKernel (sysPipeInit M env a x s)) := by
  subst hp
  unfold sysPipeInit
  split
  · exact uses_same ..
  · split
    · exact uses_same ..
    · split
      · exact opened_uses hS rfl rfl rfl
      · exact uses_same ..

/-- SysLockInit stores the new number where its argument says. -/
theorem sysLockInit_uses (hp : s.currentProcess=p) (a : ℕ) (hS : (a,4)∈S) :
    Uses L S own p s (flowKernel (sysLockInit a x s)) := by
  subst hp
  unfold sysLockInit
  split
  · exact uses_same ..
  · split
    · exact uses_same ..
    · exact opened_uses hS rfl rfl rfl

/-- SysCvarInit stores the new number where its argument says. -/
theorem sysCvarInit_uses (hp : s.currentProcess=p) (a : ℕ) (hS : (a,4)∈S) :
    Uses L S own p s (flowKernel (sysCvarInit a x s)) := by
  subst hp
  unfold sysCvarInit
  split
  · exact uses_same ..
  · split
    · exact uses_same ..
    · exact opened_uses hS rfl rfl rfl

/-- A call that blocks on a queue. -/
theorem blockOnQueue_uses (a : QueueAddr) (k : KernelContext) :
    Uses L S own p s (blockOnQueue M env a k x s) := by
  refine NoAccess.uses (NoAccess.trans ?_ (keeping_noAccess (schedule_keeping _)))
  exact noAccess_silent rfl rfl rfl

/-- A pipe read gets no more than it asks for. -/
theorem readCount_le (pipe : PipeState) (len : ℤ) : (readCount pipe len).toNat≤len.toNat := by
  unfold readCount
  split
  · exact le_refl _
  · omega

/-- The loop of SysPipeRead stores into the named buffer. -/
theorem pipeReadLoop_uses {caller : PcbPtr} (hp : s.currentProcess=p) (id : ℤ) (buf : ℕ) (len : ℤ)
    (hS : (buf,len.toNat)∈S) :
    Uses L S own p s (flowKernel (pipeReadLoop M env caller id buf len x s)) := by
  unfold pipeReadLoop
  split
  · split
    · exact blockOnQueue_uses _ _
    · refine uses_events rfl rfl rfl (fun e he => ?_)
      rcases List.mem_pair.1 he with rfl|rfl
      · exact ⟨hp,_,hS,rfl,readCount_le _ _⟩
      · trivial
  · exact uses_same ..

/-- SysPipeRead stores into the buffer that its arguments name. -/
theorem sysPipeRead_uses {caller : PcbPtr} (hp : s.currentProcess=p) (id : ℤ) (buf : ℕ) (len : ℤ)
    (hS : (buf,len.toNat)∈S) :
    Uses L S own p s (flowKernel (sysPipeRead M env caller id buf len x s)) := by
  unfold sysPipeRead
  split
  · exact uses_same ..
  · split
    · exact uses_same ..
    · split
      · exact uses_same ..
      · exact pipeReadLoop_uses hp id buf len hS

/-- SysPipeWrite reads from the buffer that its arguments name. -/
theorem sysPipeWrite_uses (hp : s.currentProcess=p) (id : ℤ) (buf : ℕ) (len : ℤ)
    (hL : (buf,len.toNat)∈L) :
    Uses L S own p s (flowKernel (sysPipeWrite env id buf len x s)) := by
  unfold sysPipeWrite
  split
  · exact uses_same ..
  · split
    · exact uses_same ..
    · split
      · split
        · exact uses_same ..
        · refine NoAccess.uses ?_
          exact noAccess_silent rfl rfl rfl
        · refine Uses.after (t := wakeAll (.readers id.toNat) {s with
            objects := _
            log := s.log++[.loaded s.currentProcess buf len.toNat]}) ?_
            (noAccess_event rfl rfl rfl (fun h => h))
          refine Uses.after ?_ (keeping_noAccess (wakeAll_keeping _ _))
          refine uses_events rfl rfl rfl (fun e he => ?_)
          rw [List.mem_singleton.1 he]
          exact ⟨hp,_,hL,rfl,le_refl _⟩
      · exact uses_same ..

/-- The loop of LockAcquire accesses no buffer. -/
theorem lockAcquireLoop_uses {caller : PcbPtr} (id : ℤ) (l : LockState) :
    Uses L S own p s (flowKernel (lockAcquireLoop M env caller id l x s)) := by
  unfold lockAcquireLoop
  split
  · refine NoAccess.uses (NoAccess.trans ?_ (keeping_noAccess (schedule_keeping _)))
    exact noAccess_event rfl rfl rfl (fun h => h)
  · refine NoAccess.uses ?_
    exact noAccess_event rfl rfl rfl (fun h => h)

/-- LockAcquire accesses no buffer. -/
theorem lockAcquire_uses {caller : PcbPtr} (id : ℤ) :
    Uses L S own p s (flowKernel (lockAcquire M env caller id x s)) := by
  unfold lockAcquire
  split
  · split
    · exact uses_same ..
    · split
      · exact uses_same ..
      · exact lockAcquireLoop_uses id _
  · exact uses_same ..

/-- LockAcquire that goes on behind BlockOnQueue accesses no buffer. -/
theorem lockAcquireResume_uses {caller : PcbPtr} (id : ℤ) :
    Uses L S own p s (flowKernel (lockAcquireResume M env caller id x s)) := by
  unfold lockAcquireResume
  split
  · split
    · refine NoAccess.uses ?_
      exact noAccess_event rfl rfl rfl (fun h => h)
    · exact lockAcquireLoop_uses id _
  · exact uses_same ..

/-- SysRelease accesses no buffer. -/
theorem sysRelease_uses (id : ℤ) : Uses L S own p s (flowKernel (sysRelease id x s)) := by
  unfold sysRelease
  split
  · split
    · exact uses_same ..
    · exact (keeping_noAccess (lockRelease_keeping _ _ _)).uses
  · exact uses_same ..

/-- SysCvarSignal accesses no buffer. -/
theorem sysCvarSignal_uses (id : ℤ) : Uses L S own p s (flowKernel (sysCvarSignal id x s)) := by
  unfold sysCvarSignal
  split
  · exact (keeping_noAccess (wakeOne_keeping _ _)).uses
  · exact uses_same ..

/-- SysCvarBroadcast accesses no buffer. -/
theorem sysCvarBroadcast_uses (id : ℤ) :
    Uses L S own p s (flowKernel (sysCvarBroadcast id x s)) := by
  unfold sysCvarBroadcast
  split
  · exact (keeping_noAccess (wakeAll_keeping _ _)).uses
  · exact uses_same ..

/-- SysCvarWait accesses no buffer. -/
theorem sysCvarWait_uses {caller : PcbPtr} (id lockId : ℤ) :
    Uses L S own p s (flowKernel (sysCvarWait M env caller id lockId x s)) := by
  unfold sysCvarWait
  split
  · split
    · exact uses_same ..
    · rename_i c l _ _ _
      have hrelease := keeping_noAccess (lockRelease_keeping lockId.toNat l s)
      have hblock : NoAccess (lockRelease lockId.toNat l s) (blockOnCvar id.toNat
          ⟨caller,.cvarWait id lockId c.opened l.opened⟩ x (lockRelease lockId.toNat l s)) :=
        noAccess_event rfl rfl rfl (fun h => h)
      exact ((hrelease.trans hblock).trans (keeping_noAccess (schedule_keeping _))).uses
  · exact uses_same ..

/-- SysCvarWait that goes on behind BlockOnQueue accesses no buffer. -/
theorem cvarWaitResume_uses {caller : PcbPtr} (id lockId : ℤ) :
    Uses L S own p s (flowKernel (cvarWaitResume M env caller id lockId x s)) := by
  unfold cvarWaitResume
  split
  · exact lockAcquire_uses lockId
  · exact uses_same ..

/-- SysReclaim accesses no buffer. -/
theorem sysReclaim_uses (id : ℤ) : Uses L S own p s (flowKernel (sysReclaim id x s)) := by
  unfold sysReclaim
  split
  · exact uses_same ..
  · refine NoAccess.uses ?_
    exact noAccess_silent rfl rfl rfl

/-- Exec loads from buffers that it names. -/
theorem execLoads_named {a : ℕ × ℕ} (h : a∈execLoads env (u.ptr 0) (u.ptr 1)) :
    ∃ b∈callLoads env u .exec,a.1=b.1 ∧ a.2≤b.2 := by
  unfold execLoads at h
  unfold callLoads
  split at h
  · cases h
  · rename_i h0
    rw [if_neg h0]
    split at h
    · rw [List.mem_singleton.1 h]
      exact ⟨_,List.mem_cons_self,rfl,le_refl _⟩
    · rename_i h1
      have hv : u.ptr 1≠0 := fun he => h1 (.inr he)
      rw [if_neg hv]
      split at h
      · rcases List.mem_pair.1 h with rfl|rfl
        · exact ⟨_,List.mem_cons_self,rfl,le_refl _⟩
        · exact ⟨_,List.mem_cons_of_mem _ List.mem_cons_self,rfl,le_refl _⟩
      · rename_i h2
        have hn : min (env.ptrArray (u.ptr 1)).length 64=(env.ptrArray (u.ptr 1)).length :=
          Nat.min_eq_left (by omega)
        rcases List.mem_append.1 h with h|h
        · rcases List.mem_pair.1 h with rfl|rfl
          · exact ⟨_,List.mem_cons_self,rfl,le_refl _⟩
          · refine ⟨_,List.mem_cons_of_mem _ List.mem_cons_self,rfl,?_⟩
            rw [hn]
        · obtain ⟨b,hb,rfl⟩ := List.mem_map.1 h
          exact ⟨_,List.mem_cons_of_mem _ (List.mem_cons_of_mem _
            (List.mem_map.2 ⟨b,List.mem_of_mem_take hb,rfl⟩)),rfl,le_refl _⟩

/-- Exec behind its check of the caller. -/
theorem execImage_uses (hp : s.currentProcess=p) (filename argvec : ℕ) :
    Uses L S False p s (flowKernel (execImage M env filename argvec x s)) := by
  subst hp
  unfold execImage
  split
  · refine NoAccess.uses ?_
    exact noAccess_event rfl rfl rfl (fun h => h)
  · split
    · refine NoAccess.uses ?_
      exact noAccess_event rfl rfl rfl (fun h => h)
    · refine Uses.after ?_ (exitCurrent_noAccess _ _)
      exact uses_space rfl rfl rfl (fun e he => by rw [List.mem_singleton.1 he]; trivial)
    · exact uses_space rfl rfl rfl (fun e he => by rw [List.mem_singleton.1 he]; trivial)
    · exact uses_space rfl rfl rfl (fun e he => by rw [List.mem_singleton.1 he]; trivial)

/-- SysExec reads its strings and gives its caller another image. -/
theorem sysExec_uses (hp : s.currentProcess=p) :
    Uses (callLoads env u .exec) S False p s
      (flowKernel (sysExec M env (u.ptr 0) (u.ptr 1) x s)) := by
  unfold sysExec
  split
  · exact uses_same ..
  · have himage : Uses (callLoads env u .exec) S False p
        (noteLoads (execLoads env (u.ptr 0) (u.ptr 1)) s) (flowKernel (execImage M env (u.ptr 0)
          (u.ptr 1) x (noteLoads (execLoads env (u.ptr 0) (u.ptr 1)) s))) :=
      execImage_uses (by exact hp) _ _
    obtain ⟨l,hl,hq⟩ := himage.log
    refine ⟨⟨(execLoads env (u.ptr 0) (u.ptr 1)).map
      (fun a => .loaded s.currentProcess a.1 a.2)++l,?_,fun e he => ?_⟩,fun q hqp hlq => ?_,
      False.elim⟩
    · rw [hl]
      exact List.append_assoc ..
    · rcases List.mem_append.1 he with he|he
      · obtain ⟨a,ha,rfl⟩ := List.mem_map.1 he
        exact ⟨hp,execLoads_named ha⟩
      · exact hq e he
    · obtain ⟨hs,hb,hn⟩ := himage.others q hqp hlq
      exact ⟨hs,hb,hn⟩

/-- A child that did not exist before is entered. -/
theorem entered_uses {c : PcbPtr} {pid : ℤ} {pfns : ℕ → ℕ} {pt : PageTable} {m : Memory}
    {parent : PcbPtr} (hl : s.live p=true) (hc : s.live c=false) :
    Uses L S own p s (enterChild M parent c pid pfns pt m s) := by
  have hk : ∀ q,s.live q=true → Keeps q s (enterChild M parent c pid pfns pt m s) := by
    intro q hq
    have hqc : q≠c := by
      rintro rfl
      rw [hc] at hq
      cases hq
    dsimp only [enterChild]
    refine ⟨Function.update_of_ne hqc ..,?_,?_⟩
    · dsimp only
      rw [Function.update_of_ne hqc]
    · dsimp only
      rw [Function.update_of_ne hqc]
  exact ⟨⟨[],(List.append_nil _).symm,fun _ h => absurd h List.not_mem_nil⟩,fun q _ hq => hk q hq,
    fun _ => hk p hl⟩

/-- SysFork changes the space of the new child only. -/
theorem sysFork_uses {caller : PcbPtr} (hl : s.live p=true) :
    Uses L S own p s (flowKernel (sysFork M env caller x s)) := by
  unfold sysFork
  split
  · exact uses_same ..
  · split
    · refine NoAccess.uses ?_
      exact noAccess_silent rfl rfl rfl
    · rcases processCreateChild_cases M env s s.currentProcess with
        ⟨m,he⟩|⟨c,pfns,pt,m₁,m,hc,hk,hn,hp,he⟩
      · rw [he]
        refine NoAccess.uses ?_
        exact noAccess_silent rfl rfl rfl
      · have hchild : Uses L S own p s
            (enterChild M s.currentProcess c env.newPid pfns pt m s) :=
          entered_uses hl (callocPcb_fresh hc).2
        rw [he]
        dsimp only
        split
        · unfold sysForkReturn
          have hcopy : ∀ v a b pid,NoAccess (enterChild M s.currentProcess c env.newPid pfns pt m s)
              (((kcCopy M c ⟨caller,.fork c⟩
                ((enterChild M s.currentProcess c env.newPid pfns pt m s).setUserContext c
                  v)).emit (.forked a b pid))) :=
            fun _ _ _ _ => noAccess_event rfl rfl rfl (fun h => h)
          split
          · exact hchild.after (hcopy _ _ _ _)
          · exact (hchild.after (hcopy _ _ _ _)).after (keeping_noAccess (makeReady_keeping _ _))
        · refine (hchild.after ?_).after (processDestroy_noAccess _ _)
          exact noAccess_silent rfl rfl rfl

end Calls

section Steps

/-- Calls that may change the address space of their caller or the arguments
of its read. -/
def Changes : Syscall → Prop
  | .exec => True
  | .brk => True
  | .ttyRead => True
  | _ => False

/-- The function of every call. -/
theorem callFlow_uses (hp : s.currentProcess=p) (hl : s.live p=true) :
    Uses (callLoads env u (M.syscallOf u.code)) (callStores u (M.syscallOf u.code))
      (¬Changes (M.syscallOf u.code)) p s (flowKernel (callFlow M env p u s)) := by
  unfold callFlow
  cases hc : M.syscallOf u.code with
  | fork => exact sysFork_uses hl
  | exec =>
    obtain ⟨hlog,ho,_⟩ := sysExec_uses (M := M) (u := u) (x := u)
      (S := callStores u .exec) hp
    exact ⟨hlog,ho,fun h => absurd trivial h⟩
  | exit => exact (exitCurrent_noAccess _ _).uses
  | wait =>
    dsimp only
    unfold sysWait
    split
    · exact uses_same ..
    · refine waitLoop_uses hp (fun h0 => ?_)
      dsimp only [callStores]
      rw [if_neg h0]
      exact List.mem_cons_self
  | getPid =>
    dsimp only
    unfold sysGetPid
    split
    · exact uses_same ..
    · exact uses_same ..
  | brk =>
    obtain ⟨hlog,ho,_⟩ := sysBrk_uses (M := M) (x := u) (L := callLoads env u .brk)
      (S := callStores u .brk) hp (u.ptr 0)
    exact ⟨hlog,ho,fun h => absurd trivial h⟩
  | delay => exact sysDelay_uses _
  | ttyRead =>
    obtain ⟨⟨hlog,ho,_⟩,_⟩ := sysTtyRead_uses (M := M) (x := u)
      (L := callLoads env u .ttyRead) (S := callStores u .ttyRead) hp (u.int 0) (u.ptr 1)
      (u.int 2) List.mem_cons_self
    exact ⟨hlog,ho,fun h => absurd trivial h⟩
  | ttyWrite => exact sysTtyWrite_uses hp _ _ _ List.mem_cons_self
  | pipeInit => exact sysPipeInit_uses hp _ List.mem_cons_self
  | pipeRead => exact sysPipeRead_uses hp _ _ _ List.mem_cons_self
  | pipeWrite => exact sysPipeWrite_uses hp _ _ _ List.mem_cons_self
  | lockInit => exact sysLockInit_uses hp _ List.mem_cons_self
  | acquire => exact lockAcquire_uses _
  | release => exact sysRelease_uses _
  | cvarInit => exact sysCvarInit_uses hp _ List.mem_cons_self
  | cvarSignal => exact sysCvarSignal_uses _
  | cvarBroadcast => exact sysCvarBroadcast_uses _
  | cvarWait => exact sysCvarWait_uses _ _
  | reclaim => exact sysReclaim_uses _
  | unsupported => exact uses_same ..

/-- The dispatcher returns without an access. -/
theorem finish_noAccess (caller : PcbPtr) (f : Flow) :
    NoAccess (flowKernel f) (finish caller f) := by
  cases f with
  | returns t y rc => exact trapKernelReturn_noAccess _ _ _
  | leaves t => exact .refl t

/-- So it does behind Exec. -/
theorem finishExec_noAccess (caller : PcbPtr) (f : Flow) :
    NoAccess (flowKernel f) (finishExec caller f) := by
  cases f with
  | returns t y rc =>
    dsimp only [finishExec]
    split
    · exact trapKernelReturn_noAccess _ _ _
    · exact trapKernelReturn_noAccess _ _ _
  | leaves t => exact .refl t

/-- Behind the function of the call the dispatcher makes no access. -/
theorem syscallDispatch_noAccess (caller : PcbPtr) (u : UserContext) (s : Kernel) :
    NoAccess (flowKernel (callFlow M env caller u s)) (syscallDispatch M env caller u s) := by
  unfold syscallDispatch callFlow
  cases M.syscallOf u.code with
  | exec => exact finishExec_noAccess _ _
  | exit => exact .refl _
  | _ => exact finish_noAccess _ _

/-- A trap accesses at most the buffers that its registers name. -/
theorem trap_uses (h0 : s.currentProcess≠0) (hp : s.currentProcess=p) (hl : s.live p=true) :
    Uses (namedLoads M env u) (namedStores M u) (u.vector≠.memory ∧
      (u.vector=.kernel → ¬Changes (M.syscallOf u.code))) p s (trap M env u s) := by
  subst hp
  have hsave : NoAccess s (saveContext u s) := by
    rw [saveContext_current u h0]
    exact noAccess_silent rfl rfl rfl
  unfold trap
  cases hv : u.vector with
  | kernel =>
    dsimp only
    unfold trapKernel namedLoads namedStores
    rw [if_pos hv,if_pos hv,saveContext_current u h0]
    have hcall := (@callFlow_uses M env
      (s.setUserContext s.currentProcess u) _ u rfl hl).after (syscallDispatch_noAccess _ _ _)
    obtain ⟨hlog,ho,hown⟩ := hcall.before (s := s) rfl rfl rfl rfl
    exact ⟨hlog,ho,fun h => hown (h.2 rfl)⟩
  | clock =>
    refine (NoAccess.trans ?_ (keeping_noAccess (schedule_keeping _))).uses
    refine hsave.trans (t := saveContext u s) ?_
    exact noAccess_event rfl rfl rfl id
  | memory =>
    dsimp only
    unfold trapMemory
    have hspace : ∀ v m,Uses (namedLoads M env u) (namedStores M u) False s.currentProcess s
        {saveContext u s with
          memory := m
          space := Function.update s.space s.currentProcess v} := by
      intro v m
      rw [saveContext_current u h0]
      exact uses_space rfl rfl (List.append_nil _).symm (fun _ h => absurd h List.not_mem_nil)
    split
    · obtain ⟨hlog,ho,_⟩ := hspace (growStack M s.memory (s.space s.currentProcess) u.addr).2.1
        (growStack M s.memory (s.space s.currentProcess) u.addr).1
      refine ⟨hlog,fun q hqp hlq => ?_,fun h => absurd rfl h.1⟩
      obtain ⟨hs,hb,hn⟩ := ho q hqp hlq
      exact ⟨hs,hb,hn⟩
    · obtain ⟨hlog,ho,_⟩ := (hspace (growStack M s.memory (s.space s.currentProcess) u.addr).2.1
        (growStack M s.memory (s.space s.currentProcess) u.addr).1).after
          (@exitCurrent_noAccess M env ERROR _)
      exact ⟨hlog,ho,fun h => absurd rfl h.1⟩
  | illegal => exact (hsave.trans (exitCurrent_noAccess _ _)).uses
  | math => exact (hsave.trans (exitCurrent_noAccess _ _)).uses
  | ttyReceive =>
    exact ((keeping_noAccess (trapTtyReceive_keeping u s)).trans (returnToUser_noAccess u _)).uses
  | ttyTransmit =>
    exact ((keeping_noAccess (trapTtyTransmit_keeping u s)).trans (returnToUser_noAccess u _)).uses
  | disk => exact (returnToUser_noAccess u s).uses
  | other => exact (returnToUser_noAccess u s).uses

/-- The function of a stopped call goes on. -/
theorem resumeFlow_uses {caller : PcbPtr} {n : KernelPoint} (hp : s.currentProcess=p)
    (hst : CallPoint n → u.vector=.kernel ∧ Stopped M u n)
    (hread : ∀ i,n=.ttyRead i → (s.tty p).readBuf=u.ptr 1 ∧ (s.tty p).readLen=(u.int 2).toNat) :
    Uses (namedLoads M env u) (namedStores M u) True p s
      (flowKernel (resumeFlow M env ⟨caller,n⟩ s)) := by
  have hstores : CallPoint n → namedStores M u=callStores u (M.syscallOf u.code) := fun hn =>
    if_pos (hst hn).1
  unfold resumeFlow
  cases n with
  | executing => exact (noAccess_silent rfl rfl rfl : NoAccess s (s.kernelPanic _)).uses
  | boot => exact (returnToUser_noAccess _ s).uses
  | clock => exact (returnToUser_noAccess _ s).uses
  | exited => exact (noAccess_silent rfl rfl rfl : NoAccess s (s.kernelPanic _)).uses
  | fork c =>
    dsimp only
    unfold sysForkReturn
    split
    · exact uses_same ..
    · exact (keeping_noAccess (makeReady_keeping _ _)).uses
  | wait statusPtr =>
    obtain ⟨_,hc,ha⟩ := hst trivial
    rw [hstores trivial,hc]
    dsimp only
    generalize hf : waitLoop M env caller statusPtr (savedContext s)
      {s with waitingForChild := Function.update s.waitingForChild s.currentProcess false}=f
    refine Uses.before (t := {s with
      waitingForChild := Function.update s.waitingForChild s.currentProcess false}) ?_ rfl rfl rfl
      rfl
    rw [←hf]
    refine waitLoop_uses hp (fun h0 => ?_)
    dsimp only [callStores]
    rw [if_neg (ha ▸ h0),←ha]
    exact List.mem_cons_self
  | delay => exact uses_same ..
  | ttyRead i =>
    obtain ⟨_,hc,_⟩ := hst trivial
    obtain ⟨hb,hn⟩ := hread i rfl
    rw [hstores trivial,hc]
    refine ttyReadLoop_uses hp ?_
    rw [hb,hn]
    exact List.mem_cons_self
  | ttyWrite i len =>
    refine NoAccess.uses ?_
    exact keeping_noAccess (keeping_request rfl rfl rfl rfl rfl
      (fun e he => by rw [List.mem_singleton.1 he]; trivial))
  | pipeRead id buf len g =>
    obtain ⟨_,hc,_,hb,hn⟩ := hst trivial
    rw [hstores trivial,hc]
    refine pipeReadLoop_uses hp id buf len ?_
    rw [hb,hn]
    exact List.mem_cons_self
  | acquire id g => exact lockAcquireResume_uses id
  | cvarWait id lockId g g' => exact cvarWaitResume_uses id lockId

/-- A saved kernel stack goes on. -/
theorem resume_uses (hp : s.currentProcess=p)
    (hst : CallPoint (s.kernelContext p).point →
      u.vector=.kernel ∧ Stopped M u (s.kernelContext p).point)
    (hread : ∀ i,(s.kernelContext p).point=.ttyRead i →
      (s.tty p).readBuf=u.ptr 1 ∧ (s.tty p).readLen=(u.int 2).toNat) :
    Uses (namedLoads M env u) (namedStores M u) True p s (resume M env s) := by
  subst hp
  unfold resume
  rw [continueAt_finish]
  have hflow : Uses (namedLoads M env u) (namedStores M u) True s.currentProcess
      (s.setKernelContext s.currentProcess ⟨s.currentProcess,.executing⟩)
      (flowKernel (resumeFlow M env (s.kernelContext s.currentProcess)
        (s.setKernelContext s.currentProcess ⟨s.currentProcess,.executing⟩))) :=
    resumeFlow_uses rfl hst hread
  exact (hflow.before (s := s) rfl rfl rfl rfl).after (finish_noAccess _ _)

/-- A stack that is not stopped inside a call that can block goes on until its
process executes. -/
theorem resume_executing (hk : ¬CallPoint (s.kernelContext s.currentProcess).point) :
    ((resume M env s).kernelContext s.currentProcess).point=.executing := by
  have hself : ((s.setKernelContext s.currentProcess
      ⟨s.currentProcess,.executing⟩).kernelContext s.currentProcess).point=.executing := by
    dsimp only [Kernel.setKernelContext]
    rw [Function.update_self]
  unfold resume
  generalize s.kernelContext s.currentProcess=k at hk
  obtain ⟨caller,n⟩ := k
  cases n with
  | executing => exact hself
  | boot => exact hself
  | clock => exact hself
  | exited => exact hself
  | fork c =>
    dsimp only [continueAt]
    unfold sysForkReturn
    split
    · obtain ⟨_,_,he⟩ := finish_returns (s := s.setKernelContext s.currentProcess
        ⟨s.currentProcess,.executing⟩) caller (savedContext _) 0
      rw [he]
      exact hself
    · obtain ⟨_,_,he⟩ := finish_returns (s := processMakeReady (s.setKernelContext
        s.currentProcess ⟨s.currentProcess,.executing⟩) c) caller (savedContext _) _
      rw [he]
      dsimp only
      rw [(makeReady_untouched _ _).saved]
      exact hself
  | _ => exact absurd trivial hk

end Steps

section Refusals

/-- The pointers and lengths that a call refuses. -/
def Refused (u : UserContext) : Syscall → Prop
  | .exec => u.ptr 0=0
  | .ttyRead => u.int 2<0 ∨ (u.ptr 1=0 ∧ 0<u.int 2)
  | .ttyWrite => u.int 2<0 ∨ (u.ptr 1=0 ∧ 0<u.int 2)
  | .pipeInit => u.ptr 0=0
  | .pipeRead => u.int 2<0 ∨ (u.ptr 1=0 ∧ 0<u.int 2)
  | .pipeWrite => u.int 2<0 ∨ (u.ptr 1=0 ∧ 0<u.int 2)
  | .lockInit => u.ptr 0=0
  | .cvarInit => u.ptr 0=0
  | _ => False

/-- A refused call returns with nothing changed. -/
theorem callFlow_refused {caller : PcbPtr} (h : Refused u (M.syscallOf u.code)) :
    ∃ l : List Event,(∀ a∈l,a=.execLedger 0 0 [] []) ∧
      callFlow M env caller u s=.returns {s with log := s.log++l} u ERROR := by
  have hsame : (.returns {s with log := s.log++[]} u ERROR : Flow)=.returns s u ERROR := by
    rw [List.append_nil]
  have hnone : ∀ a∈([] : List Event),a=.execLedger 0 0 [] [] :=
    fun _ ha => absurd ha List.not_mem_nil
  unfold callFlow
  cases hc : M.syscallOf u.code with
  | exec =>
    rw [hc] at h
    dsimp only
    unfold sysExec
    split
    · exact ⟨[],hnone,hsame.symm⟩
    · refine ⟨[.execLedger 0 0 [] []],fun a ha => List.mem_singleton.1 ha,?_⟩
      have h0 : u.ptr 0=0 := h
      have hcopy : copyExecArgs env (u.ptr 0) (u.ptr 1)=.failed [] [] := if_pos h0
      have hloads : noteLoads (execLoads env (u.ptr 0) (u.ptr 1)) s=s := by
        unfold execLoads noteLoads
        rw [if_pos h0,List.map_nil,List.append_nil]
      rw [hloads]
      unfold execImage
      rw [hcopy]
      rfl
  | ttyRead =>
    rw [hc] at h
    exact ⟨[],hnone,hsame.symm ▸ if_pos (.inr h)⟩
  | ttyWrite =>
    rw [hc] at h
    exact ⟨[],hnone,hsame.symm ▸ if_pos (.inr h)⟩
  | pipeInit =>
    rw [hc] at h
    exact ⟨[],hnone,hsame.symm ▸ if_pos h⟩
  | pipeRead =>
    rw [hc] at h
    exact ⟨[],hnone,hsame.symm ▸ if_pos h⟩
  | pipeWrite =>
    rw [hc] at h
    exact ⟨[],hnone,hsame.symm ▸ if_pos h⟩
  | lockInit =>
    rw [hc] at h
    exact ⟨[],hnone,hsame.symm ▸ if_pos h⟩
  | cvarInit =>
    rw [hc] at h
    exact ⟨[],hnone,hsame.symm ▸ if_pos h⟩
  | _ =>
    rw [hc] at h
    exact h.elim

/-- A refused call leaves the result in the registers and nothing else. -/
theorem kernelStep_refused (h0 : s.currentProcess≠0) (hv : u.vector=.kernel)
    (h : Refused u (M.syscallOf u.code)) :
    ∃ l : List Event,(∀ a∈l,a=.execLedger 0 0 [] []) ∧
      kernelStep M env s (.trap u)=returnToUser (u.setResult ERROR)
        {s.setUserContext s.currentProcess (u.setResult ERROR) with log := s.log++l} := by
  obtain ⟨l,hl,hf⟩ := callFlow_refused (M := M)
    (s := s.setUserContext s.currentProcess u) h
  refine ⟨l,hl,?_⟩
  dsimp only [kernelStep,trap]
  rw [hv]
  dsimp only
  unfold trapKernel
  rw [saveContext_current u h0]
  have hret : ∀ t : Kernel,t={s.setUserContext s.currentProcess u with log := s.log++l} →
      trapKernelReturn s.currentProcess (u.setResult ERROR) t=returnToUser (u.setResult ERROR)
        {s.setUserContext s.currentProcess (u.setResult ERROR) with log := s.log++l} := by
    rintro _ rfl
    unfold trapKernelReturn
    rw [if_pos ⟨rfl,h0⟩]
    dsimp only [Kernel.setUserContext]
    rw [Function.update_idem]
  by_cases hx : M.syscallOf u.code=.exec
  · unfold syscallDispatch
    rw [hx]
    unfold callFlow at hf
    rw [hx] at hf
    dsimp only at hf ⊢
    rw [hf]
    dsimp only [finishExec]
    rw [if_neg (by decide)]
    exact hret _ rfl
  · rw [syscallDispatch_finish env _ u hx,hf]
    exact hret _ rfl

end Refusals

section Runs

variable {ok : Kernel → Env → Input → Prop} {g : PcbPtr → Option Entry}
  {tables : PcbPtr → PageTable} {input : Input}

/-- The page tables at the last traps, behind a step. -/
def tablesAt (s : Kernel) (tables : PcbPtr → PageTable) : Input → PcbPtr → PageTable
  | .trap _,p => if p=s.currentProcess then (s.space p).region1Pt else tables p
  | .resume,p => tables p

/-- Runs with the last entry of each process and its page table at that trap. -/
inductive TableRun (M : Machine) (ok : Kernel → Env → Input → Prop) :
    Kernel → (PcbPtr → Option Entry) → (PcbPtr → PageTable) → Prop
  /-- The state behind KernelStart. -/
  | boot (b : Boot M) (hu : (kernelStart M b).cpu=.user) :
      TableRun M ok (kernelStart M b) (fun _ => none)
        (fun p => ((kernelStart M b).space p).region1Pt)
  /-- A run with its tables goes on with one more step. -/
  | step {s : Kernel} {g : PcbPtr → Option Entry} {tables : PcbPtr → PageTable} (env : Env)
      (input : Input) (hr : TableRun M ok s g tables) (he : input.Enabled s) (h : ok s env input) :
      TableRun M ok (kernelStep M env s input) (entered s g input) (tablesAt s tables input)

/-- The entries are those of a watched run. -/
theorem TableRun.entries (h : TableRun M ok s g tables) : EntryRun M ok s g := by
  induction h with
  | boot b hu => exact .boot b hu
  | step env input _ he hok ih => exact .step env input ih he hok

/-- A process that is stopped inside a call has kept what the call needs to go
on with its pointers. -/
structure Arguments (s : Kernel) (g : PcbPtr → Option Entry) (tables : PcbPtr → PageTable) :
    Prop where
  /-- The page table of the trap. -/
  table : ∀ p,s.live p=true → CallPoint (s.kernelContext p).point →
    (s.space p).region1Pt=tables p
  /-- The destination of a terminal read. -/
  read : ∀ p e i,s.live p=true → g p=some e → (s.kernelContext p).point=.ttyRead i →
    (s.tty p).readBuf=e.context.ptr 1 ∧ (s.tty p).readLen=(e.context.int 2).toNat

/-- A process that stops inside a call has not changed its address space in it. -/
theorem stopped_calm {n : KernelPoint} (hk : CallPoint n) (hs : Stopped M u n)
    (hr : ∀ i,n≠.ttyRead i) : ¬Changes (M.syscallOf u.code) := by
  cases n with
  | executing => exact hk.elim
  | exited => exact hk.elim
  | boot => exact hk.elim
  | clock => exact hk.elim
  | fork c => exact hk.elim
  | wait statusPtr => rw [hs.1]; exact id
  | delay => rw [show M.syscallOf u.code=.delay from hs]; exact id
  | ttyRead i => exact absurd rfl (hr i)
  | ttyWrite i len => rw [hs.1]; exact id
  | pipeRead id buf len g => rw [hs.1]; exact fun h => h
  | acquire id g =>
    rcases hs with hs|hs
    · rw [hs.1]; exact fun h => h
    · rw [hs.1]; exact fun h => h
  | cvarWait id lockId g g' => rw [hs.1]; exact fun h => h

/-- A process stopped in a TtyRead call is stopped at its terminal. -/
theorem stopped_ttyRead {n : KernelPoint} (hk : CallPoint n) (hs : Stopped M u n)
    (hc : M.syscallOf u.code=.ttyRead) : ∃ i,n=.ttyRead i := by
  cases n with
  | executing => exact hk.elim
  | exited => exact hk.elim
  | boot => exact hk.elim
  | clock => exact hk.elim
  | fork c => exact hk.elim
  | ttyRead i => exact ⟨i,rfl⟩
  | delay => exact nomatch hc.symm.trans (show M.syscallOf u.code=.delay from hs)
  | acquire id g =>
    rcases hs with hs|hs
    · exact nomatch hc.symm.trans hs.1
    · exact nomatch hc.symm.trans hs.1
  | _ => exact nomatch hc.symm.trans hs.1

/-- A step uses the buffers that the last trap of its process has named. -/
theorem kernelStep_uses (env : Env) (input : Input) (h : Watched M s g)
    (ha : Arguments s g tables) :
    ∃ u own,(u.vector=.kernel →
        (∃ e,entered s g input s.currentProcess=some e ∧ e.context=u) ∧
          (s.space s.currentProcess).region1Pt=tablesAt s tables input s.currentProcess) ∧
      Uses (namedLoads M env u) (namedStores M u) own s.currentProcess s
        (kernelStep M env s input) := by
  have hl := h.ready.current_live
  have h0 : s.currentProcess≠0 := h.ready.ne_null hl
  cases input with
  | trap u =>
    exact ⟨u,_,fun _ => ⟨⟨_,if_pos (.inl rfl),rfl⟩,(if_pos rfl).symm⟩,trap_uses h0 rfl hl⟩
  | resume =>
    by_cases hk : CallPoint (s.kernelContext s.currentProcess).point
    · obtain ⟨_,e,hge,hc,hs⟩ := (h.held _ hl).call hk
      exact ⟨e.context,True,fun _ => ⟨⟨e,hge,rfl⟩,ha.table _ hl hk⟩,
        resume_uses rfl (fun _ => ⟨hc.vector,hs⟩) (fun i hi => ha.read _ e i hl hge hi)⟩
    · refine ⟨{s.uctxt with vector := .clock},True,fun hv => ?_,
        resume_uses rfl (fun hn => absurd hn hk) (fun i hi => ?_)⟩
      · cases hv
      · rw [hi] at hk
        exact absurd trivial hk

/-- A terminal read that stops in the step of its trap keeps its arguments. -/
theorem ttyRead_kept (hv : u.vector=.kernel) (hc : M.syscallOf u.code=.ttyRead)
    (h0 : s.currentProcess≠0) (he : (s.kernelContext s.currentProcess).point=.executing)
    (hk : CallPoint ((kernelStep M env s (.trap u)).kernelContext s.currentProcess).point) :
    (kernelStep M env s (.trap u)).space s.currentProcess=s.space s.currentProcess ∧
      ((kernelStep M env s (.trap u)).tty s.currentProcess).readBuf=u.ptr 1 ∧
      ((kernelStep M env s (.trap u)).tty s.currentProcess).readLen=(u.int 2).toNat := by
  have hx : M.syscallOf u.code≠.exec := by
    rw [hc]
    exact fun h => nomatch h
  have hflow : stepFlow M env s (.trap u)=sysTtyRead M env s.currentProcess (u.int 0) (u.ptr 1)
      (u.int 2) u (s.setUserContext s.currentProcess u) := by
    dsimp only [stepFlow]
    unfold callFlow
    rw [hc,saveContext_current u h0]
  have hserve := @callFlow_serves M env (s.setUserContext s.currentProcess u) _ u
    rfl he hv (by rw [hc]; exact fun h => nomatch h) s.objects
  unfold callFlow at hserve
  rw [hc] at hserve
  rw [trap_step env hv hx,hflow] at hk ⊢
  cases hf : sysTtyRead M env s.currentProcess (u.int 0) (u.ptr 1) (u.int 2) u
      (s.setUserContext s.currentProcess u) with
  | returns t y rc =>
    have hquiet : Serves M ⟨u,s.objects⟩ s.currentProcess u
        (s.setUserContext s.currentProcess u) (.returns t y rc) := hf ▸ hserve
    rw [hf] at hk
    obtain ⟨_,_,hfin⟩ := finish_returns (s := t) s.currentProcess y rc
    rw [hfin] at hk
    dsimp only at hk
    rw [hquiet.1.own] at hk
    dsimp only [Kernel.setUserContext] at hk
    rw [he] at hk
    exact hk.elim
  | leaves t =>
    have hread : (u.ptr 1,(u.int 2).toNat)∈[(u.ptr 1,(u.int 2).toNat)] := List.mem_cons_self
    exact (@sysTtyRead_uses M env (s.setUserContext s.currentProcess u) _ u [] _ _ rfl
      (u.int 0) (u.ptr 1) (u.int 2) hread).2 t hf

/-- The process of a step keeps what its call needs to go on. -/
theorem arguments_own (env : Env) (h : Watched M s g) (ha : Arguments s g tables)
    (he : input.Enabled s)
    (hk : CallPoint ((kernelStep M env s input).kernelContext s.currentProcess).point) :
    ((kernelStep M env s input).space s.currentProcess).region1Pt=
        tablesAt s tables input s.currentProcess ∧
      ∀ e i,entered s g input s.currentProcess=some e →
        ((kernelStep M env s input).kernelContext s.currentProcess).point=.ttyRead i →
        ((kernelStep M env s input).tty s.currentProcess).readBuf=e.context.ptr 1 ∧
          ((kernelStep M env s input).tty s.currentProcess).readLen=(e.context.int 2).toNat := by
  have hl := h.ready.current_live
  have h0 : s.currentProcess≠0 := h.ready.ne_null hl
  obtain ⟨_,e,hge,hc,hs⟩ := (kernelStep_outcome env h he).own.call hk
  cases input with
  | trap u =>
    have hent : entered s g (.trap u) s.currentProcess=some ⟨u,s.objects⟩ := if_pos (.inl rfl)
    rw [hent] at hge
    injection hge with hge
    subst hge
    have hv : u.vector=.kernel := hc.vector
    have htab : tablesAt s tables (.trap u) s.currentProcess=
        (s.space s.currentProcess).region1Pt := if_pos rfl
    rw [htab,hent]
    by_cases hread : M.syscallOf u.code=.ttyRead
    · obtain ⟨hspace,hb,hn⟩ := ttyRead_kept hv hread h0 (h.user he).executing hk
      refine ⟨by rw [hspace],fun e i hoe _ => ?_⟩
      injection hoe with hoe
      subst hoe
      exact ⟨hb,hn⟩
    · have hno : ∀ i,((kernelStep M env s (.trap u)).kernelContext s.currentProcess).point≠
          .ttyRead i := by
        intro i hi
        rw [hi] at hs
        exact hread hs.1
      have hcalm := stopped_calm hk hs hno
      have hkeep : Keeps s.currentProcess s (kernelStep M env s (.trap u)) :=
        (trap_uses h0 rfl hl).own ⟨(by rw [hv]; exact fun h => nomatch h),fun _ => hcalm⟩
      exact ⟨by rw [hkeep.space],fun e i _ hi => absurd hi (hno i)⟩
  | resume =>
    have hcall : CallPoint (s.kernelContext s.currentProcess).point := by
      by_contra hn
      have hex := @resume_executing M env s hn
      dsimp only [kernelStep] at hk
      rw [hex] at hk
      exact hk
    have hge' : g s.currentProcess=some e := hge
    obtain ⟨_,e',hge'',_,hs'⟩ := (h.held _ hl).call hcall
    rw [hge'] at hge''
    injection hge'' with hee
    subst hee
    have hkeep := (@resume_uses M env s _ e.context rfl
      (fun _ => ⟨hc.vector,hs'⟩) (fun i hi => ha.read _ e i hl hge' hi)).own trivial
    refine ⟨?_,fun e' i hoe hi => ?_⟩
    · have htab : tablesAt s tables .resume s.currentProcess=tables s.currentProcess := rfl
      rw [htab,← ha.table _ hl hcall,← hkeep.space]
      rfl
    · have hsame : some e=some e' := hge.symm.trans hoe
      injection hsame with hee
      subst hee
      rw [hi] at hs
      obtain ⟨j,hj⟩ := stopped_ttyRead hcall hs' hs.1
      obtain ⟨hb,hn⟩ := ha.read _ e j hl hge' hj
      exact ⟨hkeep.buf.trans hb,hkeep.len.trans hn⟩

/-- Every process keeps what its call needs. -/
theorem arguments_step (env : Env) (h : Watched M s g) (ha : Arguments s g tables)
    (he : input.Enabled s) (h' : Watched M (kernelStep M env s input) (entered s g input)) :
    Arguments (kernelStep M env s input) (entered s g input) (tablesAt s tables input) := by
  have ho := (kernelStep_outcome env h he).others
  obtain ⟨_,_,_,huse⟩ := kernelStep_uses env input h ha
  have hnew : ∀ q,q≠s.currentProcess → s.live q=false →
      (kernelStep M env s input).live q=true →
      ¬CallPoint ((kernelStep M env s input).kernelContext q).point := by
    intro q hq hs ht hk
    obtain ⟨_,hfork,_⟩ := ho.born q hq hs ht
    rw [hfork] at hk
    exact hk
  have htab : ∀ q,q≠s.currentProcess → tablesAt s tables input q=tables q := by
    intro q hq
    cases input with
    | trap u => exact if_neg hq
    | resume => rfl
  refine ⟨fun q hl hk => ?_,fun q e i hl hge hk => ?_⟩
  · by_cases hq : q=s.currentProcess
    · subst hq
      exact (arguments_own env h ha he hk).1
    · cases hs : s.live q with
      | false => exact absurd hk (hnew q hq hs hl)
      | true =>
        rw [(ho.old q hq hs).1] at hk
        rw [(huse.others q hq hs).space,htab q hq]
        exact ha.table q hs hk
  · by_cases hq : q=s.currentProcess
    · subst hq
      have hcall : CallPoint ((kernelStep M env s input).kernelContext s.currentProcess).point := by
        rw [hk]
        trivial
      exact (arguments_own env h ha he hcall).2 e i hge hk
    · cases hs : s.live q with
      | false =>
        refine absurd ?_ (hnew q hq hs hl)
        rw [hk]
        trivial
      | true =>
        rw [(ho.old q hq hs).1] at hk
        rw [entered_other hq hs] at hge
        obtain ⟨hb,hn⟩ := ha.read q e i hs hge hk
        exact ⟨(huse.others q hq hs).buf.trans hb,(huse.others q hq hs).len.trans hn⟩

/-- Every state of a run. -/
theorem run_arguments (hok : ∀ s env input,ok s env input → env.switchOk=true)
    (h : TableRun M ok s g tables) : Arguments s g tables := by
  induction h with
  | boot b hu => exact ⟨fun _ _ _ => rfl,fun _ _ _ _ h => nomatch h⟩
  | step env input hr he hst ih =>
    exact arguments_step env (run_watched hok hr.entries) ih he
      (run_watched hok (hr.step env input he hst).entries)

/-- The page table entry of a user address, invalid outside Region 1. -/
def userPte (M : Machine) (pt : PageTable) (addr : ℕ) : Pte :=
  if M.vmem1Base≤addr ∧ addr<M.vmem1Limit then pt (addr/M.pageSize-M.vmem1Base/M.pageSize)
  else zeroPte

/-- The address lies in a valid page that may be read. -/
def Readable (M : Machine) (pt : PageTable) (addr : ℕ) : Prop :=
  (userPte M pt addr).valid=true ∧ (userPte M pt addr).prot.read=true

/-- The address lies in a valid page that may be written. -/
def Writable (M : Machine) (pt : PageTable) (addr : ℕ) : Prop :=
  (userPte M pt addr).valid=true ∧ (userPte M pt addr).prot.write=true

instance (M : Machine) (pt : PageTable) (addr : ℕ) : Decidable (Writable M pt addr) :=
  inferInstanceAs (Decidable (_ ∧ _))

/-- All bytes of all buffers satisfy a condition. -/
def Within (P : ℕ → Prop) (l : List (ℕ × ℕ)) : Prop := ∀ b∈l,∀ i<b.2,P (b.1+i)

/-- A part of a named buffer. -/
theorem Within.part {P : ℕ → Prop} {a n : ℕ} (h : Within P l) (hb : ∃ b∈l,a=b.1 ∧ n≤b.2) :
    ∀ i<n,P (a+i) := by
  obtain ⟨b,hb,rfl,hn⟩ := hb
  exact fun i hi => h b hb i (by omega)

/-- A step records accesses of the current process only. They begin at buffers
that its last trap names and are no longer than these. When the buffers lay in
pages of the process that could be written or read at the trap, all addresses
do so now. -/
theorem run_accesses (h : TableRun M SwitchSucceeds s g tables) :
    ∃ l,(kernelStep M env s input).log=s.log++l ∧
      (∀ q a n,.stored q a n∈l → q=s.currentProcess ∧ ∃ e,entered s g input q=some e ∧
        (∃ b∈namedStores M e.context,a=b.1 ∧ n≤b.2) ∧
        (Within (Writable M (tablesAt s tables input q)) (namedStores M e.context) →
          ∀ i<n,Writable M (s.space q).region1Pt (a+i))) ∧
      ∀ q a n,.loaded q a n∈l → q=s.currentProcess ∧ ∃ e,entered s g input q=some e ∧
        (∃ b∈namedLoads M env e.context,a=b.1 ∧ n≤b.2) ∧
        (Within (Readable M (tablesAt s tables input q)) (namedLoads M env e.context) →
          ∀ i<n,Readable M (s.space q).region1Pt (a+i)) := by
  have hw : Watched M s g := run_watched (fun _ _ _ hs => hs) h.entries
  have ha : Arguments s g tables := run_arguments (fun _ _ _ hs => hs) h
  obtain ⟨u,own,hu,huse⟩ := kernelStep_uses env input hw ha
  obtain ⟨l,hl,hq⟩ := huse.log
  have hkernel : ∀ {c : List (ℕ × ℕ)} {b},b∈(if u.vector=.kernel then c else []) →
      u.vector=.kernel := by
    intro c b hb
    by_contra hn
    rw [if_neg hn] at hb
    cases hb
  refine ⟨l,hl,fun q a n hs => ?_,fun q a n hs => ?_⟩
  · obtain ⟨rfl,b,hb,hab⟩ := hq _ hs
    obtain ⟨⟨e,hoe,hee⟩,htab⟩ := hu (hkernel hb)
    subst hee
    refine ⟨rfl,e,hoe,⟨b,hb,hab⟩,fun hwithin => ?_⟩
    rw [htab]
    exact hwithin.part ⟨b,hb,hab⟩
  · obtain ⟨rfl,b,hb,hab⟩ := hq _ hs
    obtain ⟨⟨e,hoe,hee⟩,htab⟩ := hu (hkernel hb)
    subst hee
    refine ⟨rfl,e,hoe,⟨b,hb,hab⟩,fun hwithin => ?_⟩
    rw [htab]
    exact hwithin.part ⟨b,hb,hab⟩

/-- In every run, the kernel stores and loads through user pointers for the
process of the step only, and only in buffers that the registers of its last
trap name, be it in the step of the trap or behind a wait. So when these lie
in pages of the process that may be written or read, as its table was at the
trap, then every address of an access lies in such a page of its present table.
A call that refuses its pointer or length returns ERROR and changes nothing. -/
theorem run_userPointers (h : TableRun M SwitchSucceeds s g tables) (he : input.Enabled s) :
    (∃ l,(kernelStep M env s input).log=s.log++l ∧
      (∀ q a n,.stored q a n∈l → q=s.currentProcess ∧ ∃ e,entered s g input q=some e ∧
        (∃ b∈namedStores M e.context,a=b.1 ∧ n≤b.2) ∧
        (Within (Writable M (tablesAt s tables input q)) (namedStores M e.context) →
          ∀ i<n,Writable M (s.space q).region1Pt (a+i))) ∧
      ∀ q a n,.loaded q a n∈l → q=s.currentProcess ∧ ∃ e,entered s g input q=some e ∧
        (∃ b∈namedLoads M env e.context,a=b.1 ∧ n≤b.2) ∧
        (Within (Readable M (tablesAt s tables input q)) (namedLoads M env e.context) →
          ∀ i<n,Readable M (s.space q).region1Pt (a+i))) ∧
    ∀ u,input=.trap u → u.vector=.kernel → Refused u (M.syscallOf u.code) →
      ∃ l : List Event,(∀ a∈l,a=.execLedger 0 0 [] []) ∧
        kernelStep M env s input=returnToUser (u.setResult ERROR)
          {s.setUserContext s.currentProcess (u.setResult ERROR) with log := s.log++l} := by
  refine ⟨run_accesses h,fun u hi hv hr => ?_⟩
  have hw : Watched M s g := run_watched (fun _ _ _ hs => hs) h.entries
  subst hi
  exact kernelStep_refused (hw.ready.ne_null hw.ready.current_live) hv hr

/-- A watched run has page tables. -/
theorem tableRun_exists (h : EntryRun M ok s g) : ∃ tables,TableRun M ok s g tables := by
  induction h with
  | boot b hu => exact ⟨_,.boot b hu⟩
  | step env input _ he hok ih =>
    obtain ⟨tables,ht⟩ := ih
    exact ⟨_,.step env input ht he hok⟩

/-- The process, the address and the length of a recorded store. -/
def storeOf : Event → Option (PcbPtr × ℕ × ℕ)
  | .stored p a n => some (p,a,n)
  | _ => none

/-- Only a store has an owner, an address and a length here. -/
theorem storeOf_some {a : Event} {b n : ℕ} (h : storeOf a=some (p,b,n)) : a=.stored p b n := by
  cases a with
  | stored q c m =>
    injection h with h
    injection h with hq h
    injection h with hc hm
    rw [hq,hc,hm]
  | _ => cases h

/-- The stores of a step. -/
def storesOf (s t : Kernel) : List (PcbPtr × ℕ × ℕ) := (t.log.drop s.log.length).filterMap storeOf

/-- The stores of a step are recorded in it. -/
theorem storesOf_recorded {l : List Event} {b n : ℕ} (hl : t.log=s.log++l)
    (h : storesOf s t=[(p,b,n)]) : .stored p b n∈l := by
  unfold storesOf at h
  rw [hl,List.drop_left] at h
  have hmem : (p,b,n)∈l.filterMap storeOf := by
    rw [h]
    exact List.mem_cons_self
  obtain ⟨a,ha,he⟩ := List.mem_filterMap.1 hmem
  rw [storeOf_some he] at ha
  exact ha

/-- A line arrives for a reader that has been blocked: its five bytes are
stored into the buffer of the trap. -/
theorem run_userPointers_read : ∃ s g tables,TableRun sampleMachine SwitchSucceeds s g tables ∧
    s.cpu=.kernel ∧ storesOf s (kernelStep sampleMachine (sampleEnv 0 0) s .resume)=
      [(2,0x1fff00,5)] ∧
    ∃ e,entered s g .resume 2=some e ∧
      ∃ b∈namedStores sampleMachine e.context,0x1fff00=b.1 ∧ 5≤b.2 := by
  obtain ⟨s,g,hr,hq⟩ := @replayEntries_exists sampleMachine SwitchSucceeds _ _ switchTest
    (fun _ _ _ h => h) (.boot sampleBoot sampleBoot_user)
    [callInput 8 0 0x1fff00 5,resumeInput,lineInput,tickInput]
    (fun s _ => decide (s.cpu=.kernel ∧ storesOf s
      (kernelStep sampleMachine (sampleEnv 0 0) s .resume)=[(2,0x1fff00,5)])) (by decide +kernel)
  obtain ⟨tables,ht⟩ := tableRun_exists hr
  obtain ⟨hc,hs⟩ := of_decide_eq_true hq
  have he : Input.resume.Enabled s := hc
  obtain ⟨⟨l,hl,hstored,_⟩,_⟩ := run_userPointers ht he
  obtain ⟨_,e,he,hb,_⟩ := hstored _ _ _ (storesOf_recorded hl hs)
  exact ⟨s,g,tables,ht,hc,hs,e,he,hb⟩

/-- PipeInit with the address of kernel data succeeds and stores there: the page
is not one of the caller's, but the kernel may write it. -/
theorem pipeInit_kernel : ∃ s g tables env u,
    TableRun sampleMachine SwitchSucceeds s g tables ∧ s.cpu=.user ∧
    storesOf s (kernelStep sampleMachine env s (.trap u))=[(s.currentProcess,0x30000,4)] ∧
    ¬Writable sampleMachine (s.space s.currentProcess).region1Pt 0x30000 ∧
    (s.memory.kernelRegion0Pt (0x30000/sampleMachine.pageSize)).valid=true ∧
    (s.memory.kernelRegion0Pt (0x30000/sampleMachine.pageSize)).prot.write=true ∧
    (kernelStep sampleMachine env s (.trap u)).uctxt.int 0=SUCCESS :=
  ⟨_,_,_,sampleEnv 0 0,sampleContext .kernel 10 0x30000 0 0,.boot sampleBoot sampleBoot_user,
    sampleBoot_user,by decide +kernel,by decide +kernel,by decide +kernel,by decide +kernel,
    by decide +kernel⟩

end Runs

end Yalnix.UserPointers
