import Yalnix.ConditionVariables

/-!
# The identity of objects across blocking

A call stopped in PipeRead or CvarWait looks its objects up again by number
when it goes on, and checks their types only. A woken caller has left its
queue, so Reclaim may free the object before the caller goes on, and an
initialising call may give the number to another object of the same type. The
caller then reads bytes of another pipe or takes another lock. In runs in which
no such number is handed out again, a call goes on with the objects it was
called with or returns ERROR.
-/

namespace Yalnix.ObjectIdentity

open Framework FrameTable KernelState Scheduling Ipc Terminals ProcessLifetime ProgramLoading
open Syscalls Traps KernelStart Coherence Operations OperationCoherence StepOperations
open CallOperations RunInvariants Traces History ByteCopy PipeStream LockHandoff
open KernelEntries UserContexts ObjectReferences ConditionVariables

variable {M : Machine} {env : Env} {s t : Kernel} {p : PcbPtr} {input : Input}
  {g : PcbPtr → Option Entry} {e : Entry} {id len rc : ℤ} {pipe : PipeState} {f : Flow}

/-- Two states of one object, opened by one call. -/
def SameObject : IpcObject → IpcObject → Prop
  | .pipe a,.pipe b => a.opened=b.opened
  | .lock a,.lock b => a.opened=b.opened
  | .cvar a,.cvar b => a.opened=b.opened
  | _,_ => False

/-- What the current process gets from the objects it named in its call, if
the call returns in this step. -/
structure KeepsIdentity (M : Machine) (env : Env) (s : Kernel) (g : PcbPtr → Option Entry)
    (input : Input) : Prop where
  /-- The bytes of a PipeRead are the first ones that were written to the pipe
  named in the call and not yet read. -/
  read : ∀ e rc,entered s g input s.currentProcess=some e → e.context.vector=.kernel →
    M.syscallOf e.context.code=.pipeRead → returnValue M env s input=some rc → 0< rc →
    ∃ pipe l bytes rest,lookup e.objects (e.context.int 0)=.pipe pipe ∧ (bytes.length : ℤ)=rc ∧
      (kernelStep M env s input).log=s.log++l++[.pipeReturned pipe.opened bytes] ∧
      s.log.flatMap (wroteTo pipe.opened)=
        s.log.flatMap (readFrom pipe.opened)++(bytes++rest)
  /-- A CvarWait that succeeds has acquired the lock named in the call. -/
  wait : ∀ e,entered s g input s.currentProcess=some e → e.context.vector=.kernel →
    M.syscallOf e.context.code=.cvarWait → returnValue M env s input=some SUCCESS →
    ∃ l,lookup (kernelStep M env s input).objects (e.context.int 1)=.lock l ∧
      l.owner=s.currentProcess ∧ SameObject (lookup e.objects (e.context.int 1)) (.lock l)
  /-- A PipeRead fails that goes on when its pipe is gone. -/
  pipeGone : ∀ e,input=.resume → g s.currentProcess=some e → e.context.vector=.kernel →
    M.syscallOf e.context.code=.pipeRead →
    ¬SameObject (lookup e.objects (e.context.int 0)) (lookup s.objects (e.context.int 0)) →
    returnValue M env s input=some ERROR
  /-- A CvarWait fails that goes on when its lock is gone. -/
  lockGone : ∀ e,input=.resume → g s.currentProcess=some e → e.context.vector=.kernel →
    M.syscallOf e.context.code=.cvarWait →
    ¬SameObject (lookup e.objects (e.context.int 1)) (lookup s.objects (e.context.int 1)) →
    returnValue M env s input=some ERROR
  /-- So does one that goes on behind the condition variable when it is gone. -/
  cvarGone : ∀ e,input=.resume → g s.currentProcess=some e → e.context.vector=.kernel →
    (∃ id lockId g₁ g₂,(s.kernelContext s.currentProcess).point=.cvarWait id lockId g₁ g₂) →
    ¬SameObject (lookup e.objects (e.context.int 0)) (lookup s.objects (e.context.int 0)) →
    returnValue M env s input=some ERROR

section Reading

/-- The bytes that a read gets from a pipe. -/
theorem read_bytes (hlog : PipeLog pipe.opened s) (hr : PipeReadRuns M env s input id len f)
    (hl : 0<len) (ho : getObject s id=.pipe pipe) (hf : flowResult f=some rc) (hrc : 0< rc) :
    ∃ l bytes rest,(bytes.length : ℤ)=rc ∧
      (kernelStep M env s input).log=s.log++l++[.pipeReturned pipe.opened bytes] ∧
      s.log.flatMap (wroteTo pipe.opened)=
        s.log.flatMap (readFrom pipe.opened)++(bytes++rest) := by
  have hs := hlog.seen _ pipe (objects_of_getObject ho (by simp)) rfl
  obtain ⟨caller,hstep⟩ := pipeReadRuns_step hr
  cases f with
  | leaves t => cases hf
  | returns t u r =>
    injection hf with hf
    subst hf
    obtain ⟨hmin,_,l,ht⟩ := pipeRead_result hs ho hl hr rfl (by unfold ERROR; omega)
    obtain ⟨c,v,hfin⟩ := finish_returns (s := t) caller u r
    refine ⟨l,contents pipe.buf r.toNat,segment pipe.buf r.toNat (pipe.len-r).toNat,?_,?_,?_⟩
    · rw [contents,List.length_map,List.length_range]
      omega
    · rw [hstep,hfin]
      exact ht
    · have hn : pipe.len.toNat=r.toNat+(pipe.len-r).toNat := by omega
      rw [←contents_add,←hn]
      exact hs.stream

/-- A loop that returns bytes has found a pipe. -/
theorem loop_object {caller : PcbPtr} {buf : ℕ} {u : UserContext}
    (hf : flowResult (pipeReadLoop M env caller id buf len u s)=some rc) (hrc : 0< rc) :
    ∃ pipe,getObject s id=.pipe pipe := by
  unfold pipeReadLoop at hf
  split at hf
  · rename_i pipe ho
    exact ⟨pipe,ho⟩
  · injection hf with hf
    rw [←hf] at hrc
    exact absurd hrc (by decide)

/-- A loop without a pipe fails. -/
theorem loop_gone {caller : PcbPtr} {buf : ℕ} {u : UserContext}
    (ho : openedBy (getObject s id)≠some .pipeInit) :
    flowResult (pipeReadLoop M env caller id buf len u s)=some ERROR := by
  unfold pipeReadLoop
  split
  · rename_i pipe hp
    rw [hp] at ho
    exact absurd rfl ho
  · rfl

/-- A read that returns bytes in the step of its trap. -/
theorem read_called {u : UserContext} (hlog : ∀ g,PipeLog g s) (hcpu : s.cpu=.user)
    (hv : u.vector=.kernel) (hcall : M.syscallOf u.code=.pipeRead)
    (hret : returnValue M env s (.trap u)=some rc) (hrc : 0< rc) :
    ∃ pipe l bytes rest,getObject s (u.int 0)=.pipe pipe ∧ (bytes.length : ℤ)=rc ∧
      (kernelStep M env s (.trap u)).log=s.log++l++[.pipeReturned pipe.opened bytes] ∧
      s.log.flatMap (wroteTo pipe.opened)=
        s.log.flatMap (readFrom pipe.opened)++(bytes++rest) := by
  have hflow : stepFlow M env s (.trap u)=sysPipeRead M env s.currentProcess (u.int 0) (u.ptr 1)
      (u.int 2) u (saveContext u s) := by
    dsimp only [stepFlow,callFlow]
    rw [hcall]
  have hf := hret
  unfold returnValue at hf
  rw [hflow] at hf
  have hfound : 0<u.int 2 ∧ ∃ pipe,getObject (saveContext u s) (u.int 0)=.pipe pipe := by
    have hf' := hf
    unfold sysPipeRead at hf'
    split at hf'
    · injection hf' with hf'
      rw [←hf'] at hrc
      exact absurd hrc (by decide)
    · split at hf'
      · injection hf' with hf'
        omega
      · split at hf'
        · injection hf' with hf'
          rw [←hf'] at hrc
          exact absurd hrc (by decide)
        · exact ⟨by omega,loop_object hf' hrc⟩
  obtain ⟨hl,pipe,ho⟩ := hfound
  have ho' : getObject s (u.int 0)=.pipe pipe := by
    unfold getObject at ho ⊢
    rw [(saveContext_objects u).1] at ho
    exact ho
  obtain ⟨l,bytes,rest,hres⟩ := read_bytes (hlog _) (.call u hcpu hv hcall) hl ho' hf hrc
  exact ⟨pipe,l,bytes,rest,ho',hres⟩

end Reading

section Resuming

/-- A stopped PipeRead with the pipe it was called with. -/
theorem read_inside (hw : Watched M s g) (hn : Named True s.currentProcess s g)
    (hcpu : s.cpu=.kernel) (hg : g s.currentProcess=some e) (hv : e.context.vector=.kernel)
    (hcall : M.syscallOf e.context.code=.pipeRead) :
    ∃ buf len g₁ pipe,
      (s.kernelContext s.currentProcess).point=.pipeRead (e.context.int 0) buf len g₁ ∧
      e.objects (e.context.int 0).toNat=.pipe pipe ∧ pipe.opened=g₁ := by
  have hstop := resumed_inside hw hcpu hg hv (by rw [hcall]; simp)
  rcases stopped_call hstop with hpc|⟨_,_,_,hc⟩
  · rw [hcall] at hpc
    cases hk : (s.kernelContext s.currentProcess).point with
    | pipeRead id buf len g₁ =>
      obtain ⟨hs,hd⟩ := hn.inside hw hw.ready.current_live hg (by rw [hk]; trivial)
        (by rw [hk]; trivial)
      rw [hk] at hs hd
      obtain ⟨_,hid,_⟩ := hs
      subst hid
      obtain ⟨pipe,ho,hp⟩ := hd
      exact ⟨buf,len,g₁,pipe,rfl,ho,hp⟩
    | _ =>
      rw [hk] at hpc
      cases hpc
  · rw [hcall] at hc
    rcases hc with hc|⟨hc,_⟩
    · cases hc
    · cases hc

/-- CvarWait fails without its condition variable or its lock. -/
theorem wait_fails {caller : PcbPtr} {lockId : ℤ} {u : UserContext}
    (h : openedBy (getObject s id)≠some .cvarInit ∨
      openedBy (getObject s lockId)≠some .lockInit) :
    flowResult (cvarWaitResume M env caller id lockId u s)=some ERROR := by
  unfold cvarWaitResume
  split
  · rename_i c hc
    have hl := h.resolve_left (fun hn => hn (by rw [hc]; rfl))
    unfold lockAcquire
    split
    · rename_i l ho
      rw [ho] at hl
      exact absurd rfl hl
    · rfl
  · rfl

/-- CvarWait does not succeed in the step of its trap. -/
theorem wait_not_at_once {u : UserContext} (hcall : M.syscallOf u.code=.cvarWait) :
    returnValue M env s (.trap u)≠some SUCCESS := by
  unfold returnValue stepFlow callFlow
  dsimp only
  rw [hcall]
  dsimp only [sysCvarWait]
  split
  · split
    · simp [flowResult,ERROR,SUCCESS]
    · simp [flowResult]
  · simp [flowResult,ERROR,SUCCESS]

/-- An object that CvarInit has opened. -/
theorem opened_cvar {o : IpcObject} (h : openedBy o=some .cvarInit) : ∃ c,o=.cvar c := by
  cases o with
  | cvar c => exact ⟨c,rfl⟩
  | free => cases h
  | pipe pipe => cases h
  | lock l => cases h

/-- An object that LockInit has opened. -/
theorem opened_lock {o : IpcObject} (h : openedBy o=some .lockInit) : ∃ l,o=.lock l := by
  cases o with
  | lock l => exact ⟨l,rfl⟩
  | free => cases h
  | pipe pipe => cases h
  | cvar c => cases h

/-- A waiter that goes on when one of its objects is gone. -/
theorem wait_missing {lockId : ℤ} {g₁ g₂ : ℕ} (hw : Watched M s g)
    (hr : RefOk (Watching True) True s.currentProcess s.live s.kernelContext s.objects)
    (hk : (s.kernelContext s.currentProcess).point=.cvarWait id lockId g₁ g₂)
    (h : openedBy (s.objects id.toNat)≠some .cvarInit ∨
      openedBy (s.objects lockId.toNat)≠some .lockInit) :
    returnValue M env s .resume=some ERROR := by
  have href := hr hw.ready.current_live (by rw [hk]; trivial)
  rw [hk] at href
  obtain ⟨⟨h0,hm,_⟩,hl0,hlm,_⟩ := href
  have hc : getObject (s.setKernelContext s.currentProcess ⟨s.currentProcess,.executing⟩) id=
      s.objects id.toNat := lookup_eq h0 hm
  have hl : getObject (s.setKernelContext s.currentProcess ⟨s.currentProcess,.executing⟩) lockId=
      s.objects lockId.toNat := lookup_eq hl0 hlm
  unfold returnValue stepFlow resumeFlow
  dsimp only
  rw [hk]
  refine wait_fails ?_
  rw [hc,hl]
  exact h

/-- A waiter that goes on behind its condition variable when an object is gone. -/
theorem wait_gone {lockId : ℤ} {g₁ g₂ : ℕ} (hw : Watched M s g)
    (hr : RefOk (Watching True) True s.currentProcess s.live s.kernelContext s.objects)
    (hn : Named True s.currentProcess s g) (hg : g s.currentProcess=some e)
    (hk : (s.kernelContext s.currentProcess).point=.cvarWait id lockId g₁ g₂)
    (hgone : ¬SameObject (lookup e.objects (e.context.int 0)) (lookup s.objects (e.context.int 0)) ∨
      ¬SameObject (lookup e.objects (e.context.int 1)) (lookup s.objects (e.context.int 1))) :
    returnValue M env s .resume=some ERROR := by
  have hlive := hw.ready.current_live
  have hwatch : Watching True (s.kernelContext s.currentProcess).point := by rw [hk]; trivial
  obtain ⟨hstop,hden⟩ := hn.inside hw hlive hg (by rw [hk]; trivial) hwatch
  have href := hr hlive hwatch
  rw [hk] at hstop href hden
  obtain ⟨_,hid,hlk⟩ := hstop
  subst hid hlk
  obtain ⟨⟨h0,hm,hc⟩,hl0,hlm,hl⟩ := href
  obtain ⟨⟨c₀,hc₀,hcs⟩,l₀,hl₀,hls⟩ := hden
  refine wait_missing hw hr hk ?_
  rw [lookup_eq h0 hm,lookup_eq h0 hm,lookup_eq hl0 hlm,lookup_eq hl0 hlm] at hgone
  rcases hgone with hgone|hgone
  · rcases hc with ⟨_,hc⟩|⟨c,hc,hcg⟩
    · exact .inl hc
    · refine absurd ?_ hgone
      rw [hc₀,hc]
      exact hcs.trans hcg.symm
  · rcases hl with ⟨_,hl⟩|⟨l,hl,hlg,_⟩
    · exact .inr hl
    · refine absurd ?_ hgone
      rw [hl₀,hl]
      exact hls.trans hlg.symm

/-- The lock of an acquirer is not gone. -/
theorem acquire_kept (hw : Watched M s g) (hn : Named True s.currentProcess s g)
    (hg : g s.currentProcess=some e) (hcall : M.syscallOf e.context.code=.cvarWait)
    {g₁ : ℕ} (hk : (s.kernelContext s.currentProcess).point=.acquire id g₁) :
    SameObject (lookup e.objects (e.context.int 1)) (lookup s.objects (e.context.int 1)) := by
  obtain ⟨hstop,hden⟩ := hn.inside hw hw.ready.current_live hg (by rw [hk]; trivial)
    (by rw [hk]; trivial)
  rw [hk] at hstop hden
  have hid : id=e.context.int 1 := by
    rcases hstop with ⟨ha,_⟩|⟨_,hid⟩
    · rw [hcall] at ha
      cases ha
    · exact hid
  subst hid
  obtain ⟨l₀,hl₀,hs₀⟩ := hden
  obtain ⟨h0,hm,l,hl,hs,_⟩ := hw.lock.acquirer _ _ g₁ hw.ready.current_live hk
  rw [lookup_eq h0 hm,lookup_eq h0 hm,hl₀,hl]
  exact hs₀.trans hs.symm

variable (hw : Watched M s g) (hcpu : s.cpu=.kernel)
  (hr : RefOk (Watching True) True s.currentProcess s.live s.kernelContext s.objects)
  (hn : Named True s.currentProcess s g) (hg : g s.currentProcess=some e)

include hw hcpu hr hn hg

/-- A read that returns bytes when it goes on. -/
theorem read_resumed (hlog : ∀ g,PipeLog g s) (hv : e.context.vector=.kernel)
    (hcall : M.syscallOf e.context.code=.pipeRead)
    (hret : returnValue M env s .resume=some rc) (hrc : 0< rc) :
    ∃ pipe l bytes rest,lookup e.objects (e.context.int 0)=.pipe pipe ∧ (bytes.length : ℤ)=rc ∧
      (kernelStep M env s .resume).log=s.log++l++[.pipeReturned pipe.opened bytes] ∧
      s.log.flatMap (wroteTo pipe.opened)=
        s.log.flatMap (readFrom pipe.opened)++(bytes++rest) := by
  have hlive := hw.ready.current_live
  obtain ⟨buf,len,g₁,pipe₀,hk,ho₀,hop⟩ := read_inside hw hn hcpu hg hv hcall
  have href := hr hlive (by rw [hk]; trivial)
  have hlen := hw.saved.point _ hlive
  rw [hk] at href hlen
  unfold returnValue stepFlow resumeFlow at hret
  dsimp only at hret
  rw [hk] at hret
  obtain ⟨pipe,ho⟩ := loop_object hret hrc
  have ho' : getObject s (e.context.int 0)=.pipe pipe := ho
  have hsame := Still.pipe href (objects_of_getObject ho' (by simp))
  obtain ⟨l,bytes,rest,hres⟩ := read_bytes (hlog _) (.resumed _ buf len g₁ hcpu hk) hlen ho' hret
    hrc
  rw [hsame.trans hop.symm] at hres
  exact ⟨pipe₀,l,bytes,rest,(lookup_eq href.1 href.2.1).trans ho₀,hres⟩

/-- A read that goes on when its pipe is gone. -/
theorem read_gone (hv : e.context.vector=.kernel) (hcall : M.syscallOf e.context.code=.pipeRead)
    (hgone : ¬SameObject (lookup e.objects (e.context.int 0))
      (lookup s.objects (e.context.int 0))) :
    returnValue M env s .resume=some ERROR := by
  obtain ⟨buf,len,g₁,pipe₀,hk,ho₀,hop⟩ := read_inside hw hn hcpu hg hv hcall
  have href := hr hw.ready.current_live (by rw [hk]; trivial)
  rw [hk] at href
  obtain ⟨h0,hm,hd⟩ := href
  have hopened : openedBy (s.objects (e.context.int 0).toNat)≠some .pipeInit := by
    rcases hd with ⟨_,hd⟩|⟨pipe,ho,hp⟩
    · exact hd
    · refine absurd ?_ hgone
      rw [lookup_eq h0 hm,lookup_eq h0 hm,ho₀,ho]
      exact hop.trans hp.symm
  unfold returnValue stepFlow resumeFlow
  dsimp only
  rw [hk]
  refine loop_gone ?_
  have hget : getObject (s.setKernelContext s.currentProcess ⟨s.currentProcess,.executing⟩)
      (e.context.int 0)=s.objects (e.context.int 0).toNat := lookup_eq h0 hm
  rw [hget]
  exact hopened

/-- A CvarWait that succeeds when it goes on. -/
theorem wait_succeeds (hv : e.context.vector=.kernel)
    (hcall : M.syscallOf e.context.code=.cvarWait)
    (hret : returnValue M env s .resume=some SUCCESS) :
    ∃ l,lookup (kernelStep M env s .resume).objects (e.context.int 1)=.lock l ∧
      l.owner=s.currentProcess ∧ SameObject (lookup e.objects (e.context.int 1)) (.lock l) := by
  have hreg : Regains M e s.currentProcess (returnValue M env s .resume)
      (kernelStep M env s .resume) := by
    rcases wait_points hw hcpu hg hv hcall with ⟨id,lockId,g₁,g₂,hk⟩|⟨id,g₁,hk⟩
    · by_cases hgone : openedBy (s.objects id.toNat)=some .cvarInit ∧
        openedBy (s.objects lockId.toNat)=some .lockInit
      · obtain ⟨c,hc⟩ := opened_cvar hgone.1
        obtain ⟨l,hl⟩ := opened_lock hgone.2
        exact wait_goes hw hr hn hg hk hc hl
      · rw [not_and_or] at hgone
        rw [wait_missing hw hr hk hgone] at hret
        cases hret
    · exact acquire_resumed hw hcpu hn hg hcall hk
  rw [hret] at hreg
  obtain ⟨_,_,_,l,l₀,hl,how,hl₀,hop⟩ := hreg
  refine ⟨l,hl,how,?_⟩
  rw [hl₀]
  exact hop.symm

end Resuming

section Runs

/-- No initialising call gets a number that a stopped PipeRead or CvarWait has
kept for an object of that type, writes fit into their pipes, and
KernelContextSwitch switches contexts. -/
def IdsKept (M : Machine) (s : Kernel) (env : Env) (input : Input) : Prop :=
  (env.switchOk=true ∧ ∀ g,WritesFit M g s input) ∧
    ∀ u i,input=.trap u → u.vector=.kernel → allocObject s=some i → u.ptr 0≠0 →
      (M.syscallOf u.code=.pipeInit → env.malloc 0=true) → ∀ p,s.live p=true →
      ¬Refers (s.kernelContext p).point (M.syscallOf u.code) i

/-- The labels of such runs. -/
def Unreferred : Label → Prop
  | .opens i c live saved => ∀ p,live p=true → ¬Refers (saved p).point c i
  | _ => True

/-- The condition on a step restricts its labels. -/
theorem idsKept_allowed (h : IdsKept M s env input) : StepAllowed M Unreferred s env input := by
  intro x hx
  cases hx with
  | opens u i hv hi hp hm => exact h.2 u i rfl hv hi hp hm
  | _ => trivial

/-- In every run in which no number that a stopped PipeRead or CvarWait has
kept is handed out for a new object of that type, every byte that a PipeRead
returns was written to the very pipe that the call named, every CvarWait that
returns SUCCESS has acquired the very lock that it named, and a call whose
object was reclaimed before it goes on returns ERROR. -/
theorem run_identity (h : EntryRun M (IdsKept M) s g) (he : input.Enabled s) :
    KeepsIdentity M env s g input := by
  have hw : Watched M s g := run_watched (fun s env input hs => hs.1.1) h
  have hlog : ∀ n,PipeLog n s := fun n =>
    run_pipeLog (h.run.mono (fun _ hb => hb) (fun s env input hs => ⟨hs.1.1,hs.1.2 n⟩))
  obtain ⟨hr,hn⟩ := @run_named M s s.currentProcess True Unreferred g True _
    (fun s env input hs => ⟨hs.1.1,idsKept_allowed hs⟩)
    (fun i c live saved ha hl _ _ => ha _ hl) (fun _ _ _ _ _ _ hf => absurd trivial hf) h
  refine ⟨?_,?_,?_,?_,?_⟩
  · intro e rc hg hv hcall hret hrc
    cases input with
    | trap u =>
      rw [show entered s g (.trap u) s.currentProcess=some ⟨u,s.objects⟩ from
        if_pos (.inl rfl)] at hg
      injection hg with hg
      subst hg
      exact read_called hlog he hv hcall hret hrc
    | resume => exact read_resumed hw he hr hn hg hlog hv hcall hret hrc
  · intro e hg hv hcall hret
    cases input with
    | trap u =>
      rw [show entered s g (.trap u) s.currentProcess=some ⟨u,s.objects⟩ from
        if_pos (.inl rfl)] at hg
      injection hg with hg
      subst hg
      exact absurd hret (wait_not_at_once hcall)
    | resume => exact wait_succeeds hw he hr hn hg hv hcall hret
  · rintro e rfl hg hv hcall hgone
    exact read_gone hw he hr hn hg hv hcall hgone
  · rintro e rfl hg hv hcall hgone
    rcases wait_points hw he hg hv hcall with ⟨id,lockId,g₁,g₂,hk⟩|⟨id,g₁,hk⟩
    · exact wait_gone hw hr hn hg hk (.inr hgone)
    · exact absurd (acquire_kept hw hn hg hcall hk) hgone
  · rintro e rfl hg hv ⟨id,lockId,g₁,g₂,hk⟩ hgone
    exact wait_gone hw hr hn hg hk (.inl hgone)

/-- Steps that write no more bytes than fit. -/
theorem fitTest_all (s : Kernel) (env : Env) (input : Input) (h : fitTest s env input=true) :
    env.switchOk=true ∧ ∀ g,WritesFit M g s input :=
  ⟨(fitTest_sound (M := M) 0 s env input h).1,fun g => (fitTest_sound g s env input h).2⟩

/-- The initial process, stopped in PipeRead on number zero, goes on and gets
two bytes. -/
def readsTwo (s : Kernel) (g : PcbPtr → Option Entry) : Bool :=
  match g 2 with
  | some e => decide (s.cpu=.kernel ∧ s.currentProcess=2 ∧ e.context.vector=.kernel ∧
      objectMachine.syscallOf e.context.code=.pipeRead ∧ e.context.int 0=0 ∧
      returnValue objectMachine (sampleEnv 0 0) s .resume=some 2)
  | none => false

/-- What the test has found. -/
theorem readsTwo_entry (h : readsTwo s g=true) :
    s.cpu=.kernel ∧ s.currentProcess=2 ∧
      returnValue objectMachine (sampleEnv 0 0) s .resume=some 2 ∧
      ∃ e,g 2=some e ∧ e.context.vector=.kernel ∧
        objectMachine.syscallOf e.context.code=.pipeRead ∧ e.context.int 0=0 := by
  unfold readsTwo at h
  split at h
  · rename_i e he
    obtain ⟨hcpu,hcur,hv,hc,h0,hret⟩ := of_decide_eq_true h
    exact ⟨hcpu,hcur,hret,e,he,hv,hc,h0⟩
  · cases h

/-- Another pipe has number zero than when the initial process entered. -/
def reused (s : Kernel) (g : PcbPtr → Option Entry) : Bool :=
  match g 2 with
  | some e =>
    match e.objects 0,s.objects 0 with
    | .pipe a,.pipe b => decide (a.opened≠b.opened)
    | _,_ => false
  | none => false

/-- The two pipes are different objects. -/
theorem reused_gone (h : reused s g=true) (hg : g 2=some e) (h0 : e.context.int 0=0) :
    ¬SameObject (lookup e.objects (e.context.int 0)) (lookup s.objects (e.context.int 0)) := by
  unfold reused at h
  rw [hg] at h
  dsimp only at h
  split at h
  · rename_i a b ha hb
    rw [h0]
    change ¬SameObject (e.objects 0) (s.objects 0)
    rw [ha,hb]
    have hne : a.opened≠b.opened := of_decide_eq_true h
    exact hne
  · cases h

/-- A reader waits on pipe zero. Its child writes a byte, which wakes it,
reclaims the pipe, opens another one, which gets number zero again, and writes
two bytes to that. The reader goes on and returns the two bytes. -/
theorem reused_not_identity : ∃ s g,EntryRun objectMachine
      (fun s env input => env.switchOk=true ∧ ∀ g,WritesFit objectMachine g s input) s g ∧
    Input.resume.Enabled s ∧ returnValue objectMachine (sampleEnv 0 0) s .resume=some 2 ∧
    ¬KeepsIdentity objectMachine (sampleEnv 0 0) s g .resume := by
  obtain ⟨s,g,hr,hp⟩ := replayEntries_exists fitTest_all (.boot objectBoot objectBoot_user)
    [callInput 10 0x105000 0 0,forkInput 3 2,callInput 11 0 0x105000 8,resumeInput,
    callInput 12 0 0x105000 1,
      callInput 20 0 0 0,callInput 10 0x105000 0 0,callInput 12 0 0x105002 2,tickInput]
    (fun s g => readsTwo s g && reused s g) (by decide +kernel)
  obtain ⟨hread,hreused⟩ := Bool.and_eq_true_iff.1 hp
  obtain ⟨hcpu,hcur,hret,e,he,hv,hc,h0⟩ := readsTwo_entry hread
  refine ⟨s,g,hr,hcpu,hret,fun hk => ?_⟩
  have herr := hk.pipeGone e rfl (by rw [hcur]; exact he) hv hc (reused_gone hreused he h0)
  rw [hret] at herr
  cases herr

/-- Nothing is referred to behind the boot. -/
theorem booted_unreferred {b : Boot M} (hu : (kernelStart M b).cpu=.user) {c : Syscall} {i : ℕ}
    (hl : (kernelStart M b).live p=true) :
    ¬Refers ((kernelStart M b).kernelContext p).point c i := by
  obtain ⟨p₀,q,pfn,pfns,m₁,m₂,m,v,u,hf,he⟩ := kernelStart_eq hu
  rw [he] at hl ⊢
  rcases booted_live.1 hl with rfl|rfl
  · rw [booted_executing]
    exact id
  · rw [booted_idle hf.ne]
    exact id

/-- A test that nothing is opened and writes fit. -/
def idsTest (s : Kernel) (env : Env) (input : Input) : Bool :=
  fitTest s env input && match input with
    | .trap u => decide (objectMachine.syscallOf u.code≠.pipeInit ∧
        objectMachine.syscallOf u.code≠.lockInit ∧ objectMachine.syscallOf u.code≠.cvarInit)
    | .resume => true

/-- Only the calls that create objects are among those a stopped call refers by. -/
theorem refers_opening {n : KernelPoint} {c : Syscall} {i : ℕ} (h : Refers n c i) :
    c=.pipeInit ∨ c=.lockInit ∨ c=.cvarInit := by
  cases n with
  | pipeRead id buf len g => exact .inl h.1
  | cvarWait id lockId g g' => exact .inr (h.elim (fun h => .inr h.1) (fun h => .inl h.1))
  | _ => exact h.elim

/-- Steps that pass the test hand out no numbers. -/
theorem idsTest_kept (s : Kernel) (env : Env) (input : Input) (h : idsTest s env input=true) :
    IdsKept objectMachine s env input := by
  obtain ⟨hf,ho⟩ := Bool.and_eq_true_iff.1 h
  refine ⟨fitTest_all s env input hf,?_⟩
  rintro u i rfl _ _ _ _ p _ hr
  obtain ⟨h₁,h₂,h₃⟩ := of_decide_eq_true ho
  rcases refers_opening hr with hc|hc|hc
  · exact h₁ hc
  · exact h₂ hc
  · exact h₃ hc

/-- A reader waits on pipe zero, its child writes two bytes, and the reader
gets bytes of that pipe. -/
theorem run_identity_read : ∃ s g,EntryRun objectMachine (IdsKept objectMachine) s g ∧
    Input.resume.Enabled s ∧ returnValue objectMachine (sampleEnv 0 0) s .resume=some 2 ∧
    ∃ e pipe l bytes,g 2=some e ∧ e.objects 0=.pipe pipe ∧ bytes.length=2 ∧
      (kernelStep objectMachine (sampleEnv 0 0) s .resume).log=
        s.log++l++[.pipeReturned pipe.opened bytes] := by
  have hopen : EntryRun objectMachine (IdsKept objectMachine)
      (kernelStep objectMachine (sampleEnv 0 0) (kernelStart objectMachine objectBoot)
        (.trap (sampleContext .kernel 10 0x105000 0 0)))
      (entered (kernelStart objectMachine objectBoot) (fun _ => none)
        (.trap (sampleContext .kernel 10 0x105000 0 0))) := by
    refine .step _ _ (.boot objectBoot objectBoot_user) objectBoot_user
      ⟨fitTest_all _ _ _ (by decide +kernel),?_⟩
    intro u i _ _ _ _ _ p hl
    exact booted_unreferred objectBoot_user hl
  obtain ⟨s,g,hrun,hp⟩ := replayEntries_exists idsTest_kept hopen [forkInput 3 2,
    callInput 11 0 0x105000 8,resumeInput,callInput 12 0 0x105000 2,tickInput] readsTwo
    (by decide +kernel)
  obtain ⟨hcpu,hcur,hret,e,he,hv,hc,h0⟩ := readsTwo_entry hp
  have hk : KeepsIdentity objectMachine (sampleEnv 0 0) s g .resume := run_identity hrun hcpu
  obtain ⟨pipe,l,bytes,rest,ho,hlen,hlog,_⟩ :=
    hk.read e 2 (by rw [hcur]; exact he) hv hc hret (by decide)
  rw [h0] at ho
  exact ⟨s,g,hrun,hcpu,hret,e,pipe,l,bytes,he,ho,by omega,hlog⟩

end Runs

end Yalnix.ObjectIdentity
