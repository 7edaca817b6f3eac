import Yalnix.ObjectIdentity

/-!
# Errors of CvarWait

CvarWait fails before it gives its lock up, when an argument is wrong, or when
it goes on and one of its objects has been reclaimed. In the first case the
caller keeps its lock. In the second it does not get it back: while it is
stopped, no lock with the number it will acquire can become its property.
-/

namespace Yalnix.WaitErrors

open Framework FrameTable KernelState Scheduling Ipc Terminals ProcessLifetime ProgramLoading
open Syscalls Traps KernelStart Coherence Operations OperationCoherence StepOperations
open CallOperations RunInvariants Traces LockHandoff
open KernelEntries ProcessIsolation UserContexts ObjectReferences ConditionVariables ObjectIdentity

variable {M : Machine} {env : Env} {s t : Kernel} {p q : PcbPtr} {k : KernelContext}
  {objects : ℕ → IpcObject} {live : PcbPtr → Bool} {saved : PcbPtr → KernelContext} {o : IpcObject}
  {i : ℕ} {allow : Label → Prop} {input : Input} {g : PcbPtr → Option Entry} {e : Entry}
  {id lockId : ℤ} {g₁ g₂ : ℕ}

section Waiting

/-- The numbers of a stopped CvarWait are in the table, and the process does not
own what is a lock there. -/
def Parted (p : PcbPtr) (objects : ℕ → IpcObject) : KernelPoint → Prop
  | .cvarWait id lockId _ _ => (0≤ id ∧ id<IPC_MAX_OBJECTS) ∧
    (0≤lockId ∧ lockId<IPC_MAX_OBJECTS) ∧ ∀ l,objects lockId.toNat=.lock l → l.owner≠p
  | _ => True

/-- Every stopped CvarWait is parted from its lock. -/
def PartedOk (live : PcbPtr → Bool) (saved : PcbPtr → KernelContext)
    (objects : ℕ → IpcObject) : Prop :=
  ∀ p,live p=true → Parted p objects (saved p).point

/-- A process saves another stack. -/
theorem PartedOk.setSaved (h : PartedOk live saved objects) (hk : Parted q objects k.point) :
    PartedOk live (Function.update saved q k) objects := by
  intro p hl
  by_cases hp : p=q
  · rw [hp,Function.update_self]
    exact hk
  · rw [Function.update_of_ne hp]
    exact h p hl

/-- A process comes into being. -/
theorem PartedOk.birth (h : PartedOk live saved objects) (hk : Parted q objects k.point) :
    PartedOk (Function.update live q true) (Function.update saved q k) objects := by
  intro p hl
  by_cases hp : p=q
  · rw [hp,Function.update_self]
    exact hk
  · rw [Function.update_of_ne hp] at hl ⊢
    exact h p hl

/-- A process that is destroyed waits for nothing. -/
theorem PartedOk.death (h : PartedOk live saved objects) :
    PartedOk (Function.update live q false) saved objects := by
  intro p hl
  by_cases hp : p=q
  · rw [hp,Function.update_self] at hl
    cases hl
  · rw [Function.update_of_ne hp] at hl
    exact h p hl

/-- An entry of the table changes and is no lock of a stopped CvarWait. -/
theorem PartedOk.setObject (h : PartedOk live saved objects)
    (ho : ∀ l,o=.lock l → ∀ p,live p=true →
      (∃ id lockId g g',(saved p).point=.cvarWait id lockId g g') → l.owner≠p) :
    PartedOk live saved (Function.update objects i o) := by
  intro p hl
  have hp := h p hl
  cases hn : (saved p).point with
  | cvarWait id lockId g g' =>
    rw [hn] at hp
    refine ⟨hp.1,hp.2.1,fun l hlock => ?_⟩
    by_cases hi : lockId.toNat=i
    · rw [hi,Function.update_self] at hlock
      exact ho l hlock p hl ⟨id,lockId,g,g',hn⟩
    · rw [Function.update_of_ne hi] at hlock
      exact hp.2.2 l hlock
  | _ => trivial

/-- Every operation leaves a stopped CvarWait without its lock. -/
theorem op_partedOk {b : Bool} (hc : Coherent M s)
    (h : PartedOk s.live s.kernelContext s.objects) (hop : Op M allow b s t) :
    PartedOk t.live t.kernelContext t.objects := by
  have hsave : ∀ {q k},(∀ p,Parted p s.objects k.point) →
      PartedOk s.live (Function.update s.kernelContext q k) s.objects :=
    fun hk => h.setSaved (hk _)
  have hplain : ∀ {i o},(∀ l,o≠.lock l) →
      PartedOk s.live s.kernelContext (Function.update s.objects i o) :=
    fun hn => h.setObject (fun l hl => absurd hl (hn l))
  cases hop with
  | begin hr hl hn => exact hsave (fun _ => trivial)
  | preempt ha => exact hsave (fun _ => trivial)
  | dispatch env hs =>
    have he := dispatchNext_eq hc hs
    rw [he]
    dsimp only
    exact h
  | forkUndone env c pfns pt m₁ m u ha hcp =>
    obtain ⟨h0,hl⟩ := callocPcb_fresh hcp
    rw [destroyed_child hc h0 hl]
    refine PartedOk.death (PartedOk.birth h ?_)
    rw [ha.executing]
    trivial
  | spawn env caller c pfns pt m₁ m u hb =>
    rw [spawn_eq]
    exact h.birth trivial
  | unlock i l ha ho how =>
    refine h.setObject (fun l' hl p hlive _ => ?_)
    injection hl with hl
    rw [←hl]
    exact (hc.ready.ne_null hlive).symm
  | handOff i l w rest u ha ho how hq =>
    have he : (grantLock i l w (markReady {clearOwner i l s with
        queue := Function.update s.queue (.lockWaiters i) rest
        blockQueue := Function.update s.blockQueue w none
        userContext := Function.update s.userContext w u
        log := s.log++[.lockReleased l.opened l.owner,.woken w (.pop (.lockWaiters i))]}
        w)).objects=Function.update s.objects i (.lock {l with owner := w}) := by
      dsimp only [grantLock,markReady,clearOwner]
      rw [Function.update_idem]
    rw [he]
    refine h.setObject (fun l' hl p hlive hk => ?_)
    injection hl with hl
    rw [←hl]
    rintro rfl
    obtain ⟨id,lockId,g,g',hk⟩ := hk
    obtain ⟨_,_,ha',_⟩ := hc.lock.queued i w (by rw [hq]; exact List.mem_cons_self)
    rw [hk] at ha'
    cases ha'
  | zombie status k env m v hk => exact hsave (fun _ => by rw [hk]; trivial)
  | zombieWake status k env m v hk => exact hsave (fun _ => by rw [hk]; trivial)
  | collect statusPtr c ha hch hz =>
    rw [collectChild_eq hc ha statusPtr hch hz]
    exact h.death
  | blockDelay ticks k u hk => exact hsave (fun _ => by rw [hk]; trivial)
  | blockChild statusPtr k u hk => exact hsave (fun _ => by rw [hk]; trivial)
  | blockPipe id buf len pipe k u hk => exact hsave (fun _ => by rw [hk]; trivial)
  | blockLock id l k u hk => exact hsave (fun _ => by rw [hk]; trivial)
  | blockCvar id lockId cvar lockOpened k u hk hb ho hl =>
    refine h.setSaved ?_
    obtain ⟨l,hlk,hg,hn⟩ := hl
    obtain ⟨h0,hm,_⟩ := getObject_bounds (show getObject s id≠.free by rw [ho]; simp)
    obtain ⟨hl0,hlm,_⟩ := getObject_bounds (show getObject s lockId≠.free by rw [hlk]; simp)
    rw [hk]
    refine ⟨⟨h0,hm⟩,⟨hl0,hlm⟩,fun l' hl' => ?_⟩
    rw [objects_of_getObject hlk (by simp)] at hl'
    injection hl' with hl'
    rw [←hl']
    exact hn
  | blockRead i k u hk => exact hsave (fun _ => by rw [hk]; trivial)
  | startWrite env i buf len k u hk => exact hsave (fun _ => by rw [hk]; trivial)
  | queueWrite env i buf len k u hk => exact hsave (fun _ => by rw [hk]; trivial)
  | writeDone i len => exact hsave (fun _ => trivial)
  | openPipe env i hi hf ho => exact hplain (fun _ => by simp)
  | openLock i hi hf ho =>
    refine h.setObject (fun l' hl p hlive _ => ?_)
    injection hl with hl
    rw [←hl]
    exact (hc.ready.ne_null hlive).symm
  | openCvar i hi hf ho => exact hplain (fun _ => by simp)
  | takeBytes i pipe len ho => exact hplain (fun _ => by simp)
  | putBytes env i pipe grown buf len ho hl hr hg => exact hplain (fun _ => by simp)
  | lockTake i l hb ho =>
    refine h.setObject (fun l' hl p hlive hk => ?_)
    injection hl with hl
    rw [←hl]
    rintro rfl
    obtain ⟨id,lockId,g,g',hk⟩ := hk
    rw [hb.toActive.executing] at hk
    cases hk
  | lockResume id l => exact hsave (fun _ => trivial)
  | reclaim i hu ho => exact hplain (fun _ => by simp)
  | takeHanded i line => exact hsave (fun _ => trivial)
  | _ => exact h

/-- Every state of every run. -/
theorem run_parted (h : Reachable M s) : PartedOk s.live s.kernelContext s.objects := by
  have hall : ∀ s env input,SwitchSucceeds s env input →
      env.switchOk=true ∧ StepAllowed M (fun _ => True) s env input :=
    fun s env input hs => ⟨hs,fun _ _ => trivial⟩
  refine (run_invariant (P := fun s => PartedOk s.live s.kernelContext s.objects) hall
    (fun b p₁ q₁ pfn pfns m₁ m₂ m v u _ hf p hl => ?_)
    (fun c s t hc hp hop => op_partedOk hc hp hop) h).2
  rcases booted_live.1 hl with rfl|rfl
  · rw [booted_executing]
    trivial
  · rw [booted_idle hf.ne]
    trivial

end Waiting

section Errors

/-- The second argument of a CvarWait is a lock of the caller. -/
def Owned (e : Entry) (p : PcbPtr) : Prop :=
  ∃ l,lookup e.objects (e.context.int 1)=.lock l ∧ l.owner=p

/-- Process p still owns the lock that it named. -/
def OwnsStill (e : Entry) (p : PcbPtr) (t : Kernel) : Prop :=
  ∃ l l₀,lookup t.objects (e.context.int 1)=.lock l ∧ l.owner=p ∧
    lookup e.objects (e.context.int 1)=.lock l₀ ∧ l.opened=l₀.opened

/-- A call that returns ERROR in a step leaves its caller the lock. -/
def KeepsLock (M : Machine) (env : Env) (s : Kernel) (e : Entry) (input : Input) : Prop :=
  returnValue M env s input=some ERROR → OwnsStill e s.currentProcess (kernelStep M env s input)

/-- The current process goes on in CvarWait and its condition variable or its
lock is no longer there. -/
def GoesOnWithout (s : Kernel) (input : Input) : Prop :=
  input=.resume ∧ ∃ id lockId g₁ g₂,
    (s.kernelContext s.currentProcess).point=.cvarWait id lockId g₁ g₂ ∧
    ((∀ c,lookup s.objects id≠.cvar c) ∨ ∀ l,lookup s.objects lockId≠.lock l)

/-- CvarWait that goes on without one of its objects does nothing. -/
theorem wait_without {caller : PcbPtr} {u : UserContext}
    (h : (∀ c,getObject s id≠.cvar c) ∨ ∀ l,getObject s lockId≠.lock l) :
    cvarWaitResume M env caller id lockId u s=.returns s u ERROR := by
  unfold cvarWaitResume
  split
  · rename_i c hc
    unfold lockAcquire
    split
    · rename_i l hl
      rcases h with h|h
      · exact absurd hc (h c)
      · exact absurd hl (h l)
    · rfl
  · rfl

/-- A CvarWait in the step of its trap. -/
theorem called_keeps {u : UserContext} (hv : u.vector=.kernel)
    (hcall : M.syscallOf u.code=.cvarWait) (hown : Owned ⟨u,s.objects⟩ s.currentProcess) :
    KeepsLock M env s ⟨u,s.objects⟩ (.trap u) := by
  intro hret
  obtain ⟨l,hl,how⟩ := hown
  obtain ⟨x,hx⟩ := saveContext_eq (s := s) u
  have hflow : stepFlow M env s (.trap u)=
      sysCvarWait M env s.currentProcess (u.int 0) (u.int 1) u (saveContext u s) := by
    dsimp only [stepFlow,callFlow]
    rw [hcall]
  have hgl : getObject (saveContext u s) (u.int 1)=.lock l := by
    rw [hx]
    exact hl
  unfold returnValue at hret
  rw [trap_step env hv (by rw [hcall]; simp)]
  rw [hflow] at hret ⊢
  unfold sysCvarWait at hret ⊢
  split at hret
  · rename_i c l' hgc hgl'
    rw [hgl] at hgl'
    injection hgl' with hgl'
    rw [if_neg (by rw [hx,←hgl']; simpa using how)] at hret
    cases hret
  · obtain ⟨c,v,hfin⟩ := finish_returns (s := saveContext u s) s.currentProcess u ERROR
    rw [hfin]
    refine ⟨l,l,?_,how,hl,rfl⟩
    dsimp only
    rw [hx]
    exact hl

/-- A CvarWait that goes on behind the condition variable. -/
theorem resumed_keeps (hw : Watched M s g) (hp : PartedOk s.live s.kernelContext s.objects)
    (hg : g s.currentProcess=some e)
    (hk : (s.kernelContext s.currentProcess).point=.cvarWait id lockId g₁ g₂) :
    KeepsLock M env s e .resume ↔ ¬GoesOnWithout s .resume := by
  have hlive := hw.ready.current_live
  obtain ⟨_,e',he',_,hstop⟩ := (hw.held _ hlive).call (by rw [hk]; trivial)
  rw [hg] at he'
  injection he' with he'
  subst he'
  have hpart := hp _ hlive
  rw [hk] at hstop hpart
  obtain ⟨_,_,hlk⟩ := hstop
  obtain ⟨⟨h0,hm⟩,⟨hl0,hlm⟩,hnot⟩ := hpart
  have hflow : stepFlow M env s .resume=cvarWaitResume M env
      (s.kernelContext s.currentProcess).caller id lockId (savedContext s)
      (s.setKernelContext s.currentProcess ⟨s.currentProcess,.executing⟩) := by
    dsimp only [stepFlow,resumeFlow]
    rw [hk]
    rfl
  by_cases hgone : (∀ c,lookup s.objects id≠.cvar c) ∨ ∀ l,lookup s.objects lockId≠.lock l
  · have hwithout : GoesOnWithout s .resume := ⟨rfl,id,lockId,g₁,g₂,hk,hgone⟩
    have hres : cvarWaitResume M env (s.kernelContext s.currentProcess).caller id lockId
        (savedContext s) (s.setKernelContext s.currentProcess ⟨s.currentProcess,.executing⟩)=
        .returns (s.setKernelContext s.currentProcess ⟨s.currentProcess,.executing⟩)
          (savedContext s) ERROR := wait_without hgone
    refine iff_of_false (fun hkeep => ?_) (fun hn => hn hwithout)
    obtain ⟨l,_,hl,how,_⟩ := hkeep (by unfold returnValue; rw [hflow,hres]; rfl)
    rw [resume_step,hflow,hres] at hl
    obtain ⟨c,v,hfin⟩ := finish_returns (s := s.setKernelContext s.currentProcess
      ⟨s.currentProcess,.executing⟩) (s.kernelContext s.currentProcess).caller (savedContext s)
      ERROR
    rw [hfin,←hlk,lookup_eq hl0 hlm] at hl
    exact hnot l hl how
  · refine iff_of_true (fun hret => ?_) ?_
    · rw [not_or,not_forall,not_forall] at hgone
      obtain ⟨⟨c,hc⟩,l,hl⟩ := hgone
      rw [not_not] at hc hl
      have hidle : ¬(s.currentProcess=0 ∨ s.currentProcess=s.idleProcess) := by
        rintro (h|h)
        · exact hw.ready.ne_null hlive h
        · have hi := hw.saved.idle
          rw [←h,hk] at hi
          rcases hi with hi|hi|hi <;> cases hi
      have hl' := hl
      rw [lookup_eq hl0 hlm] at hl'
      unfold returnValue at hret
      rw [hflow] at hret
      dsimp only [cvarWaitResume] at hret
      rw [show getObject (s.setKernelContext s.currentProcess ⟨s.currentProcess,.executing⟩) id=
        .cvar c from hc] at hret
      rcases lockAcquire_other M env (s := s.setKernelContext s.currentProcess
        ⟨s.currentProcess,.executing⟩) hidle hl (hnot l hl')
        (s.kernelContext s.currentProcess).caller (savedContext s) with ⟨k,x,_,he⟩|he
      · rw [he] at hret
        cases hret
      · rw [he] at hret
        cases hret
    · rintro ⟨_,id',lockId',_,_,hk',hno⟩
      rw [hk] at hk'
      injection hk' with hid hlid
      rw [←hid,←hlid] at hno
      exact hgone hno

/-- A CvarWait that goes on behind its lock succeeds. -/
theorem acquired_keeps (hw : Watched M s g) (hcpu : s.cpu=.kernel)
    (hk : (s.kernelContext s.currentProcess).point=.acquire id g₁) :
    KeepsLock M env s e .resume := by
  intro hret
  obtain ⟨hrun,_⟩ := hw.kernel hcpu
  obtain ⟨l,ho,_,how⟩ := lockAcquireResume_eq hw.toCoherent hrun hk
  have ho' : getObject (s.setKernelContext s.currentProcess ⟨s.currentProcess,.executing⟩) id=
      .lock l := ho
  unfold returnValue stepFlow resumeFlow at hret
  dsimp only at hret
  rw [hk] at hret
  dsimp only [lockAcquireResume] at hret
  rw [ho'] at hret
  have howner : l.owner=(s.setKernelContext s.currentProcess
    ⟨s.currentProcess,.executing⟩).currentProcess := how
  dsimp only at hret
  rw [if_pos howner] at hret
  cases hret

/-- In every step of every run in which a CvarWait that was called with a lock
of its caller is under way: that it leaves its caller the lock when it returns
ERROR holds exactly when it does not go on without one of its objects. -/
theorem run_waitErrors (M : Machine) (s : Kernel) (g : PcbPtr → Option Entry)
    (h : EntryRun M SwitchSucceeds s g) (env : Env) (input : Input) (he : input.Enabled s)
    (e : Entry) (hg : entered s g input s.currentProcess=some e) (hv : e.context.vector=.kernel)
    (hcall : M.syscallOf e.context.code=.cvarWait) (hown : Owned e s.currentProcess) :
    KeepsLock M env s e input ↔ ¬GoesOnWithout s input := by
  have hw : Watched M s g := run_watched (fun s env input hs => hs) h
  have hp := run_parted h.run
  cases input with
  | trap u =>
    rw [show entered s g (.trap u) s.currentProcess=some ⟨u,s.objects⟩ from if_pos (.inl rfl)] at hg
    injection hg with hg
    subst hg
    exact iff_of_true (called_keeps hv hcall hown) (fun hf => by cases hf.1)
  | resume =>
    have hge : g s.currentProcess=some e := hg
    rcases wait_points hw he hge hv hcall with ⟨id,lockId,g₁,g₂,hk⟩|⟨id,g₁,hk⟩
    · exact resumed_keeps hw hp hge hk
    · refine iff_of_true (acquired_keeps hw he hk) ?_
      rintro ⟨_,_,_,_,_,hk',_⟩
      rw [hk] at hk'
      cases hk'

/-- Whether an object is a lock of this process. -/
def ownedBy (p : PcbPtr) : IpcObject → Bool
  | .lock l => decide (l.owner=p)
  | _ => false

/-- An object for which the test holds is a lock of the process. -/
theorem of_ownedBy (h : ownedBy p o=true) : ∃ l,o=.lock l ∧ l.owner=p := by
  unfold ownedBy at h
  split at h
  · exact ⟨_,rfl,of_decide_eq_true h⟩
  · cases h

/-- The test is the condition on runs. -/
theorem switchTest_succeeds (s : Kernel) (env : Env) (input : Input)
    (h : switchTest s env input=true) : SwitchSucceeds s env input := h

/-- The initial process names a number without a condition variable and fails. -/
def failsAtOnce : Input := .trap (sampleContext .kernel 19 5 0 0)

/-- A CvarWait with a wrong argument leaves its caller the lock. -/
theorem run_waitErrors_argument : ∃ s g,EntryRun objectMachine SwitchSucceeds s g ∧
    failsAtOnce.Enabled s ∧ ∃ e,
    returnValue objectMachine (sampleEnv 0 0) s failsAtOnce=some ERROR ∧
    OwnsStill e s.currentProcess (kernelStep objectMachine (sampleEnv 0 0) s failsAtOnce) := by
  obtain ⟨s,g,hr,hp⟩ := replayEntries_exists switchTest_succeeds
    (.boot objectBoot objectBoot_user) [callInput 13 0x105000 0 0,callInput 14 0 0 0]
    (fun s _ => decide (s.cpu=.user ∧ s.currentProcess=2 ∧
      returnValue objectMachine (sampleEnv 0 0) s failsAtOnce=some ERROR) && ownedBy 2
      (s.objects 0))
    (by decide +kernel)
  obtain ⟨hd,ho⟩ := Bool.and_eq_true_iff.1 hp
  obtain ⟨hcpu,hcur,hret⟩ := of_decide_eq_true hd
  obtain ⟨l,hl,how⟩ := of_ownedBy ho
  have hown : Owned ⟨sampleContext .kernel 19 5 0 0,s.objects⟩ s.currentProcess := by
    rw [hcur]
    exact ⟨l,hl,how⟩
  have hkeeps := (run_waitErrors objectMachine s g hr (sampleEnv 0 0) failsAtOnce hcpu _
    (if_pos (.inl rfl)) rfl rfl hown).2 (fun hf => by cases hf.1)
  exact ⟨s,g,hr,hcpu,_,hret,hkeeps hret⟩

/-- The initial process, stopped in CvarWait with the lock of number zero,
returns ERROR and does not own it. -/
def losesLock (s : Kernel) (g : PcbPtr → Option Entry) : Bool :=
  match g 2 with
  | some e => decide (s.cpu=.kernel ∧ s.currentProcess=2 ∧ e.context.vector=.kernel ∧
      objectMachine.syscallOf e.context.code=.cvarWait ∧ e.context.int 1=0 ∧
      returnValue objectMachine (sampleEnv 0 0) s .resume=some ERROR) &&
    (ownedBy 2 (e.objects 0) &&
      !ownedBy 2 ((kernelStep objectMachine (sampleEnv 0 0) s .resume).objects 0))
  | none => false

/-- A waiter is signalled, its condition variable is reclaimed before it goes
on, and it returns ERROR without its lock. -/
theorem wait_loses : ∃ s g,EntryRun objectMachine SwitchSucceeds s g ∧ Input.resume.Enabled s ∧
    ∃ e,g s.currentProcess=some e ∧ e.context.vector=.kernel ∧
      objectMachine.syscallOf e.context.code=.cvarWait ∧ Owned e s.currentProcess ∧
      returnValue objectMachine (sampleEnv 0 0) s .resume=some ERROR ∧
      ¬KeepsLock objectMachine (sampleEnv 0 0) s e .resume := by
  obtain ⟨s,g,hr,hp⟩ := replayEntries_exists switchTest_succeeds
    (.boot objectBoot objectBoot_user)
    (waitTrace++[callInput 17 1 0 0,callInput 20 1 0 0,tickInput]) losesLock (by decide +kernel)
  unfold losesLock at hp
  split at hp
  · rename_i e hg
    obtain ⟨hd,ho⟩ := Bool.and_eq_true_iff.1 hp
    obtain ⟨hcpu,hcur,hv,hc,h1,hret⟩ := of_decide_eq_true hd
    obtain ⟨hown,hnot⟩ := Bool.and_eq_true_iff.1 ho
    obtain ⟨l,hl,how⟩ := of_ownedBy hown
    refine ⟨s,g,hr,hcpu,e,hcur ▸ hg,hv,hc,⟨l,?_,hcur ▸ how⟩,hret,fun hk => ?_⟩
    · rw [h1]
      exact hl
    · obtain ⟨l',_,hl',how',_⟩ := hk hret
      rw [h1] at hl'
      rw [show (kernelStep objectMachine (sampleEnv 0 0) s .resume).objects 0=.lock l' from hl',
        ownedBy,how',hcur] at hnot
      cases hnot
  · cases hp

end Errors

end Yalnix.WaitErrors
