import Yalnix.Traces

/-!
# No missed wake-ups

A process sleeps only while what it waits for has not happened: readers of a
pipe while it is empty, acquirers of a lock while it is owned, parents while
no child has ended, and writers of a terminal while it transmits.
-/

namespace Yalnix.MissedWakeups

open Framework FrameTable KernelState Scheduling Ipc Terminals ProcessLifetime ProgramLoading
open Syscalls Traps KernelStart Coherence Operations OperationCoherence RunInvariants Traces

variable {M : Machine} {allow : Label → Prop} {s t : Kernel} {live : PcbPtr → Bool}
  {state : PcbPtr → ProcState} {saved : PcbPtr → KernelContext} {waiting : PcbPtr → Bool}
  {children : PcbPtr → List PcbPtr} {queue : QueueAddr → List PcbPtr} {objects : ℕ → IpcObject}
  {p c : PcbPtr} {q : QueueAddr} {l : List PcbPtr} {o : IpcObject} {i : ℕ}

/-- Pipes with readers are empty. -/
def PipeOk (queue : QueueAddr → List PcbPtr) (objects : ℕ → IpcObject) : Prop :=
  ∀ i pipe,objects i=.pipe pipe → queue (.readers i)≠[] → pipe.len=0

/-- A queue may change if those who wait in it find an empty pipe. -/
theorem PipeOk.setQueue (h : PipeOk queue objects)
    (hq : ∀ i pipe,q=.readers i → objects i=.pipe pipe → l≠[] → pipe.len=0) :
    PipeOk (Function.update queue q l) objects := by
  intro i pipe ho hne
  by_cases he : QueueAddr.readers i=q
  · rw [he,Function.update_self] at hne
    exact hq i pipe he.symm ho hne
  · rw [Function.update_of_ne he] at hne
    exact h i pipe ho hne

/-- The queue of readers may lose processes. -/
theorem PipeOk.subqueue (h : PipeOk queue objects) (hl : queue q=[] → l=[]) :
    PipeOk (Function.update queue q l) objects :=
  h.setQueue (by
    rintro i pipe rfl ho hne
    exact h i pipe ho (fun hn => hne (hl hn)))

/-- A queue of something else is replaced. -/
theorem PipeOk.otherQueue (h : PipeOk queue objects) (hq : ∀ i,q≠.readers i) :
    PipeOk (Function.update queue q l) objects :=
  h.setQueue (fun i _ he => absurd he (hq i))

/-- An object may change if those who wait for it find an empty pipe. -/
theorem PipeOk.setObject (h : PipeOk queue objects)
    (ho : ∀ pipe,o=.pipe pipe → queue (.readers i)≠[] → pipe.len=0) :
    PipeOk queue (Function.update objects i o) := by
  intro j pipe hj hne
  by_cases he : j=i
  · subst he
    rw [Function.update_self] at hj
    exact ho pipe hj hne
  · rw [Function.update_of_ne he] at hj
    exact h j pipe hj hne

/-- Every operation keeps readers on empty pipes only. -/
theorem op_pipeOk {b : Bool} (hc : Coherent M s) (h : PipeOk s.queue s.objects)
    (hop : Op M allow b s t) : PipeOk t.queue t.objects := by
  cases hop with
  | dispatch env hs =>
    have he := dispatchNext_eq hc hs
    rw [he]
    exact h
  | forkUndone env c pfns pt m₁ m u ha hcp =>
    obtain ⟨h0,hl⟩ := callocPcb_fresh hcp
    rw [destroyed_child hc h0 hl]
    exact h
  | collect statusPtr c ha hch hz =>
    rw [collectChild_eq hc ha statusPtr hch hz]
    exact h
  | unlock i l => exact h.setObject (by simp)
  | handOff i l w rest u ha ho how hq =>
    exact ((h.otherQueue (by simp)).setObject (by simp)).setObject (by simp)
  | blockPipe id buf len pipe k u hk hb hl ho he =>
    obtain ⟨_,_,hg⟩ := getObject_bounds (show getObject s id≠.free by rw [ho]; simp)
    refine h.setQueue (fun i pipe' hi hpipe _ => ?_)
    injection hi with hi
    rw [hi.symm,hg.symm,ho] at hpipe
    injection hpipe with hpipe
    rw [←hpipe]
    exact he
  | blockLock id l k u => exact h.otherQueue (by simp)
  | blockCvar id lockId cvar lockOpened k u => exact h.otherQueue (by simp)
  | blockRead i k u => exact h.otherQueue (by simp)
  | queueWrite env i buf len k u => exact h.otherQueue (by simp)
  | wake q w rest u hn hq => exact h.subqueue (fun he => by rw [hq] at he; cases he)
  | openPipe env i hi hf => exact (h.subqueue (fun _ => rfl)).setObject (by simp)
  | openLock i hi hf => exact (h.otherQueue (by simp)).setObject (by simp)
  | openCvar i hi hf => exact (h.otherQueue (by simp)).setObject (by simp)
  | takeBytes i pipe len ho hl hp => exact h.setObject (fun _ _ hne => absurd (h i pipe ho hne) hp)
  | putBytes env i pipe grown buf len ho hl hr => exact h.setObject (fun _ _ hne => absurd hr hne)
  | lockTake i l => exact h.setObject (by simp)
  | reclaim i hu => exact h.setObject (by simp)
  | deliver i line r rest => exact h.otherQueue (by simp)
  | transmitNext i u w rest => exact h.otherQueue (by simp)
  | _ => exact h

/-- A process blocked in Wait is flagged, and a flagged one has children, none
of which has ended. -/
structure WaitOk (live : PcbPtr → Bool) (state : PcbPtr → ProcState)
    (saved : PcbPtr → KernelContext) (waiting : PcbPtr → Bool)
    (children : PcbPtr → List PcbPtr) : Prop where
  /-- Wait sets the flag before it blocks. -/
  flagged : ∀ p sp,live p=true → (saved p).point=.wait sp → state p=.blocked → waiting p=true
  /-- The event a flagged process waits for can come and has not come. -/
  hopeful : ∀ p,live p=true → waiting p=true → children p≠[] ∧ ∀ c∈children p,state c≠.zombie

/-- A process is neither blocked nor ended by a change of its state. -/
theorem WaitOk.setState {a : ProcState} (h : WaitOk live state saved waiting children)
    (hb : a≠.blocked) (hz : a≠.zombie) :
    WaitOk live (Function.update state p a) saved waiting children where
  flagged x sp hx hk hs := by
    by_cases he : x=p
    · subst he
      rw [Function.update_self] at hs
      exact absurd hs hb
    · rw [Function.update_of_ne he] at hs
      exact h.flagged x sp hx hk hs
  hopeful x hx hw := by
    refine ⟨(h.hopeful x hx hw).1,fun c hc => ?_⟩
    by_cases he : c=p
    · subst he
      rw [Function.update_self]
      exact hz
    · rw [Function.update_of_ne he]
      exact (h.hopeful x hx hw).2 c hc

/-- A process saves a stack that is not stopped in Wait. -/
theorem WaitOk.setSaved {k : KernelContext} (h : WaitOk live state saved waiting children)
    (hk : ∀ sp,k.point≠.wait sp) :
    WaitOk live state (Function.update saved p k) waiting children where
  flagged x sp hx hp hs := by
    by_cases he : x=p
    · subst he
      rw [Function.update_self] at hp
      exact absurd hp (hk sp)
    · rw [Function.update_of_ne he] at hp
      exact h.flagged x sp hx hp hs
  hopeful := h.hopeful

/-- A process blocks or ends outside Wait. -/
theorem WaitOk.park {k : KernelContext} {a : ProcState}
    (h : WaitOk live state saved waiting children) (hk : ∀ sp,k.point≠.wait sp)
    (hz : a=.zombie → ∀ x,live x=true → waiting x=true → p∉children x) :
    WaitOk live (Function.update state p a) (Function.update saved p k) waiting children where
  flagged x sp hx hp hs := by
    by_cases he : x=p
    · subst he
      rw [Function.update_self] at hp
      exact absurd hp (hk sp)
    · rw [Function.update_of_ne he] at hp hs
      exact h.flagged x sp hx hp hs
  hopeful x hx hw := by
    refine ⟨(h.hopeful x hx hw).1,fun c hc => ?_⟩
    by_cases he : c=p
    · subst he
      rw [Function.update_self]
      exact fun ha => hz ha x hx hw hc
    · rw [Function.update_of_ne he]
      exact (h.hopeful x hx hw).2 c hc

/-- The flag of a process is cleared that is not blocked in Wait. -/
theorem WaitOk.clear (h : WaitOk live state saved waiting children)
    (hp : state p≠.blocked ∨ ∀ sp,(saved p).point≠.wait sp) :
    WaitOk live state saved (Function.update waiting p false) children where
  flagged x sp hx hk hs := by
    by_cases he : x=p
    · subst he
      rcases hp with hp|hp
      · exact absurd hs hp
      · exact absurd hk (hp sp)
    · rw [Function.update_of_ne he]
      exact h.flagged x sp hx hk hs
  hopeful x hx hw := by
    by_cases he : x=p
    · subst he
      rw [Function.update_self] at hw
      cases hw
    · rw [Function.update_of_ne he] at hw
      exact h.hopeful x hx hw

/-- A process ends and its parent is woken. -/
theorem WaitOk.endWake {k : KernelContext} {r : PcbPtr}
    (h : WaitOk live state saved waiting children) (hk : ∀ sp,k.point≠.wait sp)
    (hr : ∀ x,live x=true → p∈children x → x=r) :
    WaitOk live (Function.update (Function.update state p .zombie) r .ready)
      (Function.update saved p k) (Function.update waiting r false) children where
  flagged x sp hx hp hs := by
    by_cases he : x=r
    · subst he
      rw [Function.update_self] at hs
      cases hs
    · rw [Function.update_of_ne he] at hs ⊢
      by_cases hxp : x=p
      · subst hxp
        rw [Function.update_self] at hp
        exact absurd hp (hk sp)
      · rw [Function.update_of_ne hxp] at hp hs
        exact h.flagged x sp hx hp hs
  hopeful x hx hw := by
    by_cases he : x=r
    · subst he
      rw [Function.update_self] at hw
      cases hw
    · rw [Function.update_of_ne he] at hw
      refine ⟨(h.hopeful x hx hw).1,fun c hc => ?_⟩
      by_cases hcr : c=r
      · subst hcr
        rw [Function.update_self]
        decide
      · have hcp : c≠p := by
          rintro rfl
          exact he (hr x hx hc)
        rw [Function.update_of_ne hcr,Function.update_of_ne hcp]
        exact (h.hopeful x hx hw).2 c hc

/-- The children of an unflagged process change. -/
theorem WaitOk.setChildren (h : WaitOk live state saved waiting children)
    (hp : waiting p=false) :
    WaitOk live state saved waiting (Function.update children p l) where
  flagged := h.flagged
  hopeful x hx hw := by
    by_cases he : x=p
    · subst he
      rw [hp] at hw
      cases hw
    · rw [Function.update_of_ne he]
      exact h.hopeful x hx hw

/-- The death of a process takes it from the waiting parents. -/
theorem WaitOk.death (h : WaitOk live state saved waiting children) :
    WaitOk (Function.update live c false) state saved waiting children where
  flagged x sp hx hk hs := by
    by_cases he : x=c
    · subst he
      rw [Function.update_self] at hx
      cases hx
    · rw [Function.update_of_ne he] at hx
      exact h.flagged x sp hx hk hs
  hopeful x hx hw := by
    by_cases he : x=c
    · subst he
      rw [Function.update_self] at hx
      cases hx
    · rw [Function.update_of_ne he] at hx
      exact h.hopeful x hx hw

/-- A child of an unflagged process is born, without a flag and ready. -/
theorem WaitOk.birth {k : KernelContext} (h : WaitOk live state saved waiting children)
    (hp : waiting p=false) :
    WaitOk (Function.update live c true) (Function.update state c .ready)
      (Function.update saved c k) (Function.update waiting c false)
      (Function.update (Function.update children c []) p l) where
  flagged x sp hx hk hs := by
    by_cases he : x=c
    · subst he
      rw [Function.update_self] at hs
      cases hs
    · rw [Function.update_of_ne he] at hx hk hs ⊢
      exact h.flagged x sp hx hk hs
  hopeful x hx hw := by
    by_cases he : x=c
    · subst he
      rw [Function.update_self] at hw
      cases hw
    · rw [Function.update_of_ne he] at hx hw
      have hxp : x≠p := by
        rintro rfl
        rw [hp] at hw
        cases hw
      rw [Function.update_of_ne hxp,Function.update_of_ne he]
      refine ⟨(h.hopeful x hx hw).1,fun d hd => ?_⟩
      by_cases hdc : d=c
      · subst hdc
        rw [Function.update_self]
        decide
      · rw [Function.update_of_ne hdc]
        exact (h.hopeful x hx hw).2 d hd

/-- An executing process is not flagged. -/
theorem not_waiting (h : Coherent M s) (ha : Active s) :
    s.waitingForChild s.currentProcess=false := by
  cases hw : s.waitingForChild s.currentProcess with
  | false => rfl
  | true => exact absurd hw (no_reason h h.ready.current_live ha.toRunnable.not_blocked .child)

/-- Wait blocks with children, none of which has ended. -/
theorem waitOk_blockForChild
    (h : WaitOk s.live s.state s.kernelContext s.waitingForChild s.children)
    (hn : s.children s.currentProcess≠[])
    (hz : ∀ c∈s.children s.currentProcess,s.state c≠.zombie) (k : KernelContext)
    (u : UserContext) :
    WaitOk (blockForChild k u s).live (blockForChild k u s).state
    (blockForChild k u s).kernelContext
      (blockForChild k u s).waitingForChild (blockForChild k u s).children where
  flagged x sp hx hk hs := by
    unfold blockForChild at hx hk hs ⊢
    dsimp only at hx hk hs ⊢
    by_cases he : x=s.currentProcess
    · rw [he,Function.update_self]
    · rw [Function.update_of_ne he] at hk hs ⊢
      exact h.flagged x sp hx hk hs
  hopeful x hx hw := by
    unfold blockForChild at hx hw ⊢
    dsimp only at hx hw ⊢
    have hch : s.children x≠[] ∧ ∀ c∈s.children x,s.state c≠.zombie := by
      by_cases he : x=s.currentProcess
      · rw [he]
        exact ⟨hn,hz⟩
      · rw [Function.update_of_ne he] at hw
        exact h.hopeful x hx hw
    refine ⟨hch.1,fun c hcx => ?_⟩
    by_cases he : c=s.currentProcess
    · rw [he,Function.update_self]
      decide
    · rw [Function.update_of_ne he]
      exact hch.2 c hcx

/-- The parent of an ending process, if it waits, is on record. -/
theorem not_waiting_parent (hc : Coherent M s)
    (hp : s.parent s.currentProcess=0 ∨ s.waitingForChild (s.parent s.currentProcess)=false)
    (x : PcbPtr) (hx : s.live x=true) (hw : s.waitingForChild x=true) :
    s.currentProcess∉s.children x := by
  intro hm
  obtain ⟨_,he⟩ := hc.family.child_parent x _ hx hm
  rw [he] at hp
  rcases hp with h0|hf
  · exact hc.ready.ne_null hx h0
  · rw [hf] at hw
    cases hw

/-- Every operation keeps flagged processes hopeful. -/
theorem op_waitOk {b : Bool} (hc : Coherent M s)
    (h : WaitOk s.live s.state s.kernelContext s.waitingForChild s.children)
    (hop : Op M allow b s t) :
    WaitOk t.live t.state t.kernelContext t.waitingForChild t.children := by
  have hready : ∀ p,WaitOk s.live (Function.update s.state p .ready) s.kernelContext
      s.waitingForChild s.children := fun p => h.setState (by decide) (by decide)
  have hblock : ∀ {k : KernelContext},(∀ sp,k.point≠.wait sp) →
      WaitOk s.live (Function.update s.state s.currentProcess .blocked)
        (Function.update s.kernelContext s.currentProcess k) s.waitingForChild s.children :=
    fun hk => h.park hk (fun hz => by cases hz)
  cases hop with
  | begin hr hl hn => exact h.setSaved (by simp)
  | preempt ha => exact h.setSaved (by simp)
  | clearWaiting ha => exact h.clear (.inl ha.toRunnable.not_blocked)
  | sleepOver p hl ho => exact hready p
  | requeue hi hs => exact hready _
  | dispatch env hs =>
    have he := dispatchNext_eq hc hs
    rw [he]
    dsimp only
    split
    · exact h
    · exact h.setState (by decide) (by decide)
  | forkUndone env c pfns pt m₁ m u ha hcp =>
    obtain ⟨h0,hl⟩ := callocPcb_fresh hcp
    rw [destroyed_child hc h0 hl]
    have hw := not_waiting hc ha
    have hne := dead_ne_current hc hl
    exact ((h.birth hw).setChildren (by rw [Function.update_of_ne hne.symm]; exact hw)).death
  | spawn env caller c pfns pt m₁ m u hb =>
    rw [spawn_eq]
    exact h.birth (not_waiting hc hb.toActive)
  | orphan c rest ha hch => exact h.setChildren (not_waiting hc ha)
  | handOff i l w rest u => exact hready w
  | zombie status k env m v hk hb hch hl hp =>
    exact h.park (by simp [hk]) (fun _ => not_waiting_parent hc hp)
  | zombieWake status k env m v hk hb hch hl hp hw =>
    exact h.endWake (by simp [hk]) (fun x hx hm => (hc.family.child_parent x _ hx hm).2.symm)
  | collect statusPtr c ha hch hz =>
    rw [collectChild_eq hc ha statusPtr hch hz]
    exact (h.setChildren (not_waiting hc ha)).death
  | blockDelay ticks k u hk => exact hblock (by simp [hk])
  | blockChild statusPtr k u hk hb hn hz => exact waitOk_blockForChild h hn hz k u
  | blockPipe id buf len pipe k u hk => exact hblock (by simp [hk])
  | blockLock id l k u hk => exact hblock (by simp [hk])
  | blockCvar id lockId cvar lockOpened k u hk => exact hblock (by simp [hk])
  | blockRead i k u hk => exact hblock (by simp [hk])
  | startWrite env i buf len k u hk => exact hblock (by simp [hk])
  | queueWrite env i buf len k u hk => exact hblock (by simp [hk])
  | wake q w rest u => exact hready w
  | writeDone i len => exact h.setSaved (by simp)
  | lockResume id l => exact h.setSaved (by simp)
  | takeHanded i line => exact h.setSaved (by simp)
  | deliver i line r rest => exact hready r
  | transmitLast i u => exact hready _
  | transmitNext i u w rest => exact hready _
  | _ => exact h

/-- No process is flagged or reads behind the boot. -/
theorem booted_wakeups {b : Boot M} {p q : PcbPtr} {pfn : ℕ} {pfns : ℕ → ℕ} {m₁ m₂ m : Memory}
    {v : UserSpace} {u : UserContext} :
    PipeOk (bootedKernel M b p q pfn pfns m₁ m₂ m v u).queue
        (bootedKernel M b p q pfn pfns m₁ m₂ m v u).objects ∧
      WaitOk (bootedKernel M b p q pfn pfns m₁ m₂ m v u).live
        (bootedKernel M b p q pfn pfns m₁ m₂ m v u).state
        (bootedKernel M b p q pfn pfns m₁ m₂ m v u).kernelContext
        (bootedKernel M b p q pfn pfns m₁ m₂ m v u).waitingForChild
        (bootedKernel M b p q pfn pfns m₁ m₂ m v u).children := by
  refine ⟨fun i pipe ho => (by cases ho),⟨fun x sp hx hk hs => ?_,fun x hx hw => (by cases hw)⟩⟩
  rw [booted_running (booted_live.1 hx)] at hs
  cases hs

/-- In every state of every run: pipes with readers are empty, locks with
waiters are owned, a process blocked in Wait has children none of which has
ended, and a terminal with queued writers transmits for a writer. -/
theorem reachable_noMissedWakeup (h : Reachable M s) :
    (∀ i pipe,s.objects i=.pipe pipe → s.queue (.readers i)≠[] → pipe.len=0) ∧
      (∀ i lock,s.objects i=.lock lock → s.queue (.lockWaiters i)≠[] → lock.owner≠0) ∧
      (∀ p,s.live p=true →
        s.waitingForChild p=true ∨
          (s.state p=.blocked ∧ ∃ sp,(s.kernelContext p).point=.wait sp) →
        s.children p≠[] ∧ ∀ c∈s.children p,s.state c≠.zombie) ∧
      (∀ i,s.queue (.writeQueue i)≠[] →
        (s.terminals i).busy=true ∧ (s.terminals i).writer≠0) := by
  obtain ⟨hs,hp,hw⟩ := reachable_invariant
    (P := fun s => PipeOk s.queue s.objects ∧
      WaitOk s.live s.state s.kernelContext s.waitingForChild s.children)
    (fun b p q pfn pfns m₁ m₂ m v u hf => booted_wakeups)
    (fun c s t hc hp hop => ⟨op_pipeOk hc hp.1 hop,op_waitOk hc hp.2 hop⟩) h
  refine ⟨hp,fun i lock ho hq => hs.lock.owned i lock ho hq,fun p hl hwait => ?_,fun i hq => ?_⟩
  · rcases hwait with hf|⟨hb,sp,hk⟩
    · exact hw.hopeful p hl hf
    · exact hw.hopeful p hl (hw.flagged p sp hl hk hb)
  · have hwr := hs.writer.queued i hq
    exact ⟨(hs.writer.busy i).2 hwr,hwr⟩

/-- A reader blocks on a pipe that a process has opened. -/
theorem reachable_noMissedWakeup_reader : ∃ s,Reachable sampleMachine s ∧
    s.queue (.readers 0)=[2] ∧ ∀ pipe,s.objects 0=.pipe pipe → pipe.len=0 := by
  obtain ⟨s,hr,hq⟩ := replay_reachable sampleBoot_user
    [callInput 10 0x105000 0 0,callInput 11 0 0x105001 4] (fun s => s.queue (.readers 0)=[2])
    (by decide +kernel)
  have hread : s.queue (.readers 0)=[2] := by simpa using hq
  exact ⟨s,hr,hread,fun pipe ho =>
    (reachable_noMissedWakeup hr).1 0 pipe ho (by rw [hread]; simp)⟩

end Yalnix.MissedWakeups
