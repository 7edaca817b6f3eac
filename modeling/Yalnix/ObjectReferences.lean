import Yalnix.LockHandoff
import Yalnix.PipeStream
import Yalnix.UserContexts

/-!
# Objects that stopped calls refer to

A call stopped in PipeRead or CvarWait has kept the numbers of its objects and
looks them up again when it goes on. Reclaim may have freed such a number in
the meantime, and an initialising call may have handed it out again for an
object of the same type. As long as the second does not happen, a number still
denotes the object the call was stopped with or none of its type; as long as the
first does not happen, it denotes the object. The lock that a waiter has
released is not granted back to it.
-/

namespace Yalnix.ObjectReferences

open Framework FrameTable KernelState Scheduling Ipc Terminals ProcessLifetime ProgramLoading
open Syscalls Traps KernelStart Coherence Operations OperationCoherence StepOperations
open CallOperations RunInvariants KernelEntries PipeStream LockHandoff UserContexts

variable {M : Machine} {s t : Kernel} {p q : PcbPtr} {k : KernelContext} {i : ℕ} {id : ℤ}
  {o : IpcObject} {objects : ℕ → IpcObject} {live : PcbPtr → Bool}
  {saved : PcbPtr → KernelContext} {gone : Prop} {Q : IpcObject → Prop} {n : KernelPoint}
  {watch : KernelPoint → Prop} {allow : Label → Prop} {c : Syscall}

/-- The pipe with this stamp. -/
def IsPipe (g : ℕ) (o : IpcObject) : Prop := ∃ pipe,o=.pipe pipe ∧ pipe.opened=g

/-- The condition variable with this stamp. -/
def IsCvar (g : ℕ) (o : IpcObject) : Prop := ∃ c,o=.cvar c ∧ c.opened=g

/-- The lock with this stamp, not owned by p. -/
def IsLock (g : ℕ) (p : PcbPtr) (o : IpcObject) : Prop :=
  ∃ l,o=.lock l ∧ l.opened=g ∧ l.owner≠p

/-- The call that opens objects of a type. -/
def openedBy : IpcObject → Option Syscall
  | .free => none
  | .pipe _ => some .pipeInit
  | .lock _ => some .lockInit
  | .cvar _ => some .cvarInit

/-- A number in the table denotes an object, or none that the call c opens if
the object may be gone. -/
def Still (gone : Prop) (c : Syscall) (objects : ℕ → IpcObject) (id : ℤ)
    (Q : IpcObject → Prop) : Prop :=
  0≤ id ∧ id<IPC_MAX_OBJECTS ∧
    ((gone ∧ openedBy (objects id.toNat)≠some c) ∨ Q (objects id.toNat))

/-- The numbers of a stopped call still denote its objects. -/
def Referred (gone : Prop) (p : PcbPtr) (objects : ℕ → IpcObject) : KernelPoint → Prop
  | .pipeRead id _ _ g => Still gone .pipeInit objects id (IsPipe g)
  | .cvarWait id lockId g g' =>
    Still gone .cvarInit objects id (IsCvar g) ∧ Still gone .lockInit objects lockId (IsLock g' p)
  | _ => True

/-- A stopped call has kept this number, for an object that c opens. -/
def Refers : KernelPoint → Syscall → ℕ → Prop
  | .pipeRead id _ _ _,c,i => c=.pipeInit ∧ id=i
  | .cvarWait id lockId _ _,c,i => (c=.cvarInit ∧ id=i) ∨ (c=.lockInit ∧ lockId=i)
  | _,_,_ => False

/-- The references of the process p while its stack is at a watched point. -/
def RefOk (watch : KernelPoint → Prop) (gone : Prop) (p : PcbPtr) (live : PcbPtr → Bool)
    (saved : PcbPtr → KernelContext) (objects : ℕ → IpcObject) : Prop :=
  live p=true → watch (saved p).point → Referred gone p objects (saved p).point

/-- A number in the table. -/
theorem Still.number (h : Still gone c objects id Q) (hi : i=id.toNat) : id=i := by
  rw [hi]
  exact (Int.toNat_of_nonneg h.1).symm

/-- An entry of the table changes. -/
theorem Still.setObject (h : Still gone c objects id Q)
    (ho : i=id.toNat → (gone ∧ openedBy (objects i)≠some c) ∨ Q (objects i) →
      (gone ∧ openedBy o≠some c) ∨ Q o) :
    Still gone c (Function.update objects i o) id Q := by
  refine ⟨h.1,h.2.1,?_⟩
  by_cases hi : id.toNat=i
  · rw [hi,Function.update_self]
    have hd := h.2.2
    rw [hi] at hd
    exact ho hi.symm hd
  · rw [Function.update_of_ne hi]
    exact h.2.2

/-- An entry of the table changes that no reference is broken by. -/
theorem RefOk.setObject (h : RefOk watch gone p live saved objects)
    (hpipe : ∀ g,IsPipe g (objects i) → IsPipe g o ∨ (gone ∧ openedBy o≠some .pipeInit))
    (hcvar : ∀ g,IsCvar g (objects i) → IsCvar g o ∨ (gone ∧ openedBy o≠some .cvarInit))
    (hlock : live p=true → ∀ g,IsLock g p (objects i) → (∃ id lockId g g',
      (saved p).point=.cvarWait id lockId g g') → IsLock g p o ∨ (gone ∧ openedBy o≠some .lockInit))
    (hopen : live p=true → watch (saved p).point → gone → ∀ c,openedBy (objects i)≠some c →
      Refers (saved p).point c i → openedBy o≠some c) :
    RefOk watch gone p live saved (Function.update objects i o) := by
  intro hl hw
  have hr := h hl hw
  have hopen := hopen hl hw
  cases hn : (saved p).point with
  | pipeRead id buf len g =>
    rw [hn] at hr hopen
    refine Still.setObject hr (fun hi hd => ?_)
    rcases hd with ⟨hg,hf⟩|hd
    · exact .inl ⟨hg,hopen hg _ hf ⟨rfl,Still.number hr hi⟩⟩
    · exact (hpipe g hd).symm
  | cvarWait id lockId g g' =>
    rw [hn] at hr hopen
    refine ⟨Still.setObject hr.1 (fun hi hd => ?_),Still.setObject hr.2 (fun hi hd => ?_)⟩
    · rcases hd with ⟨hg,hf⟩|hd
      · exact .inl ⟨hg,hopen hg _ hf (.inl ⟨rfl,Still.number hr.1 hi⟩)⟩
      · exact (hcvar g hd).symm
    · rcases hd with ⟨hg,hf⟩|hd
      · exact .inl ⟨hg,hopen hg _ hf (.inr ⟨rfl,Still.number hr.2 hi⟩)⟩
      · exact (hlock hl g' hd ⟨id,lockId,g,g',hn⟩).symm
  | _ => trivial

/-- A process saves another stack. -/
theorem RefOk.setSaved (h : RefOk watch gone p live saved objects)
    (hk : q=p → live p=true → Referred gone p objects k.point) :
    RefOk watch gone p live (Function.update saved q k) objects := by
  intro hl hw
  by_cases hq : p=q
  · rw [hq,Function.update_self]
    rw [←hq]
    exact hk hq.symm hl
  · rw [Function.update_of_ne hq] at hw ⊢
    exact h hl hw

/-- A process is created with a stack that keeps no numbers. -/
theorem RefOk.birth (h : RefOk watch gone p live saved objects)
    (hk : ∀ p,Referred gone p objects k.point) :
    RefOk watch gone p (Function.update live q true) (Function.update saved q k) objects := by
  intro hl hw
  by_cases hq : p=q
  · rw [hq,Function.update_self]
    exact hk q
  · rw [Function.update_of_ne hq] at hl hw ⊢
    exact h hl hw

/-- A process that is destroyed refers to no object. -/
theorem RefOk.death (h : RefOk watch gone p live saved objects) :
    RefOk watch gone p (Function.update live q false) saved objects := by
  intro hl hw
  by_cases hq : p=q
  · rw [hq,Function.update_self] at hl
    cases hl
  · rw [Function.update_of_ne hq] at hl
    exact h hl hw

/-- An entry changes that nobody refers to. -/
theorem RefOk.unreferred (h : RefOk watch gone p live saved objects)
    (hi : live p=true → watch (saved p).point → ∀ c,¬Refers (saved p).point c i) :
    RefOk watch gone p live saved (Function.update objects i o) := by
  intro hl hw
  have hr := h hl hw
  have hn := hi hl hw
  cases hk : (saved p).point with
  | pipeRead id buf len g =>
    rw [hk] at hr hn
    exact Still.setObject hr (fun he => absurd ⟨rfl,Still.number hr he⟩ (hn .pipeInit))
  | cvarWait id lockId g g' =>
    rw [hk] at hr hn
    exact ⟨Still.setObject hr.1 (fun he =>
        absurd (.inl ⟨rfl,Still.number hr.1 he⟩) (hn .cvarInit)),
      Still.setObject hr.2 (fun he => absurd (.inr ⟨rfl,Still.number hr.2 he⟩) (hn .lockInit))⟩
  | _ => trivial

/-- A lock gets another owner, who is not stopped in CvarWait. -/
theorem RefOk.setOwner {l : LockState} {w : PcbPtr} (h : RefOk watch gone p live saved objects)
    (ho : objects i=.lock l)
    (hw : live p=true → (∃ id lockId g g',(saved p).point=.cvarWait id lockId g g') → w≠p) :
    RefOk watch gone p live saved (Function.update objects i (.lock {l with owner := w})) := by
  refine h.setObject (fun g hp => ?_) (fun g hp => ?_) (fun hl g hp hk => ?_)
    (fun _ _ _ c hf _ => ?_)
  · rw [ho] at hp
    obtain ⟨_,hp,_⟩ := hp
    cases hp
  · rw [ho] at hp
    obtain ⟨_,hp,_⟩ := hp
    cases hp
  · rw [ho] at hp
    obtain ⟨l',hp,hg,_⟩ := hp
    injection hp with hp
    subst hp
    exact .inl ⟨_,rfl,hg,hw hl hk⟩
  · rw [ho] at hf
    exact hf

/-- The bytes of a pipe change. -/
theorem RefOk.setPipe {pipe pipe' : PipeState} (h : RefOk watch gone p live saved objects)
    (ho : objects i=.pipe pipe) (hg : pipe'.opened=pipe.opened) :
    RefOk watch gone p live saved (Function.update objects i (.pipe pipe')) := by
  refine h.setObject (fun g hp => ?_) (fun g hp => ?_) (fun hl g hp hk => ?_)
    (fun _ _ _ c hf _ => ?_)
  · rw [ho] at hp
    obtain ⟨pipe₁,hp,he⟩ := hp
    injection hp with hp
    subst hp
    exact .inl ⟨_,rfl,hg.trans he⟩
  · rw [ho] at hp
    obtain ⟨_,hp,_⟩ := hp
    cases hp
  · rw [ho] at hp
    obtain ⟨_,hp,_⟩ := hp
    cases hp
  · rw [ho] at hf
    exact hf

/-- A free number is handed out. -/
theorem RefOk.openObject (h : RefOk watch gone p live saved objects) (ho : objects i=.free)
    (hi : live p=true → watch (saved p).point → gone → ¬Refers (saved p).point c i)
    (hc : openedBy o=some c) :
    RefOk watch gone p live saved (Function.update objects i o) := by
  refine h.setObject (fun g hp => ?_) (fun g hp => ?_) (fun hl g hp hk => ?_)
    (fun hl hw hg c' _ hr he => ?_)
  · rw [ho] at hp
    obtain ⟨_,hp,_⟩ := hp
    cases hp
  · rw [ho] at hp
    obtain ⟨_,hp,_⟩ := hp
    cases hp
  · rw [ho] at hp
    obtain ⟨_,hp,_⟩ := hp
    cases hp
  · rw [hc] at he
    injection he with he
    subst he
    exact hi hl hw hg hr

/-- A number may be freed that the stopped process does not refer to. -/
theorem RefOk.freeObject (h : RefOk watch gone p live saved objects)
    (hi : live p=true → watch (saved p).point → ¬gone → ∀ c,¬Refers (saved p).point c i) :
    RefOk watch gone p live saved (Function.update objects i .free) := by
  by_cases hg : gone
  · exact h.setObject (fun g _ => .inr ⟨hg,by simp [openedBy]⟩)
      (fun g _ => .inr ⟨hg,by simp [openedBy]⟩) (fun _ g _ _ => .inr ⟨hg,by simp [openedBy]⟩)
      (fun _ _ _ c _ _ => by simp [openedBy])
  · exact h.unreferred (fun hl hw => hi hl hw hg)

/-- The pipe that a number denotes. -/
theorem Still.pipe {g : ℕ} {pipe : PipeState} (h : Still gone .pipeInit objects id (IsPipe g))
    (ho : objects id.toNat=.pipe pipe) : pipe.opened=g := by
  rcases h.2.2 with ⟨_,hf⟩|⟨pipe',hp,hg⟩
  · rw [ho] at hf
    exact absurd rfl hf
  · rw [ho] at hp
    injection hp with hp
    rw [hp]
    exact hg

/-- The condition variable that a number denotes. -/
theorem Still.cvar {g : ℕ} {c : CvarState} (h : Still gone .cvarInit objects id (IsCvar g))
    (ho : objects id.toNat=.cvar c) : c.opened=g := by
  rcases h.2.2 with ⟨_,hf⟩|⟨c',hp,hg⟩
  · rw [ho] at hf
    exact absurd rfl hf
  · rw [ho] at hp
    injection hp with hp
    rw [hp]
    exact hg

/-- The lock that a number denotes. -/
theorem Still.lock {g : ℕ} {l : LockState} (h : Still gone .lockInit objects id (IsLock g p))
    (ho : objects id.toNat=.lock l) : l.opened=g ∧ l.owner≠p := by
  rcases h.2.2 with ⟨_,hf⟩|⟨l',hp,hg⟩
  · rw [ho] at hf
    exact absurd rfl hf
  · rw [ho] at hp
    injection hp with hp
    rw [hp]
    exact hg

/-- An object that an identifier denotes is still there. -/
theorem still_of_getObject (h : getObject s id=o) (hf : o≠.free) (hq : Q o) :
    Still gone c s.objects id Q := by
  obtain ⟨h0,hm,_⟩ := getObject_bounds (show getObject s id≠.free by rw [h]; exact hf)
  refine ⟨h0,hm,.inr ?_⟩
  rw [objects_of_getObject h hf]
  exact hq

/-- Every operation keeps the references of a process, provided that no number
it refers to is handed out again or, if objects may not go, freed. -/
theorem op_refOk {b : Bool} (hc : Coherent M s)
    (hopen : ∀ i c live saved,allow (.opens i c live saved) → live p=true →
      watch (saved p).point → gone → ¬Refers (saved p).point c i)
    (hfree : ∀ i live saved,allow (.reclaims i live saved) → live p=true →
      watch (saved p).point → ¬gone → ∀ c,¬Refers (saved p).point c i)
    (h : RefOk watch gone p s.live s.kernelContext s.objects) (hop : Op M allow b s t) :
    RefOk watch gone p t.live t.kernelContext t.objects := by
  have hsave : ∀ {q k},(∀ p,Referred gone p s.objects k.point) →
      RefOk watch gone p s.live (Function.update s.kernelContext q k) s.objects :=
    fun hk => h.setSaved (fun _ _ => hk p)
  cases hop with
  | begin hr hl hn => exact hsave (fun _ => trivial)
  | preempt ha => exact hsave (fun _ => trivial)
  | dispatch env hs =>
    have he := dispatchNext_eq hc hs
    rw [he]
    dsimp only
    exact h
  | forkUndone env c pfns pt m₁ m u ha hcp =>
    obtain ⟨h0,hl⟩ := callocPcb_fresh hcp
    rw [destroyed_child hc h0 hl]
    refine RefOk.death (RefOk.birth h (fun p => ?_))
    rw [ha.executing]
    trivial
  | spawn env caller c pfns pt m₁ m u hb =>
    rw [spawn_eq]
    exact h.birth (fun _ => trivial)
  | unlock i l ha ho how =>
    exact h.setOwner ho (fun hl _ => (hc.ready.ne_null hl).symm)
  | handOff i l w rest u ha ho how hq =>
    have hset : RefOk watch gone p s.live s.kernelContext
        (Function.update s.objects i (.lock {l with owner := w})) := by
      refine h.setOwner ho (fun hl hk => ?_)
      rintro rfl
      obtain ⟨id,lockId,g,g',hk⟩ := hk
      obtain ⟨_,_,ha',_⟩ := hc.lock.queued i w (by rw [hq]; exact List.mem_cons_self)
      rw [hk] at ha'
      cases ha'
    have he : (grantLock i l w (markReady {clearOwner i l s with
        queue := Function.update s.queue (.lockWaiters i) rest
        blockQueue := Function.update s.blockQueue w none
        userContext := Function.update s.userContext w u
        log := s.log++[.lockReleased l.opened l.owner,.woken w (.pop (.lockWaiters i))]}
        w)).objects=Function.update s.objects i (.lock {l with owner := w}) := by
      dsimp only [grantLock,markReady,clearOwner]
      rw [Function.update_idem]
    rw [he]
    exact hset
  | zombie status k env m v hk => exact hsave (fun _ => by rw [hk]; trivial)
  | zombieWake status k env m v hk => exact hsave (fun _ => by rw [hk]; trivial)
  | collect statusPtr c ha hch hz =>
    rw [collectChild_eq hc ha statusPtr hch hz]
    exact h.death
  | blockDelay ticks k u hk => exact hsave (fun _ => by rw [hk]; trivial)
  | blockChild statusPtr k u hk => exact hsave (fun _ => by rw [hk]; trivial)
  | blockPipe id buf len pipe k u hk hb hl ho he =>
    exact hsave (fun _ => by rw [hk]; exact still_of_getObject ho (by simp) ⟨pipe,rfl,rfl⟩)
  | blockLock id l k u hk => exact hsave (fun _ => by rw [hk]; trivial)
  | blockCvar id lockId cvar lockOpened k u hk hb ho hl =>
    refine h.setSaved (fun hp _ => ?_)
    obtain ⟨l,hlk,hg,hn⟩ := hl
    rw [hk]
    refine ⟨still_of_getObject ho (by simp) ⟨cvar,rfl,rfl⟩,
      still_of_getObject hlk (by simp) ⟨l,rfl,hg,?_⟩⟩
    rw [←hp]
    exact hn
  | blockRead i k u hk => exact hsave (fun _ => by rw [hk]; trivial)
  | startWrite env i buf len k u hk => exact hsave (fun _ => by rw [hk]; trivial)
  | queueWrite env i buf len k u hk => exact hsave (fun _ => by rw [hk]; trivial)
  | writeDone i len => exact hsave (fun _ => trivial)
  | openPipe env i hi hf ho =>
    exact h.openObject hf (hopen i _ _ _ ho) rfl
  | openLock i hi hf ho => exact h.openObject hf (hopen i _ _ _ ho) rfl
  | openCvar i hi hf ho => exact h.openObject hf (hopen i _ _ _ ho) rfl
  | takeBytes i pipe len ho => exact h.setPipe ho rfl
  | putBytes env i pipe grown buf len ho hl hr hg =>
    have hop : grown.opened=pipe.opened := ensure_opened hg
    exact h.setPipe ho hop
  | lockTake i l hb ho =>
    refine h.setOwner ho (fun hl hk => ?_)
    rintro rfl
    obtain ⟨id,lockId,g,g',hk⟩ := hk
    rw [hb.toActive.executing] at hk
    cases hk
  | lockResume id l => exact hsave (fun _ => trivial)
  | reclaim i hu ho => exact h.freeObject (hfree i _ _ ho)
  | takeHanded i line => exact hsave (fun _ => trivial)
  | _ => exact h

section Entries

variable {env : Env} {input : Input} {g : PcbPtr → Option Entry} {e : Entry} {pipes : Prop}

/-- Points at which references are watched: those of CvarWait, and those of
PipeRead on demand. -/
def Watching (pipes : Prop) : KernelPoint → Prop
  | .pipeRead _ _ _ _ => pipes
  | _ => True

/-- A stopped call of the process p has kept the objects it was called with. -/
def Named (pipes : Prop) (p : PcbPtr) (s : Kernel) (g : PcbPtr → Option Entry) : Prop :=
  s.live p=true → Watching pipes (s.kernelContext p).point → ∀ e,g p=some e →
    Denoted e.objects (s.kernelContext p).point

/-- A resumed acquirer does not stop again. -/
theorem acquire_executing (hc : Coherent M s) (hr : Runnable s) {g : ℕ}
    (hk : (s.kernelContext s.currentProcess).point=.acquire id g) :
    ((kernelStep M env s .resume).kernelContext s.currentProcess).point=.executing := by
  obtain ⟨lock,_,_,_,he⟩ := resume_acquire hc hr env hk
  rw [he]
  dsimp only [finish,trapKernelReturn]
  split
  · simp [returnToUser,Kernel.setUserContext,Kernel.emit,Kernel.setKernelContext]
  · split
    · simp [returnToUser,Kernel.emit,Kernel.setKernelContext]
    · simp [returnToUser,Kernel.emit,Kernel.setKernelContext]

/-- The call that a stack is stopped in, unless it acquires a lock. -/
def pointCall : KernelPoint → Option Syscall
  | .wait _ => some .wait
  | .delay => some .delay
  | .ttyRead _ => some .ttyRead
  | .ttyWrite _ _ => some .ttyWrite
  | .pipeRead _ _ _ _ => some .pipeRead
  | .cvarWait _ _ _ _ => some .cvarWait
  | _ => none

/-- A stopped stack belongs to the call of its entry. -/
theorem stopped_call {u : UserContext} (h : Stopped M u n) :
    pointCall n=some (M.syscallOf u.code) ∨ ∃ id g,n=.acquire id g ∧
      (M.syscallOf u.code=.acquire ∨ (M.syscallOf u.code=.cvarWait ∧ id=u.int 1)) := by
  cases n with
  | executing => exact h.elim
  | exited => exact h.elim
  | boot => exact h.elim
  | clock => exact h.elim
  | fork child => exact h.elim
  | delay =>
    left
    rw [show M.syscallOf u.code=.delay from h]
    rfl
  | acquire id g => exact .inr ⟨id,g,rfl,h.imp (fun ha => ha.1) (fun ha => ha)⟩
  | _ =>
    left
    rw [h.1]
    rfl

/-- A stopped process whose entry was a call other than Fork is inside that call. -/
theorem held_inside {k : KernelContext} {x : UserContext} (h : Held M (some e) p k x)
    (hv : e.context.vector=.kernel) (hf : M.syscallOf e.context.code≠.fork)
    (hx : k.point≠.executing) (hz : k.point≠.exited) : Stopped M e.context k.point := by
  cases hn : k.point with
  | executing => exact absurd hn hx
  | exited => exact absurd hn hz
  | boot =>
    unfold Held at h
    rw [hn] at h
    cases h
  | clock =>
    unfold Held at h
    rw [hn] at h
    obtain ⟨e₁,he₁,hv₁,_⟩ := h
    injection he₁ with he₁
    subst he₁
    rw [hv] at hv₁
    cases hv₁
  | fork child =>
    unfold Held at h
    rw [hn] at h
    obtain ⟨e₁,he₁,_,hf₁,_⟩ := h
    injection he₁ with he₁
    subst he₁
    exact absurd hf₁ hf
  | _ =>
    obtain ⟨_,e₁,he₁,_,hs⟩ := h.call (by rw [hn]; trivial)
    injection he₁ with he₁
    subst he₁
    rw [hn] at hs
    exact hs

/-- A call that stops again was stopped in the same call before. -/
theorem stopped_before {k k' : KernelContext} {x x' : UserContext} (h : Held M (some e) p k x)
    (h' : Held M (some e) p k' x') (hx : k.point≠.executing) (hz : k.point≠.exited)
    (hk' : CallPoint k'.point) : Stopped M e.context k.point := by
  obtain ⟨_,e',he',hc',hs'⟩ := h'.call hk'
  injection he' with he'
  subst he'
  refine held_inside h hc'.vector (fun hf => ?_) hx hz
  rcases stopped_call hs' with hp|⟨_,_,_,hp⟩
  · rw [hf] at hp
    generalize k'.point=n' at hp
    cases n' <;> cases hp
  · rw [hf] at hp
    rcases hp with hp|⟨hp,_⟩
    · cases hp
    · cases hp

/-- A call that stops again looks at the objects that it was called with. -/
theorem denoted_again {u : UserContext} {called : ℕ → IpcObject} {n' : KernelPoint}
    (hs : Stopped M u n) (hs' : Stopped M u n') (hd : Denoted called n) (hf : Denoted objects n')
    (hr : Referred gone p objects n) (hn : ∀ id g,n≠.acquire id g) : Denoted called n' := by
  have hcall : pointCall n=some (M.syscallOf u.code) := by
    rcases stopped_call hs with h|⟨id,g,h,_⟩
    · exact h
    · exact absurd h (hn id g)
  cases n' with
  | pipeRead id' buf' len' g' =>
    obtain ⟨hc',hid',_⟩ := hs'
    rw [hc'] at hcall
    cases n with
    | pipeRead id buf len g =>
      obtain ⟨_,hid,_⟩ := hs
      subst hid hid'
      obtain ⟨pipe,ho,hg⟩ := hf
      rw [←hg,Still.pipe hr ho]
      exact hd
    | _ => cases hcall
  | acquire id' g' =>
    rcases hs' with ⟨hc',_⟩|⟨hc',hid'⟩
    · rw [hc'] at hcall
      cases n <;> cases hcall
    · rw [hc'] at hcall
      cases n with
      | cvarWait id lockId g₁ g =>
        obtain ⟨_,_,hid⟩ := hs
        subst hid hid'
        obtain ⟨l,ho,hg⟩ := hf
        rw [←hg,(Still.lock hr.2 ho).1]
        exact hd.2
      | _ => cases hcall
  | cvarWait id' lockId' c' g' =>
    obtain ⟨hc',hid',hlk'⟩ := hs'
    rw [hc'] at hcall
    cases n with
    | cvarWait id lockId c g =>
      obtain ⟨_,hid,hlk⟩ := hs
      subst hid hid' hlk hlk'
      obtain ⟨⟨cv,hcv,hcg⟩,l,ho,hg⟩ := hf
      rw [←hg,←hcg,(Still.lock hr.2 ho).1,Still.cvar hr.1 hcv]
      exact hd
    | _ => cases hcall
  | _ => trivial

/-- A call that is watched when it stops again was watched before. -/
theorem watching_before {u : UserContext} {n' : KernelPoint} (hs : Stopped M u n)
    (hs' : Stopped M u n') (hw : Watching pipes n') : Watching pipes n := by
  cases n with
  | pipeRead id buf len g =>
    rcases stopped_call hs' with hp|⟨_,_,_,hp⟩
    · rw [hs.1] at hp
      cases n' with
      | pipeRead id' buf' len' g' => exact hw
      | _ => cases hp
    · rw [hs.1] at hp
      rcases hp with hp|⟨hp,_⟩
      · cases hp
      · cases hp
  | _ => trivial

/-- Points outside calls keep no objects. -/
theorem denoted_outside (h : ¬CallPoint n) : Denoted objects n := by
  cases n with
  | pipeRead id buf len g => exact absurd trivial h
  | acquire id g => exact absurd trivial h
  | cvarWait id lockId g g' => exact absurd trivial h
  | _ => trivial

/-- Stopped calls keep the objects they were called with in a step. -/
theorem named_step (hw : Watched M s g) (he : input.Enabled s)
    (hr : RefOk (Watching pipes) gone p s.live s.kernelContext s.objects)
    (h : Named pipes p s g) : Named pipes p (kernelStep M env s input) (entered s g input) := by
  intro hl hwatch e hge
  have ho := kernelStep_outcome env hw he
  by_cases hp : p=s.currentProcess
  · subst hp
    have hheld := held_step hw ho hl
    rw [hge] at hheld
    cases input with
    | trap u =>
      rw [show entered s g (.trap u) s.currentProcess=some ⟨u,s.objects⟩ from
        if_pos (.inl rfl)] at hge
      injection hge with hge
      subst hge
      exact ho.fresh
    | resume =>
      by_cases hcp : CallPoint ((kernelStep M env s .resume).kernelContext s.currentProcess).point
      · have hlive := hw.ready.current_live
        have hge' : g s.currentProcess=some e := hge
        obtain ⟨hrun,hne⟩ := hw.kernel he
        have hz : (s.kernelContext s.currentProcess).point≠.exited :=
          fun hx => hrun.not_zombie (hw.saved.exited _ hlive hx)
        have hold := hw.held _ hlive
        rw [hge'] at hold
        have hs := stopped_before hold hheld hne hz hcp
        obtain ⟨_,e',he',_,hs'⟩ := hheld.call hcp
        injection he' with he'
        subst he'
        have hn : ∀ id g₁,(s.kernelContext s.currentProcess).point≠.acquire id g₁ := by
          intro id g₁ hk
          rw [acquire_executing hw.toCoherent hrun hk] at hcp
          exact hcp
        have hwb := watching_before hs hs' hwatch
        exact denoted_again hs hs' (h hlive hwb e hge') ho.fresh (hr hlive hwb) hn
      · exact denoted_outside hcp
  · cases hs : s.live p with
    | true =>
      rw [entered_other hp hs] at hge
      obtain ⟨hk,_⟩ := ho.others.old p hp hs
      rw [hk] at hwatch ⊢
      exact h hs hwatch e hge
    | false =>
      obtain ⟨_,hk,_⟩ := ho.others.born p hp hs hl
      rw [hk]
      trivial

/-- Every state of a watched run in which the numbers of p are neither handed
out again nor, if objects may not go, freed. -/
theorem run_named {ok : Kernel → Env → Input → Prop}
    (hok : ∀ s env input,ok s env input → env.switchOk=true ∧ StepAllowed M allow s env input)
    (hopen : ∀ i c live saved,allow (.opens i c live saved) → live p=true →
      Watching pipes (saved p).point → gone → ¬Refers (saved p).point c i)
    (hfree : ∀ i live saved,allow (.reclaims i live saved) → live p=true →
      Watching pipes (saved p).point → ¬gone → ∀ c,¬Refers (saved p).point c i)
    (h : EntryRun M ok s g) :
    RefOk (Watching pipes) gone p s.live s.kernelContext s.objects ∧ Named pipes p s g := by
  have href : ∀ {s},Run M (fun _ => True) ok s →
      RefOk (Watching pipes) gone p s.live s.kernelContext s.objects := by
    intro s hs
    refine (run_invariant (P := fun s =>
      RefOk (Watching pipes) gone p s.live s.kernelContext s.objects) hok
      (fun b p₁ q₁ pfn pfns m₁ m₂ m v u _ hf hl _ => ?_)
      (fun c s t hc hp hop => op_refOk hc hopen hfree hp hop) hs).2
    rcases booted_live.1 hl with rfl|rfl
    · rw [booted_executing]
      trivial
    · rw [booted_idle hf.ne]
      trivial
  refine ⟨href h.run,?_⟩
  induction h with
  | boot b hu =>
    intro _ _ e he
    cases he
  | step env input hr he hst ih =>
    exact named_step (run_watched (fun s env input hs => (hok s env input hs).1) hr) he
      (href hr.run) ih

/-- A process that goes on behind a call other than Fork is inside that call. -/
theorem resumed_inside (hw : Watched M s g) (hcpu : s.cpu=.kernel)
    (hg : g s.currentProcess=some e) (hv : e.context.vector=.kernel)
    (hf : M.syscallOf e.context.code≠.fork) :
    Stopped M e.context (s.kernelContext s.currentProcess).point := by
  have hlive := hw.ready.current_live
  obtain ⟨hrun,hne⟩ := hw.kernel hcpu
  have hheld := hw.held _ hlive
  rw [hg] at hheld
  exact held_inside hheld hv hf hne (fun hx => hrun.not_zombie (hw.saved.exited _ hlive hx))

/-- A call that goes on, with the objects it was called with. -/
theorem Named.inside (hn : Named pipes p s g) (hw : Watched M s g) (hl : s.live p=true)
    (hg : g p=some e) (hc : CallPoint (s.kernelContext p).point)
    (hp : Watching pipes (s.kernelContext p).point) :
    Stopped M e.context (s.kernelContext p).point ∧
      Denoted e.objects (s.kernelContext p).point := by
  obtain ⟨_,e',he',_,hstop⟩ := (hw.held p hl).call hc
  rw [hg] at he'
  injection he' with he'
  subst he'
  exact ⟨hstop,hn hl hp e hg⟩

end Entries

end Yalnix.ObjectReferences
