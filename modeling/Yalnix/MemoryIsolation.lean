import Yalnix.PageContents
import Yalnix.Switching
import Yalnix.Continuations
import Yalnix.UserPointers

/-!
# The memory of a process that does not run

A process that is neither current nor a zombie keeps its address space, its
saved kernel stack and the contents of all frames of both, whatever the other
processes do, as long as the buffers that they name lie in their own pages.
Frames in use have one owner, and what the kernel writes for the current process
goes through its own table or into frames that were free.
-/

namespace Yalnix.MemoryIsolation

open Framework FrameTable KernelState Scheduling Ipc Terminals ProcessLifetime ProgramLoading
open Syscalls Traps KernelStart Coherence Operations OperationCoherence StepOperations
open CallOperations RunInvariants Traces AddressSpaces FramePartition UserBreak ForkCopies
open PageContents Switching Continuations KernelEntries UserContexts UserPointers

section Forks

variable {M : Machine} {m m' : Memory} {pt src : PageTable} {f : ℕ} {r : Option PageTable}

/-- A frame in use keeps its contents when the pages of a fork are copied. -/
theorem copyPages_kept {l : List ℕ} (hf : m.frameAllocated f=true)
    (h : copyRegion1Pages M src l m pt=(m',r)) : m'.contents f=m.contents f := by
  induction l generalizing m pt with
  | nil =>
    injection h with hm
    rw [←hm]
  | cons i rest ih =>
    unfold copyRegion1Pages at h
    split at h
    · split at h
      · injection h with hm
        rw [←hm]
        exact congrFun (freeEntries_contents _ m pt) f
      · rename_i pfn m₁ ha
        obtain ⟨hs,ht⟩ := alloc_taken ha
        split at h
        · injection h with hm
          rw [←hm]
          exact (congrFun ((freeEntries_contents _ _ pt).trans (frameFree_contents m₁ pfn)) f).trans
            (hs.contents f hf)
        · have hfill := fill_spared (M := M) (f := (src i).pfn) hs ht
          exact (ih (hfill.marked f hf) h).trans (hfill.contents f hf)
    · exact ih hf h

/-- Frames that are not of the new kernel stack are not written. -/
theorem copyStack_other {pfns : ℕ → ℕ} {l : List ℕ} (hf : ∀ i∈l,f≠pfns i) :
    (copyKernelStack M pfns l m).contents f=m.contents f := by
  induction l generalizing m with
  | nil => rfl
  | cons i rest ih =>
    unfold copyKernelStack
    rw [ih (fun j hj => hf j (List.mem_cons_of_mem _ hj))]
    exact Function.update_of_ne (hf i List.mem_cons_self) ..

variable {env : Env} {s : Kernel} {m₁ : Memory} {pfns : ℕ → ℕ}

/-- The frames of a new process leave frames in use as they are. -/
theorem childMemory_kept (hk : processAllocKernelStack M m=(m₁,some pfns))
    (hp : processCopyRegion1 M m₁ src=(m',r)) (hf : m.frameAllocated f=true) :
    m'.contents f=m.contents f ∧ ∀ i∈List.range M.kernelStackPages,f≠pfns i := by
  have ht := allocStack_taken hk
  refine ⟨(copyPages_kept (ht.spared.marked f hf) hp).trans (congrFun ht.contents f),
    fun i hi => ?_⟩
  have hlt := List.mem_range.1 hi
  exact ((ht.taken i (by omega) (by omega)).ne hf).symm

/-- So does a fork that fails. -/
theorem createChild_kept {p : PcbPtr}
    (h : processCreateChild M env p s=({s with memory := m},none))
    (hf : s.memory.frameAllocated f=true) : m.contents f=s.memory.contents f := by
  have hmem : (processCreateChild M env p s).1.memory=m := by rw [h]
  rw [←hmem]
  unfold processCreateChild createChildRun
  have hk := allocStack_contents M.kernelStackPages 0 (fun _ => 0) s.memory
  cases hc : callocPcb env s with
  | none => rfl
  | some c =>
    dsimp only
    cases hks : processAllocKernelStack M s.memory with
    | mk m₁ o =>
      unfold processAllocKernelStack at hks
      rw [hks] at hk
      cases o with
      | none => exact congrFun hk f
      | some pfns =>
        dsimp only
        split
        · exact congrFun ((freeSlots_contents _ pfns m₁).trans hk) f
        · have hcopy : ∀ {m₂ o₂},processCopyRegion1 M m₁ (s.space p).region1Pt=(m₂,o₂) →
              m₂.contents f=s.memory.contents f :=
            fun hp => (childMemory_kept hks hp hf).1
          cases hcr : processCopyRegion1 M m₁ (s.space p).region1Pt with
          | mk m₂ o₂ =>
            cases o₂ with
            | none => exact (congrFun (freeSlots_contents _ pfns m₂) f).trans (hcopy hcr)
            | some pt => exact hcopy hcr

end Forks

section Frames

variable {M : Machine} {R : ℕ → Bool} {s t w : Kernel} {p c : PcbPtr} {f : ℕ}

/-- A frame of a process: behind a page of its table, or of its kernel stack.
Idle runs on the boot stack. -/
def FrameOf (M : Machine) (s : Kernel) (p : PcbPtr) (f : ℕ) : Prop :=
  (∃ i<M.maxPtLen,((s.space p).region1Pt i).valid=true ∧ ((s.space p).region1Pt i).pfn=f) ∨
    p≠s.idleProcess ∧ ∃ i<M.kernelStackPages,(s.space p).kernelStackPfns i=f

/-- The places of a process. -/
def PlaceOf (p : PcbPtr) : Place → Prop
  | .reserved _ => False
  | .page q _ => q=p
  | .stack q _ => q=p

/-- The frames of a process are in its places. -/
theorem FrameOf.place (h : FrameOf M s p f) (hl : s.live p=true) (R : ℕ → Bool) :
    ∃ x,PlaceOf p x ∧ held M R s.live s.idleProcess s.space x=some f := by
  rcases h with ⟨i,hi,hv,hf⟩|⟨hp,i,hi,hf⟩
  · refine ⟨.page p i,rfl,?_⟩
    dsimp only [held,tableSlots]
    rw [if_pos hl,if_pos ⟨hi,hv⟩,hf]
  · refine ⟨.stack p i,rfl,?_⟩
    dsimp only [held,stackSlots]
    rw [if_pos ⟨hl,hp⟩,if_pos hi,hf]

/-- The frames of a living process are in use. -/
theorem FrameOf.marked (h : FrameOf M s p f) (hl : s.live p=true) (ho : Owned M R s) :
    s.memory.frameAllocated f=true := by
  obtain ⟨x,_,hx⟩ := h.place hl R
  exact (ho.filed.held f).2 ⟨x,hx⟩

/-- No table of another process leads to them. -/
theorem FrameOf.misses (h : FrameOf M s p f) (hl : s.live p=true) (ho : Owned M R s)
    (h0 : R 0=true) (hz : Zeroed M s) (hc : s.live c=true) (hpc : p≠c) :
    Misses M (s.space c).region1Pt f := by
  obtain ⟨x,hp,hx⟩ := h.place hl R
  intro i hi he
  cases hv : ((s.space c).region1Pt i).valid with
  | true =>
    have hplace : held M R s.live s.idleProcess s.space (.page c i)=some f := by
      dsimp only [held,tableSlots]
      rw [if_pos hc,if_pos ⟨hi,hv⟩,he]
    rw [ho.filed.unique f _ _ hx hplace] at hp
    exact hpc hp.symm
  | false =>
    rw [hz c hc i hi hv] at he
    have hplace : held M R s.live s.idleProcess s.space (.reserved 0)=some f := by
      dsimp only [held]
      rw [if_pos h0]
      exact congrArg some he
    rw [ho.filed.unique f _ _ hx hplace] at hp
    exact hp

/-- What a process keeps while it does not run. -/
structure Left (M : Machine) (p : PcbPtr) (s t : Kernel) : Prop where
  /-- The process exists. -/
  live : t.live p=true
  /-- It has not ended. -/
  alive : t.state p≠.zombie
  /-- Idle is the same process. -/
  idle : t.idleProcess=s.idleProcess
  /-- The process keeps its identifier. -/
  pid : t.pid p=s.pid p
  /-- It is the same process. -/
  birth : t.birth p=s.birth p
  /-- Its table, its break, its stack limit and the frames of its kernel stack. -/
  space : t.space p=s.space p
  /-- Where it goes on. -/
  saved : t.kernelContext p=s.kernelContext p
  /-- The bytes of its pages and of its kernel stack. -/
  contents : ∀ f,FrameOf M s p f → t.memory.contents f=s.memory.contents f

/-- A process that has not ended is left alone where nothing happens. -/
theorem Left.refl (hl : s.live p=true) (hz : s.state p≠.zombie) : Left M p s s :=
  ⟨hl,hz,rfl,rfl,rfl,rfl,rfl,fun _ _ => rfl⟩

/-- The process has the same frames. -/
theorem Left.frameOf (h : Left M p s t) (hf : FrameOf M s p f) : FrameOf M t p f := by
  unfold FrameOf
  rw [h.space,h.idle]
  exact hf

/-- One change after the other. -/
theorem Left.trans (h : Left M p s t) (h' : Left M p t w) : Left M p s w :=
  ⟨h'.live,h'.alive,h'.idle.trans h.idle,h'.pid.trans h.pid,h'.birth.trans h.birth,
    h'.space.trans h.space,h'.saved.trans h.saved,
    fun f hf => (h'.contents f (h.frameOf hf)).trans (h.contents f hf)⟩

end Frames

section Operations

variable {M : Machine} {R : ℕ → Bool} {env : Env} {s t : Kernel} {p : PcbPtr} {f : ℕ}
  {allow : Label → Prop}

/-- The switch that ends a kernel entry touches no address space. -/
theorem dispatch_left (hc : Coherent M s) (hs : env.switchOk=true) (hl : s.live p=true)
    (hz : s.state p≠.zombie) : Left M p s (dispatchNext M env s) := by
  have hout := dispatch_outside hc hs hl hz
  have he := dispatchNext_eq hc hs
  refine ⟨hout.live,hout.alive,hout.idle,hout.pid,hout.birth,hout.space,hout.saved,fun f _ => ?_⟩
  rw [he]

/-- What is known about the frames of a state in which frame zero is reserved. -/
structure FramesOk (M : Machine) (R : ℕ → Bool) (s : Kernel) : Prop where
  /-- Each frame in use is in one place. -/
  owned : Owned M R s
  /-- Entries that are not valid are zero. -/
  zeroed : Zeroed M s
  /-- The layout of the address spaces. -/
  spaces : (s.cpu=.user ∨ s.cpu=.kernel) → Spaces M s

/-- Every operation keeps the frames of the processes in use and apart. -/
theorem op_framesOk {b : Bool} (hallow : ∀ e,allow (.space e) → LoadInfoOk M e) (h0 : R 0=true)
    (hc : Coherent M s) (h : FramesOk M R s) (hop : Op M allow b s t) : FramesOk M R t :=
  ⟨op_owned hallow h0 hc h.spaces h.owned hop,op_zeroed hc h.zeroed hop,
    op_spaces hallow hc h.spaces hop⟩

/-- No operation of another process writes a frame of a process. -/
theorem op_untouched {b : Bool} (h0 : R 0=true) (hc : Coherent M s) (h : FramesOk M R s)
    (h' : FramesOk M R t) (hl : s.live p=true) (hz : s.state p≠.zombie) (hp : p≠s.currentProcess)
    (hop : Op M allow b s t) (hf : FrameOf M s p f) : t.memory.contents f=s.memory.contents f := by
  have hmark := hf.marked hl h.owned
  have hcl := hc.ready.current_live
  have hout := op_outside hc hl hz hp hop
  -- the table that an operation leaves to the current process does not lead to the frame either
  have hmiss : t.live s.currentProcess=true → Misses M (t.space s.currentProcess).region1Pt f := by
    refine fun hct => FrameOf.misses (p := p) ?_ hout.live h'.owned h0 h'.zeroed hct hp
    unfold FrameOf
    rw [hout.space,hout.idle]
    exact hf
  cases hop with
  | stop c e m v ha hu hk hzu hv =>
    have hm := hmiss hcl
    dsimp only at hm
    rw [Function.update_self] at hm
    exact spaceEnd_misses hv hm
  | respace e m v hst =>
    have hm := hmiss hcl
    dsimp only at hm
    rw [Function.update_self] at hm
    exact spaceStep_misses hst hm
  | zombie status k e m v hk hb hch hlo hpa hv =>
    have hm := hmiss hcl
    dsimp only at hm
    rw [Function.update_self] at hm
    exact spaceEnd_misses hv hm
  | zombieWake status k e m v hk hb hch hlo hpa hw hv =>
    have hm := hmiss hcl
    dsimp only [markReady] at hm
    rw [Function.update_self] at hm
    exact spaceEnd_misses hv hm
  | dispatch e hsw => exact (dispatch_left hc hsw hl hz).contents f hf
  | forkFails e m ha hfk => exact createChild_kept hfk hmark
  | forkUndone e c pfns pt m₁ m u ha hcp hk hpt =>
    obtain ⟨hc0,hlc⟩ := callocPcb_fresh hcp
    have hm := (childMemory_kept hk hpt hmark).1
    rw [destroyed_child hc hc0 hlc]
    dsimp only [releaseProcess,Kernel.setUserContext,enterChild]
    split
    · exact (congrFun (freeEntries_contents _ _ _) f).trans hm
    · exact (congrFun ((freeSlots_contents _ _ _).trans (freeEntries_contents _ _ _)) f).trans hm
  | spawn e caller c pfns pt m₁ m u hb hcp hk hn hpt =>
    obtain ⟨hm,hne⟩ := childMemory_kept hk hpt hmark
    rw [spawn_eq]
    dsimp only [kcCopy,enterChild]
    rw [Function.update_self]
    exact (copyStack_other hne).trans hm
  | collect statusPtr c ha hch hzc =>
    rw [collectChild_eq hc ha statusPtr hch hzc]
    dsimp only [releaseProcess]
    split
    · exact congrFun (freeEntries_contents _ _ _) f
    · exact congrFun ((freeSlots_contents _ _ _).trans (freeEntries_contents _ _ _)) f
  | _ => rfl

/-- A process is left alone by every operation of another one. -/
theorem op_left {b : Bool} (h0 : R 0=true) (hc : Coherent M s) (h : FramesOk M R s)
    (h' : FramesOk M R t) (hl : s.live p=true) (hz : s.state p≠.zombie) (hp : p≠s.currentProcess)
    (hop : Op M allow b s t) : Left M p s t := by
  have hout := op_outside hc hl hz hp hop
  exact ⟨hout.live,hout.alive,hout.idle,hout.pid,hout.birth,hout.space,hout.saved,
    fun f hf => op_untouched h0 hc h h' hl hz hp hop hf⟩

end Operations

section Runs

variable {M : Machine} {R : ℕ → Bool} {env : Env} {s t : Kernel} {p : PcbPtr}
  {l : List (Env × Input)}

/-- One kernel entry of another process. -/
theorem kernelStep_left (h : Settled M s) (hs : env.switchOk=true) (hli : LoadInfoOk M env)
    (h0 : R 0=true) (hf : FramesOk M R s) {input : Input} (he : input.Enabled s)
    (hl : s.live p=true) (hz : s.state p≠.zombie) (hp : s.currentProcess≠p) :
    Left M p s (kernelStep M env s input) := by
  obtain ⟨x,hx,hend⟩ := kernelStep_ending h hs he
  have hallow : ∀ e,FromEnv env (.space e) → LoadInfoOk M e := by
    intro e ha
    rw [ha.2 e rfl]
    exact hli
  have hstay : Left M p s x ∧ FramesOk M R x := by
    refine hx.invariant (P := fun v => Left M p s v ∧ FramesOk M R v) h.toCoherent
      ⟨.refl hl hz,hf⟩ (fun b v w hc hcur hpv hop _ => ?_)
    obtain ⟨hv,hfv⟩ := hpv
    have hfw := op_framesOk hallow h0 hc hfv hop
    have hne : p≠v.currentProcess := by
      rw [hcur]
      exact hp.symm
    exact ⟨hv.trans (op_left h0 hc hfv hfw hv.live hv.alive hne hop),hfw⟩
  rcases hend with hend|hend
  · rw [hend]
    exact hstay.1
  · rw [hend]
    exact hstay.1.trans
      (dispatch_left (hx.coherent h.toCoherent) hs hstay.1.live hstay.1.alive)

/-- The frames of a run. -/
theorem run_framesOk (h : Run M (fun b => LoadInfoOk M b.initEnv)
      (fun _ env _ => env.switchOk=true ∧ LoadInfoOk M env) s) :
    Settled M s ∧ ∃ R,R 0=true ∧ FramesOk M R s :=
  run_invariant (layout_allowed M) (P := fun s => ∃ R,R 0=true ∧ FramesOk M R s)
    (fun b p q pfn pfns m₁ m₂ m v u hb hf => ⟨reserved M b,reserved_zero hf.stack,
      booted_owned hb hf,booted_zeroed hf,fun _ => booted_spaces hb hf⟩)
    (fun c s t hc hp hop => by
      obtain ⟨R,h0,hf⟩ := hp
      exact ⟨R,h0,op_framesOk (fun env he => he env rfl) h0 hc hf hop⟩) h

/-- The buffers for stores that the last trap of the current process names lie
in pages of that process, as its table was at the trap, that may be written. -/
def StoresMapped (M : Machine) (s : Kernel) (g : PcbPtr → Option Entry)
    (tables : PcbPtr → PageTable) (input : Input) : Prop :=
  ∀ e,entered s g input s.currentProcess=some e →
    Within (Writable M (tablesAt s tables input s.currentProcess)) (namedStores M e.context)

/-- For a trap the table is the present one and the buffers are those of its
registers. -/
theorem storesMapped_trap {g : PcbPtr → Option Entry} {tables : PcbPtr → PageTable}
    {u : UserContext} (h : ∀ b∈namedStores M u,∀ i<b.2,
      Writable M (s.space s.currentProcess).region1Pt (b.1+i)) :
    StoresMapped M s g tables (.trap u) := by
  intro e he
  have hent : entered s g (.trap u) s.currentProcess=some ⟨u,s.objects⟩ := if_pos (.inl rfl)
  have htab : tablesAt s tables (.trap u) s.currentProcess=
      (s.space s.currentProcess).region1Pt := if_pos rfl
  rw [hent] at he
  injection he with he
  subst he
  rw [htab]
  exact h

/-- Watched runs that go on from a state while each step meets a condition. -/
inductive WatchedLater (M : Machine)
    (ok : Kernel → (PcbPtr → Option Entry) → (PcbPtr → PageTable) → Env → Input → Prop)
    (s : Kernel) (g : PcbPtr → Option Entry) (tables : PcbPtr → PageTable) :
    Kernel → (PcbPtr → Option Entry) → (PcbPtr → PageTable) → Prop
  /-- The state that is watched is reached without a step. -/
  | refl : WatchedLater M ok s g tables s g tables
  /-- A watched run goes on with one more step. -/
  | step {t : Kernel} {g' : PcbPtr → Option Entry} {tables' : PcbPtr → PageTable} (env : Env)
      (input : Input) (h : WatchedLater M ok s g tables t g' tables') (he : input.Enabled t)
      (hok : ok t g' tables' env input) :
      WatchedLater M ok s g tables (kernelStep M env t input) (entered t g' input)
        (tablesAt t tables' input)

/-- A step of other processes than p: the switch succeeds, the image is sane,
and the named buffers lie in pages of the current process. -/
def OtherStep (M : Machine) (p : PcbPtr) (t : Kernel) (g : PcbPtr → Option Entry)
    (tables : PcbPtr → PageTable) (env : Env) (input : Input) : Prop :=
  (env.switchOk=true ∧ LoadInfoOk M env) ∧ t.currentProcess≠p ∧ StoresMapped M t g tables input

variable {g g' : PcbPtr → Option Entry} {tables tables' : PcbPtr → PageTable}

/-- The run goes on with sane images, and it is watched. -/
theorem WatchedLater.runs (h : WatchedLater M (OtherStep M p) s g tables t g' tables')
    (hr : Run M (fun b => LoadInfoOk M b.initEnv)
      (fun _ env _ => env.switchOk=true ∧ LoadInfoOk M env) s)
    (hw : TableRun M SwitchSucceeds s g tables) :
    Run M (fun b => LoadInfoOk M b.initEnv)
      (fun _ env _ => env.switchOk=true ∧ LoadInfoOk M env) t ∧
        TableRun M SwitchSucceeds t g' tables' := by
  induction h with
  | refl => exact ⟨hr,hw⟩
  | step env input _ he hok ih =>
    exact ⟨.step env input ih.1 he hok.1,.step env input ih.2 he hok.1.1⟩

/-- An address that may be written lies in a valid page of the table. -/
theorem writable_page {pt : PageTable} {addr : ℕ} (h : Writable M pt addr) :
    ∃ i<M.maxPtLen,(pt i).valid=true ∧ (userPte M pt addr).pfn=(pt i).pfn := by
  unfold Writable userPte at h
  unfold userPte
  by_cases hin : M.vmem1Base≤addr ∧ addr<M.vmem1Limit
  · rw [if_pos hin] at h ⊢
    obtain ⟨k,hk⟩ := M.pageSize_dvd_base
    have hp := M.pageSize_pos
    have hlen := M.maxPtLen_pos
    have hbase : M.vmem1Base/M.pageSize=k := by
      rw [hk,Nat.mul_div_cancel_left k hp]
    have hlimit : M.vmem1Limit=M.vmem1Base+M.maxPtLen*M.pageSize := rfl
    have hpage : addr/M.pageSize<k+M.maxPtLen := by
      refine (Nat.div_lt_iff_lt_mul hp).2 ?_
      rw [Nat.add_mul,Nat.mul_comm k,←hk]
      omega
    exact ⟨_,by omega,h.1,rfl⟩
  · rw [if_neg hin] at h
    cases h.1

/-- An address of a page that may be written leads to no frame of another
process. -/
theorem writable_apart (h0 : R 0=true) (hf : FramesOk M R t) (hl : t.live p=true)
    {c : PcbPtr} (hc : t.live c=true) (hpc : p≠c) {addr : ℕ}
    (hw : Writable M (t.space c).region1Pt addr) :
    ¬FrameOf M t p (userPte M (t.space c).region1Pt addr).pfn := by
  intro hof
  obtain ⟨i,hi,_,hpfn⟩ := writable_page hw
  exact hof.misses hl hf.owned h0 hf.zeroed hc hpc i hi hpfn.symm

/-- As long as other processes are current, and the buffers that they name for
stores lie in pages of their own, a process that has not ended keeps its address
space, the place where it goes on and the contents of every frame of its pages
and of its kernel stack. Each store through a user pointer in the next step of
another process is made through a page of that process whose frame is none of
these. -/
theorem memory_isolation (h : Run M (fun b => LoadInfoOk M b.initEnv)
      (fun _ env _ => env.switchOk=true ∧ LoadInfoOk M env) s)
    (hw : TableRun M SwitchSucceeds s g tables) (hl : s.live p=true) (hz : s.state p≠.zombie)
    (hlater : WatchedLater M (OtherStep M p) s g tables t g' tables') :
    Left M p s t ∧ ∀ env input,OtherStep M p t g' tables' env input →
      ∃ l,(kernelStep M env t input).log=t.log++l ∧ ∀ q a n,.stored q a n∈l → ∀ i<n,
        Writable M (t.space q).region1Pt (a+i) ∧
          ¬FrameOf M s p (userPte M (t.space q).region1Pt (a+i)).pfn := by
  have hleft : Left M p s t := by
    induction hlater with
    | refl => exact .refl hl hz
    | step env input hprev he hok ih =>
      obtain ⟨⟨hs,hli⟩,hp,_⟩ := hok
      obtain ⟨hset,R,h0,hf⟩ := run_framesOk (hprev.runs h hw).1
      exact ih.trans (kernelStep_left hset hs hli h0 hf he ih.live ih.alive hp)
  refine ⟨hleft,fun env input hok => ?_⟩
  obtain ⟨hrun,hwatched⟩ := hlater.runs h hw
  obtain ⟨hset,R,h0,hf⟩ := run_framesOk hrun
  obtain ⟨l,hlog,hstored,_⟩ := @run_accesses M env t g' tables' input hwatched
  refine ⟨l,hlog,fun q a n hmem i hi => ?_⟩
  obtain ⟨hq,e,he,_,hin⟩ := hstored q a n hmem
  subst hq
  have hwrite := hin (hok.2.2 e he) i hi
  exact ⟨hwrite,fun hof => writable_apart h0 hf hleft.live hset.ready.current_live
    hok.2.1.symm hwrite (hleft.frameOf hof)⟩

/-- The initial process behind a fork. -/
def forkedSample : Kernel := kernelStep sampleMachine (forkInput 3 2).1
  (kernelStart sampleMachine sampleBoot) (forkInput 3 2).2

/-- Behind a Brk it has more pages. -/
def grownSample : Kernel := kernelStep sampleMachine (callInput 6 0x10c000 0 0).1 forkedSample
  (callInput 6 0x10c000 0 0).2

/-- Then it forks once more. -/
def againSample : Kernel := kernelStep sampleMachine (forkInput 4 3).1 grownSample
  (forkInput 4 3).2

/-- A child that does not run keeps its memory while its parent gets pages and
forks once more. The store of a PipeInit of the parent behind that goes to a
frame that is not the child's. -/
theorem memory_isolation_child : Left sampleMachine 3 forkedSample againSample ∧
    FrameOf sampleMachine forkedSample 3 49 ∧
    forkedSample.memory.frameAllocated≠againSample.memory.frameAllocated ∧
    storesOf againSample (kernelStep sampleMachine (sampleEnv 0 0) againSample
      (callInput 10 0x105000 0 0).2)=[(2,0x105000,4)] ∧
    ∀ i<4,¬FrameOf sampleMachine forkedSample 3
      (userPte sampleMachine (againSample.space 2).region1Pt (0x105000+i)).pfn := by
  have hboot : LoadInfoOk sampleMachine (sampleEnv 0 0) :=
    (imageTest_sound (kernelStart sampleMachine sampleBoot) _ .resume (by decide)).2
  have hsane : ∀ a pid,(sampleEnv a pid).switchOk=true ∧
      LoadInfoOk sampleMachine (sampleEnv a pid) := fun _ _ => ⟨rfl,hboot⟩
  have hr : Run sampleMachine (fun b => LoadInfoOk sampleMachine b.initEnv)
      (fun _ env _ => env.switchOk=true ∧ LoadInfoOk sampleMachine env) forkedSample :=
    .step _ _ (.boot sampleBoot hboot sampleBoot_user) sampleBoot_user (hsane 3 2)
  obtain ⟨g,tables,hw⟩ : ∃ g tables,TableRun sampleMachine SwitchSucceeds forkedSample g tables :=
    ⟨_,_,.step (forkInput 3 2).1 (forkInput 3 2).2 (.boot sampleBoot sampleBoot_user)
      sampleBoot_user rfl⟩
  obtain ⟨hu₁,hp₁,hl,hz,hi,hk,ha⟩ : forkedSample.cpu=.user ∧ forkedSample.currentProcess≠3 ∧
      forkedSample.live 3=true ∧ forkedSample.state 3≠.zombie ∧ 3≠forkedSample.idleProcess ∧
      (forkedSample.space 3).kernelStackPfns 0=49 ∧
      forkedSample.memory.frameAllocated 60=false := by decide +kernel
  obtain ⟨hu₂,hp₂⟩ : grownSample.cpu=.user ∧ grownSample.currentProcess≠3 := by decide +kernel
  obtain ⟨hp₃,ha',hmapped,hstores⟩ : againSample.currentProcess≠3 ∧
      againSample.memory.frameAllocated 60=true ∧
      (∀ b∈namedStores sampleMachine (sampleContext .kernel 10 0x105000 0 0),∀ i<b.2,
        Writable sampleMachine (againSample.space againSample.currentProcess).region1Pt (b.1+i)) ∧
      storesOf againSample (kernelStep sampleMachine (sampleEnv 0 0) againSample
        (callInput 10 0x105000 0 0).2)=[(2,0x105000,4)] := by decide +kernel
  obtain ⟨g',tables',hlater⟩ : ∃ g' tables',WatchedLater sampleMachine
      (OtherStep sampleMachine 3) forkedSample g tables againSample g' tables' :=
    ⟨_,_,.step (forkInput 4 3).1 (forkInput 4 3).2
      (.step (callInput 6 0x10c000 0 0).1 (callInput 6 0x10c000 0 0).2 .refl hu₁
        ⟨hsane 0 0,hp₁,storesMapped_trap (fun b hb => absurd hb List.not_mem_nil)⟩) hu₂
      ⟨hsane 4 3,hp₂,storesMapped_trap (fun b hb => absurd hb List.not_mem_nil)⟩⟩
  obtain ⟨hleft,hstep⟩ := memory_isolation hr hw hl hz hlater
  obtain ⟨l,hlog,hstored⟩ := hstep (sampleEnv 0 0) (callInput 10 0x105000 0 0).2
    ⟨hsane 0 0,hp₃,storesMapped_trap hmapped⟩
  refine ⟨hleft,.inr ⟨hi,0,by decide,hk⟩,fun he => ?_,hstores,fun j hj => ?_⟩
  · rw [he,ha'] at ha
    cases ha
  · exact (hstored _ _ _ (storesOf_recorded hlog hstores) j hj).2

end Runs

end Yalnix.MemoryIsolation
