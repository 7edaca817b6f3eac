import Yalnix.MemoryIsolation
import Yalnix.ExitStatuses

/-!
# Families

A parent is older than its children, and lists of children are in the order of
their creation. So families are trees, and Wait, which collects the first
child on the list that has ended, collects the oldest one, with its table
entry and its frames and nothing else.
-/

namespace Yalnix.Families

open Framework FrameTable KernelState Scheduling Ipc Terminals ProcessLifetime ProgramLoading
open Syscalls Traps KernelStart Coherence Operations OperationCoherence StepOperations
open CallOperations RunInvariants Traces KernelEntries Continuations AddressSpaces
open FramePartition ScratchPage MappedFrames PageContents MemoryIsolation ExitStatuses
open UserPointers

variable {M : Machine} {allow : Label → Prop} {env : Env} {s t : Kernel} {m m' : Memory}
  {pt : PageTable} {p q c d : PcbPtr} {f i : ℕ} {l : List ℕ}

section Trees

/-- Parents are older than their children, and lists of children are by age. -/
structure ElderOk (live : PcbPtr → Bool) (parent : PcbPtr → PcbPtr)
    (children : PcbPtr → List PcbPtr) (birth : PcbPtr → ℕ) : Prop where
  /-- A parent is older than its child. -/
  older : ∀ c,live c=true → parent c≠0 → birth (parent c)<birth c
  /-- Older children come first. -/
  sorted : ∀ p,live p=true → (children p).Pairwise (fun a b => birth a<birth b)

/-- The families of a state. -/
abbrev Elders (s : Kernel) : Prop := ElderOk s.live s.parent s.children s.birth

/-- A child is taken off the list. -/
theorem ElderOk.orphan {rest : List PcbPtr}
    {live : PcbPtr → Bool} {parent : PcbPtr → PcbPtr} {children : PcbPtr → List PcbPtr}
    {birth : PcbPtr → ℕ} (h : ElderOk live parent children birth)
    (hr : live p=true → rest.Sublist (children p)) :
    ElderOk live (Function.update parent c 0) (Function.update children p rest) birth := by
  refine ⟨fun d hd hp => ?_,fun q hq => ?_⟩
  · by_cases hdc : d=c
    · rw [hdc,Function.update_self] at hp
      exact absurd rfl hp
    · rw [Function.update_of_ne hdc] at hp ⊢
      exact h.older d hd hp
  · by_cases hqp : q=p
    · subst hqp
      rw [Function.update_self]
      exact (h.sorted q hq).sublist (hr hq)
    · rw [Function.update_of_ne hqp]
      exact h.sorted q hq

/-- A child that is taken out keeps the order of the others. -/
theorem ElderOk.remove {rest : List PcbPtr}
    {live : PcbPtr → Bool} {parent : PcbPtr → PcbPtr} {children : PcbPtr → List PcbPtr}
    {birth : PcbPtr → ℕ} (h : ElderOk live parent children birth)
    (hr : live p=true → rest.Sublist (children p)) :
    ElderOk (Function.update live c false) parent (Function.update children p rest) birth := by
  have hlive : ∀ d,Function.update live c false d=true → live d=true := by
    intro d hd
    by_cases hdc : d=c
    · rw [hdc,Function.update_self] at hd
      cases hd
    · rwa [Function.update_of_ne hdc] at hd
  refine ⟨fun d hd hp => h.older d (hlive d hd) hp,fun q hq => ?_⟩
  by_cases hqp : q=p
  · subst hqp
    rw [Function.update_self]
    exact (h.sorted q (hlive q hq)).sublist (hr (hlive q hq))
  · rw [Function.update_of_ne hqp]
    exact h.sorted q (hlive q hq)

/-- A child is entered behind its older sisters. -/
theorem ElderOk.enter {n : ℕ} {live : PcbPtr → Bool} {parent : PcbPtr → PcbPtr}
    {children : PcbPtr → List PcbPtr} {birth : PcbPtr → ℕ} (h : ElderOk live parent children birth)
    (hp : live p=true) (hc : live c=false) (hborn : ∀ q,live q=true → birth q<n)
    (hparent : ∀ q,live q=true → parent q≠0 → live (parent q)=true)
    (hchild : ∀ q,live q=true → ∀ d∈children q,live d=true) :
    ElderOk (Function.update live c true) (Function.update parent c p)
      (Function.update (Function.update children c []) p (children p++[c]))
      (Function.update birth c n) := by
  have hne : ∀ q,live q=true → q≠c := by
    rintro q hq rfl
    rw [hc] at hq
    cases hq
  have hbirth : ∀ q,live q=true → Function.update birth c n q=birth q :=
    fun q hq => Function.update_of_ne (hne q hq) ..
  have hlive : ∀ q,q≠c → Function.update live c true q=true → live q=true := by
    intro q hq hl
    rwa [Function.update_of_ne hq] at hl
  have hlist : ∀ q,live q=true →
      (children q).Pairwise
        (fun a b => Function.update birth c n a<Function.update birth c n b) := by
    intro q hq
    refine (h.sorted q hq).imp_of_mem (fun ha hb hab => ?_)
    rwa [hbirth _ (hchild q hq _ ha),hbirth _ (hchild q hq _ hb)]
  refine ⟨fun d hd hpd => ?_,fun q hq => ?_⟩
  · by_cases hdc : d=c
    · subst hdc
      rw [Function.update_self,Function.update_self,hbirth p hp]
      exact hborn p hp
    · have hdl := hlive d hdc hd
      rw [Function.update_of_ne hdc] at hpd
      rw [Function.update_of_ne hdc,hbirth _ (hparent d hdl hpd),hbirth d hdl]
      exact h.older d hdl hpd
  · by_cases hqp : q=p
    · subst hqp
      rw [Function.update_self]
      refine List.pairwise_append.2 ⟨hlist q hp,List.pairwise_singleton _ _,fun a ha b hb => ?_⟩
      rw [List.mem_singleton.1 hb,Function.update_self,hbirth a (hchild q hp a ha)]
      exact hborn a (hchild q hp a ha)
    · rw [Function.update_of_ne hqp]
      by_cases hqc : q=c
      · subst hqc
        rw [Function.update_self]
        exact List.Pairwise.nil
      · rw [Function.update_of_ne hqc]
        exact hlist q (hlive q hqc hq)

/-- Every operation keeps the order of the families. -/
theorem op_elders {b : Bool} (hc : Coherent M s) (hl : Lineage s) (h : Elders s)
    (hop : Op M allow b s t) : Elders t := by
  have hcur := hc.ready.current_live
  have hparent : ∀ q,s.live q=true → s.parent q≠0 → s.live (s.parent q)=true :=
    fun q hq hp => (hc.family.parent_child q hq hp).1
  have hchild : ∀ q,s.live q=true → ∀ d∈s.children q,s.live d=true :=
    fun q hq d hd => (hc.family.child_parent q d hq hd).1
  cases hop with
  | dispatch e hs =>
    have he := dispatchNext_eq hc hs
    rw [he]
    exact h
  | forkUndone e c pfns pt m₁ m u ha hcp =>
    obtain ⟨h0,hdead⟩ := callocPcb_fresh hcp
    rw [destroyed_child hc h0 hdead]
    exact (h.enter hcur hdead hl.born hparent hchild).remove (fun _ => List.erase_sublist ..)
  | spawn e caller c pfns pt m₁ m u hb hcp =>
    obtain ⟨h0,hdead⟩ := callocPcb_fresh hcp
    rw [spawn_eq]
    exact h.enter hcur hdead hl.born hparent hchild
  | orphan c rest ha hch =>
    refine h.orphan (fun _ => ?_)
    rw [hch]
    exact List.sublist_cons_self c rest
  | collect statusPtr c ha hch hz =>
    rw [collectChild_eq hc ha statusPtr hch hz]
    exact h.remove (fun _ => List.erase_sublist ..)
  | _ => exact h

/-- Every reachable state has its families in order, and idle has no children. -/
theorem reachable_elders (h : Reachable M s) :
    Settled M s ∧ Elders s ∧ s.children s.idleProcess=[] := by
  obtain ⟨hset,_,he,hi⟩ := reachable_invariant
    (P := fun s => Lineage s ∧ Elders s ∧ s.children s.idleProcess=[])
    (fun b p q pfn pfns m₁ m₂ m v u hf => ⟨booted_lineage hf,
      ⟨fun c _ hp => absurd rfl hp,fun _ _ => List.Pairwise.nil⟩,rfl⟩)
    (fun c s t hc hp hop => ⟨op_lineage hc hp.1 hop,op_elders hc hp.1 hp.2.1 hop,
      op_childless hc hp.2.2 hop⟩) h
  exact ⟨hset,he,hi⟩

/-- One process is the parent of another. -/
def ParentOf (s : Kernel) (p c : PcbPtr) : Prop := s.live c=true ∧ s.parent c=p ∧ p≠0

/-- An ancestor, however far, is older than its descendant. -/
theorem ancestor_older (h : Elders s) (ha : Relation.TransGen (ParentOf s) p c) :
    s.birth p<s.birth c := by
  have hone : ∀ {p c},ParentOf s p c → s.birth p<s.birth c := by
    rintro p c ⟨hl,rfl,h0⟩
    exact h.older c hl h0
  induction ha with
  | single hpc => exact hone hpc
  | tail _ hpc ih => exact ih.trans (hone hpc)

/-- In every run families are trees: nobody is its own ancestor, every ancestor
is older, and the list of a process holds exactly its children, the older ones
first. -/
theorem families (h : Reachable M s) :
    (∀ p c,Relation.TransGen (ParentOf s) p c → s.birth p<s.birth c ∧ p≠c) ∧
      ∀ p,s.live p=true → (∀ c,c∈s.children p ↔ ParentOf s p c) ∧
        (s.children p).Pairwise (fun a b => s.birth a<s.birth b) := by
  obtain ⟨hs,he,_⟩ := reachable_elders h
  refine ⟨fun p c ha => ?_,fun p hp => ⟨fun c => ⟨fun hm => ?_,fun hc => ?_⟩,he.sorted p hp⟩⟩
  · have hlt := ancestor_older he ha
    refine ⟨hlt,?_⟩
    rintro rfl
    exact absurd hlt (lt_irrefl _)
  · obtain ⟨hl,hpc⟩ := hs.family.child_parent p c hp hm
    exact ⟨hl,hpc,hs.ready.ne_null hp⟩
  · obtain ⟨hl,rfl,h0⟩ := hc
    exact (hs.family.parent_child c hl h0).2

/-- Init, its child and its grandchild. -/
theorem families_sample : ∃ s,Reachable sampleMachine s ∧ ParentOf s 2 3 ∧ ParentOf s 3 4 ∧
    s.birth 2<s.birth 4 := by
  obtain ⟨s,hr,hq⟩ := replay_reachable sampleBoot_user
    [forkInput 3 2,tickInput,resumeInput,forkInput 4 3]
    (fun s => s.live 3=true ∧ s.live 4=true ∧ s.parent 3=2 ∧ s.parent 4=3) (by decide +kernel)
  simp only [decide_eq_true_eq] at hq
  obtain ⟨h3,h4,hp3,hp4⟩ := hq
  have h23 : ParentOf s 2 3 := ⟨h3,hp3,by decide⟩
  have h34 : ParentOf s 3 4 := ⟨h4,hp4,by decide⟩
  exact ⟨s,hr,h23,h34,((families hr).1 2 4 (.tail (.single h23) h34)).1⟩

end Trees

section Frames

variable {pfns : ℕ → ℕ}

/-- A frame is given back. -/
theorem frameFree_iff (hf : q< m.physicalFrameCount) :
    (frameFree m q).frameAllocated f=true ↔ m.frameAllocated f=true ∧ q≠f := by
  unfold frameFree
  rw [if_neg (Nat.not_le.2 hf)]
  dsimp only
  by_cases hq : f=q
  · rw [hq,Function.update_self]
    exact ⟨fun h => (by cases h),fun h => absurd rfl h.2⟩
  · rw [Function.update_of_ne hq]
    exact ⟨fun h => ⟨h,Ne.symm hq⟩,fun h => h.1⟩

/-- Freeing entries of a table gives back the frames of the valid ones. -/
theorem freeEntries_iff (hn : l.Nodup) (hl : ∀ i∈l,i<M.maxPtLen)
    (hb : ∀ i∈l,(pt i).valid=true → (pt i).pfn< m.physicalFrameCount) :
    (freePageTableEntries M l m pt).1.frameAllocated f=true ↔
      m.frameAllocated f=true ∧ ¬∃ i∈l,(pt i).valid=true ∧ (pt i).pfn=f := by
  induction l generalizing m pt with
  | nil =>
    unfold freePageTableEntries
    simp
  | cons j rest ih =>
    rw [List.nodup_cons] at hn
    unfold freePageTableEntries
    by_cases hv : (pt j).valid=true
    · rw [if_pos hv]
      have hj := hl j List.mem_cons_self
      have hsame : ∀ i∈rest,memoryUnmapPage M pt j i=pt i := by
        intro i hi
        rw [unmapPage_eq (by omega) (by omega),Int.toNat_natCast]
        refine Function.update_of_ne ?_ ..
        rintro rfl
        exact hn.1 hi
      have hcount : (frameFree m (pt j).pfn).physicalFrameCount=m.physicalFrameCount := by
        unfold frameFree
        split
        · rfl
        · rfl
      rw [ih hn.2 (fun i hi => hl i (List.mem_cons_of_mem _ hi)) (fun i hi hvi => ?_),
        frameFree_iff (hb j List.mem_cons_self hv)]
      · constructor
        · rintro ⟨⟨ha,hne⟩,hnone⟩
          refine ⟨ha,?_⟩
          rintro ⟨i,hi,hvi,hf⟩
          rcases List.mem_cons.1 hi with rfl|hi
          · exact hne hf
          · exact hnone ⟨i,hi,by rwa [hsame i hi],by rwa [hsame i hi]⟩
        · rintro ⟨ha,hnone⟩
          refine ⟨⟨ha,fun hf => hnone ⟨j,List.mem_cons_self,hv,hf⟩⟩,?_⟩
          rintro ⟨i,hi,hvi,hf⟩
          rw [hsame i hi] at hvi hf
          exact hnone ⟨i,List.mem_cons_of_mem _ hi,hvi,hf⟩
      · rw [hsame i hi] at hvi ⊢
        rw [hcount]
        exact hb i (List.mem_cons_of_mem _ hi) hvi
    · rw [if_neg hv,ih hn.2 (fun i hi => hl i (List.mem_cons_of_mem _ hi))
        (fun i hi hvi => hb i (List.mem_cons_of_mem _ hi) hvi)]
      refine and_congr_right (fun _ => not_congr ⟨?_,?_⟩)
      · rintro ⟨i,hi,hvi⟩
        exact ⟨i,List.mem_cons_of_mem _ hi,hvi⟩
      · rintro ⟨i,hi,hvi,hf⟩
        rcases List.mem_cons.1 hi with rfl|hi
        · exact absurd hvi hv
        · exact ⟨i,hi,hvi,hf⟩

/-- Freeing a kernel stack gives back its frames. -/
theorem freeSlots_iff (hn : l.Nodup) (hb : ∀ i∈l,pfns i≠0 ∧ pfns i< m.physicalFrameCount) :
    (freeKernelStackSlots l pfns m).1.frameAllocated f=true ↔
      m.frameAllocated f=true ∧ ¬∃ i∈l,pfns i=f := by
  induction l generalizing m pfns with
  | nil =>
    unfold freeKernelStackSlots
    simp
  | cons j rest ih =>
    rw [List.nodup_cons] at hn
    obtain ⟨h0,hlt⟩ := hb j List.mem_cons_self
    have hsame : ∀ i∈rest,Function.update pfns j 0 i=pfns i := by
      intro i hi
      refine Function.update_of_ne ?_ ..
      rintro rfl
      exact hn.1 hi
    have hcount : (frameFree m (pfns j)).physicalFrameCount=m.physicalFrameCount := by
      unfold frameFree
      split
      · rfl
      · rfl
    unfold freeKernelStackSlots
    rw [if_pos h0,ih hn.2 (fun i hi => ?_),frameFree_iff hlt]
    · constructor
      · rintro ⟨⟨ha,hne⟩,hnone⟩
        refine ⟨ha,?_⟩
        rintro ⟨i,hi,hf⟩
        rcases List.mem_cons.1 hi with rfl|hi
        · exact hne hf
        · exact hnone ⟨i,hi,by rwa [hsame i hi]⟩
      · rintro ⟨ha,hnone⟩
        refine ⟨⟨ha,fun hf => hnone ⟨j,List.mem_cons_self,hf⟩⟩,?_⟩
        rintro ⟨i,hi,hf⟩
        rw [hsame i hi] at hf
        exact hnone ⟨i,List.mem_cons_of_mem _ hi,hf⟩
    · rw [hsame i hi,hcount]
      exact hb i (List.mem_cons_of_mem _ hi)

end Frames

section Wait

variable {R : ℕ → Bool} {u : UserContext} {input : Input} {g : Flow}

/-- The child that ended and was created before all others that have ended. -/
structure Oldest (s : Kernel) (c : PcbPtr) : Prop where
  /-- It is a child of the current process. -/
  child : c∈s.children s.currentProcess
  /-- The child has ended. -/
  ended : s.state c=.zombie
  /-- The others are younger. -/
  first : ∀ d∈s.children s.currentProcess,s.state d=.zombie → d≠c → s.birth c<s.birth d

/-- The first child on the list that has ended is the oldest one. -/
theorem zombieChild_oldest (h : Elders s) (hl : s.live s.currentProcess=true)
    (hz : zombieChild s s.currentProcess=some c) : Oldest s c := by
  obtain ⟨hz,before,behind,hlist,hbefore⟩ := List.find?_eq_some_iff_append.1 hz
  refine ⟨?_,of_decide_eq_true hz,fun d hd hdz hne => ?_⟩
  · rw [hlist]
    exact List.mem_append_right _ List.mem_cons_self
  · have hsorted := h.sorted _ hl
    rw [hlist] at hd hsorted
    rcases List.mem_append.1 hd with hd|hd
    · have := hbefore d hd
      rw [hdz] at this
      cases this
    · rcases List.mem_cons.1 hd with rfl|hd
      · exact absurd rfl hne
      · exact (List.pairwise_cons.1 (List.pairwise_append.1 hsorted).2.1).1 d hd

/-- The status pointer of a Wait: an argument of the call, or what the call has
left on the kernel stack of a process that was blocked in it. -/
def waitPointer (s : Kernel) : Input → ℕ
  | .trap u => u.ptr 0
  | .resume =>
    match (s.kernelContext s.currentProcess).point with
    | .wait statusPtr => statusPtr
    | _ => 0

/-- One of the four bytes at the status pointer of the current process lies in
the frame f at this offset. -/
def StatusByte (M : Machine) (s : Kernel) (statusPtr f offset : ℕ) : Prop :=
  statusPtr≠0 ∧ ∃ i<4,
    (userPte M (s.space s.currentProcess).region1Pt (statusPtr+i)).pfn=f ∧
      (statusPtr+i)%M.pageSize=offset

/-- The status pointer is null, or its four bytes lie in pages of the current
process that may be written. -/
def StatusMapped (M : Machine) (s : Kernel) (statusPtr : ℕ) : Prop :=
  statusPtr≠0 → ∀ i<4,Writable M (s.space s.currentProcess).region1Pt (statusPtr+i)

instance (M : Machine) (s : Kernel) (statusPtr : ℕ) : Decidable (StatusMapped M s statusPtr) :=
  inferInstanceAs (Decidable (_ → ∀ i<4,_))

/-- What is left when a child has been collected. -/
structure Collected (M : Machine) (s : Kernel) (statusPtr : ℕ) (c : PcbPtr) (t : Kernel) :
    Prop where
  /-- The child is gone. -/
  live : t.live=Function.update s.live c false
  /-- It is off the list of its parent. -/
  children : t.children=
    Function.update s.children s.currentProcess ((s.children s.currentProcess).erase c)
  /-- Its identifier is free. -/
  table : ∀ i,t.processTable i=if s.processTable i=c then 0 else s.processTable i
  /-- Its frames are free, and those of nobody else. -/
  frames : ∀ f,t.memory.frameAllocated f=true ↔
    s.memory.frameAllocated f=true ∧ ¬FrameOf M s c f
  /-- The status word is stored, if it was asked for, and nothing else is
  accessed through a user pointer. -/
  stored : ∃ l,t.log=s.log++((if statusPtr=0 then [] else
    [.stored s.currentProcess statusPtr 4])++l) ∧ ∀ e∈l,¬Access e
  /-- The status word is in pages that its parent keeps. -/
  status : ∀ f offset,StatusByte M s statusPtr f offset → FrameOf M t s.currentProcess f
  /-- Frames keep their contents, but for the status word. -/
  contents : ∀ f offset,¬StatusByte M s statusPtr f offset →
    t.memory.contents f offset=s.memory.contents f offset
  /-- So do the entries of Region 0. -/
  region0 : t.memory.kernelRegion0Pt=s.memory.kernelRegion0Pt
  /-- Only the current process has taken up its kernel stack. -/
  others : ∀ q,q≠s.currentProcess → t.userContext q=s.userContext q ∧
    t.kernelContext q=s.kernelContext q ∧ t.waitingForChild q=s.waitingForChild q
  /-- Everything else is as it was. -/
  rest : t={s with
    live := t.live
    children := t.children
    processTable := t.processTable
    memory := t.memory
    userContext := t.userContext
    kernelContext := t.kernelContext
    waitingForChild := t.waitingForChild
    log := t.log}

/-- The frames of a process other than idle are freed. -/
theorem release_frames (ho : Owned M R s) (h0 : R 0=true)
    (hl : s.live c=true) (hi : c≠s.idleProcess) (f : ℕ) :
    (processFreeKernelStack M (memoryFreePageTableFrames M s.memory (s.space c).region1Pt).1
      (s.space c).kernelStackPfns).1.frameAllocated f=true ↔
        s.memory.frameAllocated f=true ∧ ¬FrameOf M s c f := by
  have hmark : ∀ f,FrameOf M s c f → f<s.memory.physicalFrameCount :=
    fun f hf => ho.bounded f (hf.marked hl ho)
  have hpage : ∀ i∈List.range M.maxPtLen,((s.space c).region1Pt i).valid=true →
      ((s.space c).region1Pt i).pfn<s.memory.physicalFrameCount :=
    fun i hm hv => hmark _ (.inl ⟨i,List.mem_range.1 hm,hv,rfl⟩)
  have hkept : Kept s.memory (memoryFreePageTableFrames M s.memory (s.space c).region1Pt).1 :=
    kept_freeEntries
  have hstack : ∀ i∈List.range M.kernelStackPages,(s.space c).kernelStackPfns i≠0 ∧
      (s.space c).kernelStackPfns i<
        (memoryFreePageTableFrames M s.memory (s.space c).region1Pt).1.physicalFrameCount := by
    intro i hm
    have hlt := List.mem_range.1 hm
    refine ⟨fun hz => ?_,?_⟩
    · have hplace : held M R s.live s.idleProcess s.space (.stack c i)=some 0 := by
        dsimp only [held,stackSlots]
        rw [if_pos ⟨hl,hi⟩,if_pos hlt,hz]
      have hsame := ho.filed.unique 0 _ _ (held_fixed h0) hplace
      cases hsame
    · rw [hkept.count]
      exact hmark _ (.inr ⟨hi,i,hlt,rfl⟩)
  unfold processFreeKernelStack
  rw [freeSlots_iff List.nodup_range hstack]
  unfold memoryFreePageTableFrames
  rw [freeEntries_iff List.nodup_range (fun i hm => List.mem_range.1 hm) hpage,and_assoc,
    ←not_or]
  refine and_congr_right (fun _ => not_congr ⟨?_,?_⟩)
  · rintro (⟨i,hm,hv,hf⟩|⟨i,hm,hf⟩)
    · exact .inl ⟨i,List.mem_range.1 hm,hv,hf⟩
    · exact .inr ⟨hi,i,List.mem_range.1 hm,hf⟩
  · rintro (⟨i,hm,hv,hf⟩|⟨_,i,hm,hf⟩)
    · exact .inl ⟨i,List.mem_range.2 hm,hv,hf⟩
    · exact .inr ⟨i,List.mem_range.2 hm,hf⟩

/-- SysWait destroys the child and reports it, and changes nothing else. -/
theorem collect_collected (hc : Coherent M s) (ha : Active s) (ho : Owned M R s) (h0 : R 0=true)
    (hch : c∈s.children s.currentProcess) (hz : s.state c=.zombie) (statusPtr : ℕ)
    (hptr : StatusMapped M s statusPtr) :
    Collected M s statusPtr c (collectChild M statusPtr c s) := by
  have hl := (hc.family.child_parent _ c hc.ready.current_live hch).1
  have hn : c≠0 := hc.ready.ne_null hl
  have hi : c≠s.idleProcess := by
    rintro rfl
    rw [hc.ready.idle_running] at hz
    cases hz
  rw [collectChild_eq hc ha statusPtr hch hz]
  refine ⟨rfl,rfl,fun i => ?_,fun f => ?_,⟨[.waited (s.birth s.currentProcess) (s.birth c)
    (s.pid c) (s.exitStatus c)],List.append_assoc ..,fun e he => ?_⟩,fun f offset hb => ?_,
    fun f offset _ => ?_,?_,fun q _ => ⟨rfl,rfl,rfl⟩,rfl⟩
  · dsimp only [releaseProcess]
    by_cases hic : s.processTable i=c
    · obtain ⟨_,hpid,hlt⟩ := hc.table i (by rwa [hic])
      rw [hic] at hpid
      rw [if_pos hic,if_pos ⟨by omega,by omega,by rw [hpid,Int.toNat_natCast]; exact hic⟩,hpid,
        Int.toNat_natCast,Function.update_self]
    · rw [if_neg hic]
      split
      · rename_i ht
        refine Function.update_of_ne ?_ ..
        rintro rfl
        exact hic ht.2.2
      · rfl
  · dsimp only [releaseProcess]
    rw [if_neg hi]
    exact release_frames ho h0 hl hi f
  · rw [List.mem_singleton.1 he]
    exact id
  · obtain ⟨h0,i,hi,rfl,_⟩ := hb
    obtain ⟨j,hj,hv,hpfn⟩ := writable_page (hptr h0 i hi)
    exact .inl ⟨j,hj,hv,hpfn.symm⟩
  · dsimp only [releaseProcess]
    rw [if_neg hi]
    exact congrFun (congrFun ((freeSlots_contents ..).trans (freeEntries_contents ..)) f) offset
  · dsimp only [releaseProcess]
    rw [if_neg hi]
    exact kept_freeStack.region0.trans kept_freeEntries.region0

/-- SysWait of a parent with a child that has ended. -/
theorem waitLoop_collects (hc : Coherent M s) (ha : Active s) (he : Elders s) (ho : Owned M R s)
    (h0 : R 0=true) (hz : ∃ c∈s.children s.currentProcess,s.state c=.zombie) (caller : PcbPtr)
    (statusPtr : ℕ) (hptr : StatusMapped M s statusPtr) (u : UserContext) :
    ∃ c t,Oldest s c ∧ waitLoop M env caller statusPtr u s=.returns t u (s.pid c) ∧
      Collected M s statusPtr c t := by
  obtain ⟨d,hd,hdz⟩ := hz
  cases hfind : zombieChild s s.currentProcess with
  | none =>
    have hnone := List.find?_eq_none.1 hfind d hd
    exact absurd (decide_eq_true hdz) hnone
  | some c =>
    have hold := zombieChild_oldest he hc.ready.current_live hfind
    refine ⟨c,_,hold,?_,collect_collected hc ha ho h0 hold.child hold.ended statusPtr hptr⟩
    unfold waitLoop
    rw [hfind]

/-- The state in which the child is collected differs in what is the parent's own. -/
theorem Collected.own {w : Kernel} {x : UserContext} {y : KernelContext} {z : Bool}
    {statusPtr : ℕ} (h : Collected M w statusPtr c t) (hw : w={s with
      userContext := Function.update s.userContext s.currentProcess x
      kernelContext := Function.update s.kernelContext s.currentProcess y
      waitingForChild := Function.update s.waitingForChild s.currentProcess z}) :
    Collected M s statusPtr c t := by
  obtain ⟨hlive,hch,htab,hfr,hst,hsb,hcon,hreg,hoth,hrest⟩ := h
  subst hw
  refine ⟨hlive,hch,htab,hfr,hst,hsb,hcon,hreg,fun q hq => ?_,hrest⟩
  obtain ⟨hu,hk,hwait⟩ := hoth q hq
  exact ⟨hu.trans (Function.update_of_ne hq ..),hk.trans (Function.update_of_ne hq ..),
    hwait.trans (Function.update_of_ne hq ..)⟩

end Wait

end Yalnix.Families
