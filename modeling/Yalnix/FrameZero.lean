import Yalnix.MappedFrames

/-!
# Frame zero

ProcessFreeKernelStack takes frame zero as an absent one. Frame zero belongs to
the kernel image: it is never given out and never given back, whatever the
kernel heap and the executables are. Also where the heap reaches the scratch
page, so that a frame may be given back twice, it is another frame.
-/

namespace Yalnix.FrameZero

open Framework FrameTable KernelState Scheduling Ipc Terminals ProcessLifetime ProgramLoading
open Syscalls Traps KernelStart Coherence Operations OperationCoherence StepOperations
open CallOperations RunInvariants Traces AddressSpaces TableLoops FramePartition KernelBreak
open ScratchPage MappedFrames

variable {M : Machine} {m m' m₁ : Memory} {pt pt' src : PageTable} {n f : ℕ} {pfns : ℕ → ℕ}
  {page : ℤ} {prot : Prot} {D : ℕ → Prop}

section Frames

/-- Frames that are in use exist, and frame zero is in use. -/
structure Sound (m : Memory) : Prop where
  /-- Every marked frame is one of the machine. -/
  bounded : ∀ f,m.frameAllocated f=true → f< m.physicalFrameCount
  /-- Frame zero is in use. -/
  zero : m.frameAllocated 0=true

/-- Only the frame table matters. -/
theorem Sound.sameFrames (h : Sound m) (hf : m'.frameAllocated=m.frameAllocated)
    (hn : m'.physicalFrameCount=m.physicalFrameCount) : Sound m' := by
  refine ⟨?_,?_⟩
  · rw [hf,hn]
    exact h.bounded
  · rw [hf]
    exact h.zero

/-- A frame that is taken is another one than frame zero. -/
theorem Sound.alloc (h : Sound m) (ha : frameAlloc m=some (f,m')) : Sound m' ∧ f≠0 := by
  obtain ⟨hfree,hlt,rfl⟩ := frameAlloc_eq ha
  have hne : f≠0 := by
    rintro rfl
    rw [h.zero] at hfree
    cases hfree
  refine ⟨⟨fun g hg => ?_,?_⟩,hne⟩
  · dsimp only at hg ⊢
    by_cases he : g=f
    · rw [he]
      exact hlt
    · rw [Function.update_of_ne he] at hg
      exact h.bounded g hg
  · dsimp only
    rw [Function.update_of_ne hne.symm]
    exact h.zero

/-- Another frame is given back. -/
theorem Sound.free (h : Sound m) (hf : f≠0) : Sound (frameFree m f) := by
  unfold frameFree
  split
  · exact h
  · refine ⟨fun g hg => ?_,?_⟩
    · dsimp only at hg ⊢
      by_cases he : g=f
      · rw [he,Function.update_self] at hg
        cases hg
      · rw [Function.update_of_ne he] at hg
        exact h.bounded g hg
    · dsimp only
      rw [Function.update_of_ne hf.symm]
      exact h.zero

/-- Each frame in use as a place of its own. -/
def ownSlot (m : Memory) (f : ℕ) : Option ℕ := if m.frameAllocated f=true then some f else none

/-- A frame is in its place when it is in use. -/
theorem ownSlot_eq {g : ℕ} : ownSlot m g=some f ↔ g=f ∧ m.frameAllocated f=true := by
  unfold ownSlot
  constructor
  · intro h
    split at h
    · rename_i hg
      injection h with h
      exact ⟨h,h ▸ hg⟩
    · cases h
  · rintro ⟨rfl,hf⟩
    exact if_pos hf

/-- Frame zero is in its place. -/
theorem Sound.ownZero (h : Sound m) : ownSlot m 0=some 0 := ownSlot_eq.2 ⟨rfl,h.zero⟩

/-- The frames in use are accounted for by their own places. -/
theorem Sound.accounted (h : Sound m) : Accounted m (ownSlot m) := by
  refine ⟨⟨fun f => ⟨fun hf => ⟨f,ownSlot_eq.2 ⟨rfl,hf⟩⟩,?_⟩,fun f x y hx hy => ?_⟩,h.bounded⟩
  · rintro ⟨x,hx⟩
    exact (ownSlot_eq.1 hx).2
  · rw [(ownSlot_eq.1 hx).1,(ownSlot_eq.1 hy).1]

/-- Memories with the same places have the same frames in use. -/
theorem frames_restored (h : Accounted m' (ownSlot m)) : m'.frameAllocated=m.frameAllocated := by
  funext f
  rw [Bool.eq_iff_iff]
  constructor
  · intro hf
    obtain ⟨x,hx⟩ := (h.filed.held f).1 hf
    exact (ownSlot_eq.1 hx).2
  · exact fun hf => (h.filed.held f).2 ⟨f,ownSlot_eq.2 ⟨rfl,hf⟩⟩

/-- A child that has been given its frames loses them again. -/
theorem child_undone (h : Sound m) (hk : processAllocKernelStack M m=(m₁,some pfns))
    (hp : processCopyRegion1 M m₁ src=(m',some pt)) :
    (processFreeKernelStack M (memoryFreePageTableFrames M m' pt).1 pfns).1.frameAllocated=
      m.frameAllocated := by
  have hs := h.accounted.kernelStack (M := M)
  rw [hk] at hs
  have hcopy := hs.copyRegion1 M src
  rw [hp] at hcopy
  have hfree := hcopy.freeTable
  rw [tableSlots_empty (fun i hi => freed_invalid hi)] at hfree
  exact frames_restored (hfree.drop.freeStack h.ownZero)

end Frames

section Tables

/-- The mapped pages of a part D of a table have frames other than frame zero. -/
structure Avoids (D : ℕ → Prop) (m : Memory) (pt : PageTable) : Prop extends Sound m where
  /-- No mapped page of the part is backed by frame zero. -/
  nonzero : ∀ i,D i → (pt i).valid=true → (pt i).pfn≠0

/-- A page gets a new frame. -/
theorem Avoids.mapPage (h : Avoids D m pt) (ha : frameAlloc m=some (f,m'))
    (hm : memoryMapPage M pt page f prot=some pt') : Avoids D m' pt' := by
  obtain ⟨hs,hne⟩ := h.toSound.alloc ha
  obtain ⟨_,_,rfl⟩ := mapPage_eq hm
  refine ⟨hs,fun i hd hv => ?_⟩
  by_cases hi : i=page.toNat
  · rw [hi,Function.update_self]
    exact hne
  · rw [Function.update_of_ne hi] at hv ⊢
    exact h.nonzero i hd hv

/-- A mapped page loses its frame and is unmapped. -/
theorem Avoids.unmapPage {i : ℕ} (h : Avoids D m pt) (hd : D i) (hv : (pt i).valid=true) :
    Avoids D (frameFree m (pt i).pfn) (memoryUnmapPage M pt page) := by
  refine ⟨h.toSound.free (h.nonzero i hd hv),fun j hj hvj => ?_⟩
  unfold memoryUnmapPage at hvj ⊢
  split
  · rename_i hr
    rw [if_pos hr] at hvj
    exact h.nonzero j hj hvj
  · rename_i hr
    rw [if_neg hr] at hvj
    by_cases he : j=page.toNat
    · rw [he,Function.update_self] at hvj
      cases hvj
    · rw [Function.update_of_ne he] at hvj ⊢
      exact h.nonzero j hj hvj

/-- Only frames and mapped pages matter. -/
theorem Avoids.sameTable (h : Avoids D m pt) (hs : Sound m')
    (ht : ∀ i,(pt' i).valid=(pt i).valid ∧ (pt' i).pfn=(pt i).pfn) : Avoids D m' pt' := by
  refine ⟨hs,fun i hd hv => ?_⟩
  rw [(ht i).2]
  exact h.nonzero i hd ((ht i).1 ▸ hv)

/-- Loops over a table never take or give back frame zero. -/
theorem avoids_rule : TableRule M D False True (Avoids D) where
  map h ha hm _ := h.mapPage ha hm
  unmap h ho := by
    obtain ⟨_,_,hd,hv⟩ := ho trivial
    exact h.unmapPage hd hv
  store _ h := h.sameTable (h.toSound.sameFrames rfl rfl) (fun _ => ⟨rfl,rfl⟩)
  protect h _ _ := h.sameTable h.toSound protectText_valid

/-- A kernel stack is given back. -/
theorem Sound.freeStack {l : List ℕ} (h : Sound m) :
    Sound (freeKernelStackSlots l pfns m).1 := by
  induction l generalizing m pfns with
  | nil => exact h
  | cons j l ih =>
    unfold freeKernelStackSlots
    split
    · rename_i hf
      exact ih (h.free hf)
    · exact ih h

/-- A copy maps the scratch page to a frame it has taken, if at all. -/
theorem copyPages_heap {l : List ℕ} (h : Avoids D m m.kernelRegion0Pt) (i : ℕ) (hd : D i)
    (hv : ((copyRegion1Pages M src l m pt).1.kernelRegion0Pt i).valid=true) :
    ((copyRegion1Pages M src l m pt).1.kernelRegion0Pt i).pfn≠0 := by
  induction l generalizing m pt with
  | nil =>
    dsimp only [copyRegion1Pages] at hv ⊢
    unfold memoryUnmapPage at hv ⊢
    split
    · rename_i hr
      rw [if_pos hr] at hv
      exact h.nonzero i hd hv
    · rename_i hr
      rw [if_neg hr] at hv
      by_cases he : i=(M.scratchPage : ℤ).toNat
      · rw [he,Function.update_self] at hv
        cases hv
      · rw [Function.update_of_ne he] at hv ⊢
        exact h.nonzero i hd hv
  | cons j l ih =>
    unfold copyRegion1Pages at hv ⊢
    by_cases hj : (src j).valid=true
    · rw [if_pos hj] at hv ⊢
      cases ha : frameAlloc m with
      | none =>
        rw [ha] at hv
        dsimp only at hv ⊢
        unfold memoryFreePageTableFrames at hv ⊢
        rw [kept_freeEntries.region0] at hv ⊢
        exact h.nonzero i hd hv
      | some x =>
        obtain ⟨g,m₁⟩ := x
        rw [ha] at hv
        dsimp only at hv ⊢
        obtain ⟨hs,hg⟩ := h.toSound.alloc ha
        have hk : Kept m m₁ := kept_alloc ha
        cases hm : memoryMapPage M pt j g (src j).prot with
        | none =>
          rw [hm] at hv
          dsimp only at hv ⊢
          unfold memoryFreePageTableFrames at hv ⊢
          rw [kept_freeEntries.region0,(kept_free m₁ g).region0,hk.region0] at hv ⊢
          exact h.nonzero i hd hv
        | some pt₁ =>
          rw [hm] at hv
          refine ih ⟨hs.sameFrames rfl rfl,fun k hk' hvk => ?_⟩ hv
          dsimp only [copyThroughScratch,memoryMapPage] at hvk ⊢
          rw [hk.region0] at hvk ⊢
          split
          · rename_i hr
            rw [if_pos hr] at hvk
            exact h.nonzero k hk' hvk
          · rename_i hr
            rw [if_neg hr,Option.getD_some] at hvk
            rw [Option.getD_some]
            by_cases he : k=(M.scratchPage : ℤ).toNat
            · rw [he,Function.update_self]
              exact hg
            · rw [Function.update_of_ne he] at hvk ⊢
              exact h.nonzero k hk' hvk
    · rw [if_neg hj] at hv ⊢
      exact ih h hv

end Tables

section Spaces

variable {v v' : UserSpace} {env : Env} {args : List (List UInt8)} {li : LoadInfo} {q : Prop}

/-- Every change of an address space. -/
theorem Avoids.spaceStep (h : Avoids (InTable M) m v.region1Pt) (hb : HeapBounds M v)
    (hs : SpaceStep M env q m v m' v') : Avoids (InTable M) m' v'.region1Pt :=
  avoids_rule.spaceStep (fun _ hi => hi) h (fun _ => hb.inside) False.elim False.elim hs

/-- What is left of an address space. -/
theorem Avoids.spaceEnd (h : Avoids (InTable M) m v.region1Pt)
    (hs : SpaceEnd M env q m v m' v') : Avoids (InTable M) m' v'.region1Pt :=
  avoids_rule.spaceEnd (fun _ hi => hi) h False.elim False.elim hs

end Spaces

section States

variable {s t : Kernel} {env : Env} {allow : Label → Prop} {p c : PcbPtr} {v : UserSpace}

/-- The part of Region 0 that the allocator may map and unmap. -/
abbrev InHeap (M : Machine) : ℕ → Prop := HeapPage M M.kernelStackBasePage

/-- Frame zero is in use and mapped nowhere but in the kernel image. -/
structure ZeroKept (M : Machine) (s : Kernel) : Prop where
  /-- No mapped page of the kernel heap is backed by frame zero. -/
  heap : Avoids (InHeap M) s.memory s.memory.kernelRegion0Pt
  /-- The pages of the processes. -/
  pages : ∀ p,s.live p=true → ∀ i<M.maxPtLen,((s.space p).region1Pt i).valid=true →
    ((s.space p).region1Pt i).pfn≠0
  /-- The heaps of the processes. -/
  bounds : ∀ p,HeapBounds M (s.space p)

/-- The table of a process. -/
theorem ZeroKept.table (h : ZeroKept M s) (hl : s.live p=true) :
    Avoids (InTable M) s.memory (s.space p).region1Pt := ⟨h.heap.toSound,h.pages p hl⟩

/-- The current address space changes. -/
theorem ZeroKept.respace (h : ZeroKept M s) (hk : Kept s.memory m)
    (ha : Avoids (InTable M) m v.region1Pt) (hb : HeapBounds M v) (hm : t.memory=m)
    (hs : t.space=Function.update s.space p v) (hl : t.live=s.live) : ZeroKept M t := by
  subst hm
  refine ⟨⟨ha.toSound,?_⟩,fun q hq i hi hv => ?_,fun q => ?_⟩
  · rw [hk.region0]
    exact h.heap.nonzero
  · rw [hl] at hq
    rw [hs] at hv ⊢
    by_cases hqp : q=p
    · rw [hqp,Function.update_self] at hv ⊢
      exact ha.nonzero i hi hv
    · rw [Function.update_of_ne hqp] at hv ⊢
      exact h.pages q hq i hi hv
  · rw [hs]
    by_cases hqp : q=p
    · rw [hqp,Function.update_self]
      exact hb
    · rw [Function.update_of_ne hqp]
      exact h.bounds q

/-- The memory changes while the address spaces are kept. -/
theorem ZeroKept.remember (h : ZeroKept M s)
    (ha : Avoids (InHeap M) t.memory t.memory.kernelRegion0Pt)
    (hs : ∀ q,t.live q=true → s.live q=true ∧ t.space q=s.space q)
    (hb : ∀ q,HeapBounds M (t.space q)) : ZeroKept M t := by
  refine ⟨ha,fun q hq i hi hv => ?_,hb⟩
  obtain ⟨hl,he⟩ := hs q hq
  rw [he] at hv ⊢
  exact h.pages q hl i hi hv

/-- Accounting for frame zero among others. -/
theorem accounted_sound {σ : Type} {slot : σ → Option ℕ} {x : σ} (h : Accounted m slot)
    (hx : slot x=some 0) : Sound m := ⟨h.bounded,(h.filed.held 0).2 ⟨x,hx⟩⟩

/-- A kernel stack is allocated and pages are copied. -/
theorem copied_avoids (h : Avoids (InHeap M) m m.kernelRegion0Pt)
    (hk : processAllocKernelStack M m=(m₁,some pfns))
    (hp : processCopyRegion1 M m₁ src=(m',some pt)) :
    Avoids (InHeap M) m' m'.kernelRegion0Pt ∧ Avoids (InTable M) m' pt := by
  have hs := h.toSound.accounted.kernelStack (M := M)
  have hkept : Kept m (processAllocKernelStack M m).1 := kept_allocStack
  rw [hk] at hs hkept
  have hs₁ : Sound m₁ := accounted_sound (x := Sum.inl (0 : ℕ)) hs h.toSound.ownZero
  have hcopy := hs.copyRegion1 M src
  have hheap : ∀ i,InHeap M i →
      ((processCopyRegion1 M m₁ src).1.kernelRegion0Pt i).valid=true →
      ((processCopyRegion1 M m₁ src).1.kernelRegion0Pt i).pfn≠0 := by
    refine copyPages_heap ⟨hs₁,?_⟩
    rw [hkept.region0]
    exact h.nonzero
  rw [hp] at hcopy hheap
  have hs' : Sound m' := accounted_sound (x := Sum.inl (Sum.inl (0 : ℕ))) hcopy h.toSound.ownZero
  refine ⟨⟨hs',hheap⟩,hs',fun i hi hv he => ?_⟩
  have hslot : tableSlots M pt i=some 0 := by
    unfold tableSlots
    rw [if_pos ⟨hi,hv⟩,he]
  have hsame := hcopy.filed.unique 0 (.inl (.inl 0)) (.inr i) h.toSound.ownZero hslot
  cases hsame

/-- A child could not be created. -/
theorem failed_avoids (h : Avoids (InHeap M) s.memory s.memory.kernelRegion0Pt)
    (hf : processCreateChild M env s.currentProcess s=({s with memory := m},none)) :
    Avoids (InHeap M) m m.kernelRegion0Pt := by
  have hsound : Sound m :=
    accounted_sound (h.toSound.accounted.forkFails h.toSound.ownZero hf) h.toSound.ownZero
  have hmem : (processCreateChild M env s.currentProcess s).1.memory=m := by rw [hf]
  have hkept : ∀ {m'},Kept s.memory m' → ∀ i,InHeap M i →
      (m'.kernelRegion0Pt i).valid=true → (m'.kernelRegion0Pt i).pfn≠0 := by
    intro m' hk
    rw [hk.region0]
    exact h.nonzero
  refine ⟨hsound,?_⟩
  clear hsound
  rw [←hmem]
  have hs := h.toSound.accounted.kernelStack (M := M)
  have hk : Kept s.memory (processAllocKernelStack M s.memory).1 := kept_allocStack
  unfold processCreateChild createChildRun
  cases callocPcb env s with
  | none => exact h.nonzero
  | some c =>
    dsimp only
    cases hks : processAllocKernelStack M s.memory with
    | mk m₁ o =>
      rw [hks] at hs hk
      cases o with
      | none => exact hkept hk
      | some pfns =>
        dsimp only
        split
        · exact hkept (hk.trans kept_freeStack)
        · have hs₁ : Sound m₁ := accounted_sound (x := Sum.inl (0 : ℕ)) hs h.toSound.ownZero
          have hheap : ∀ i,InHeap M i → ((processCopyRegion1 M m₁
              (s.space s.currentProcess).region1Pt).1.kernelRegion0Pt i).valid=true →
              ((processCopyRegion1 M m₁
                (s.space s.currentProcess).region1Pt).1.kernelRegion0Pt i).pfn≠0 :=
            copyPages_heap ⟨hs₁,hkept hk⟩
          cases hcr : processCopyRegion1 M m₁ (s.space s.currentProcess).region1Pt with
          | mk m₂ o₂ =>
            rw [hcr] at hheap
            cases o₂ with
            | none =>
              dsimp only
              unfold processFreeKernelStack
              rw [kept_freeStack.region0]
              exact hheap
            | some pt => exact hheap

/-- A process that is destroyed gives back frames other than zero. -/
theorem released_sound (h : Avoids (InTable M) s.memory (s.space c).region1Pt) :
    Sound (releaseProcess M c s).memory := by
  have hfree := avoids_rule.freeTable (fun _ hi => hi) h
  dsimp only [releaseProcess]
  split
  · exact hfree.toSound
  · exact hfree.toSound.freeStack

/-- The processes that are left have kept their address spaces. -/
theorem ZeroKept.release (h : ZeroKept M s) (ht : Avoids (InTable M) m (v.region1Pt))
    (hh : Avoids (InHeap M) m m.kernelRegion0Pt) {w : Kernel} (hm : w.memory=m)
    (hv : w.space c=v) (hw : ∀ q,q≠c → w.live q=s.live q ∧ w.space q=s.space q)
    (hb : ∀ q,HeapBounds M (w.space q)) : ZeroKept M (releaseProcess M c w) := by
  subst hm hv
  have hkept : Kept w.memory (releaseProcess M c w).memory := kept_release rfl
  refine h.remember ⟨released_sound ht,?_⟩ (fun q hq => ?_) hb
  · rw [hkept.region0]
    exact hh.nonzero
  · have hq' : Function.update w.live c false q=true := hq
    have hne : q≠c := by
      rintro rfl
      rw [Function.update_self] at hq'
      cases hq'
    rw [Function.update_of_ne hne] at hq'
    obtain ⟨hlive,hspace⟩ := hw q hne
    exact ⟨hlive ▸ hq',hspace⟩

/-- The bounds of a child are those of its parent. -/
theorem ZeroKept.childBounds (h : ZeroKept M s) (q : PcbPtr) :
    HeapBounds M (Function.update s.space c ⟨pt,pfns,(s.space p).userBrk,
      (s.space p).userHeapStart,(s.space p).userStackLowPage⟩ q) := by
  by_cases hq : q=c
  · rw [hq,Function.update_self]
    have hb := h.bounds p
    exact ⟨hb.start,hb.inside,hb.low⟩
  · rw [Function.update_of_ne hq]
    exact h.bounds q

/-- Every operation keeps frame zero. -/
theorem op_zeroKept {b : Bool} (hM : KernelLayout M) (hc : Coherent M s) (h : ZeroKept M s)
    (hop : Op M allow b s t) : ZeroKept M t := by
  have hl := hc.ready.current_live
  cases hop with
  | stop cpu env m v ha hu hk hz hv ho =>
    exact h.respace (kept_spaceEnd hv) ((h.table hl).spaceEnd hv) ((h.bounds _).spaceEnd hv)
      rfl rfl rfl
  | respace env m v hst ha ho =>
    exact h.respace (kept_spaceStep hst) ((h.table hl).spaceStep (h.bounds _) hst)
      ((h.bounds _).spaceStep hst) rfl rfl rfl
  | zombie status k env m v hk hb hch hp hl' hv ho hn =>
    exact h.respace (kept_spaceEnd hv) ((h.table hl).spaceEnd hv) ((h.bounds _).spaceEnd hv)
      rfl rfl rfl
  | zombieWake status k env m v hk hb hch hl' hp hw hv ho hn =>
    exact h.respace (kept_spaceEnd hv) ((h.table hl).spaceEnd hv) ((h.bounds _).spaceEnd hv)
      rfl rfl rfl
  | dispatch env hsw =>
    have he := dispatchNext_eq hc hsw
    have hlive : (dispatchNext M env s).live=s.live := by rw [he]
    have hspace : (dispatchNext M env s).space=s.space := by rw [he]
    refine h.remember ⟨?_,fun i hi hv => ?_⟩ (fun q hq => ⟨hlive ▸ hq,by rw [hspace]⟩)
      (fun q => by rw [hspace]; exact h.bounds q)
    · rw [he]
      exact h.heap.toSound.sameFrames rfl rfl
    · unfold dispatchNext processSwitch at hv ⊢
      dsimp only at hv ⊢
      split
      · rename_i hsame
        rw [if_pos hsame] at hv
        exact h.heap.nonzero i hi hv
      · rename_i hsame
        rw [if_neg hsame,if_pos hsw] at hv
        dsimp only [kcSwitch] at hv ⊢
        rw [installKernelStack_table hi.2] at hv ⊢
        exact h.heap.nonzero i hi hv
  | forkFails env m ha hf ho =>
    exact h.remember (failed_avoids h.heap hf) (fun q hq => ⟨hq,rfl⟩) h.bounds
  | forkUndone env c pfns pt m₁ m u ha hcp hk hp =>
    obtain ⟨hc0,hlc⟩ := callocPcb_fresh hcp
    obtain ⟨hheap,htable⟩ := copied_avoids h.heap hk hp
    rw [destroyed_child hc hc0 hlc]
    refine h.release (v := ⟨pt,pfns,(s.space s.currentProcess).userBrk,
      (s.space s.currentProcess).userHeapStart,(s.space s.currentProcess).userStackLowPage⟩)
      htable hheap rfl (Function.update_self ..) (fun q hq => ⟨?_,?_⟩) h.childBounds
    · exact Function.update_of_ne hq ..
    · exact Function.update_of_ne hq ..
  | spawn env caller c pfns pt m₁ m u hb hcp hk hn hp =>
    obtain ⟨hc0,hlc⟩ := callocPcb_fresh hcp
    obtain ⟨hheap,htable⟩ := copied_avoids h.heap hk hp
    have hframes := @copyKernelStack_frames M m ((enterChild M s.currentProcess c env.newPid pfns
      pt m s).space c).kernelStackPfns (List.range M.kernelStackPages)
    rw [spawn_eq]
    refine ⟨⟨hheap.toSound.sameFrames hframes.1 hframes.2,fun i hi hv => ?_⟩,
      fun q hq i hi hv => ?_,h.childBounds⟩
    · have hlose : Loses M M.kernelStackBasePage m.kernelRegion0Pt _ := loses_scratch hM _
      dsimp only [kcCopy] at hv ⊢
      rw [copyKernelStack_region0] at hv ⊢
      dsimp only [enterChild] at hv ⊢
      have he := hlose.low i hi.2 hv
      rw [he] at hv ⊢
      exact hheap.nonzero i hi hv
    · dsimp only [enterChild] at hq hv ⊢
      by_cases hqc : q=c
      · rw [hqc,Function.update_self] at hv ⊢
        exact htable.nonzero i hi hv
      · rw [Function.update_of_ne hqc] at hq hv ⊢
        exact h.pages q hq i hi hv
  | collect statusPtr c ha hch hz =>
    obtain ⟨hlc,_⟩ := hc.family.child_parent _ c hl hch
    rw [collectChild_eq hc ha statusPtr hch hz]
    exact h.release (h.table hlc) h.heap rfl rfl (fun q _ => ⟨rfl,rfl⟩) h.bounds
  | _ => exact ⟨h.heap,h.pages,h.bounds⟩

end States

section Runs

variable {s : Kernel} {k : KernelBrk} {K : ℕ → Bool}

/-- Where mapped frames are marked and frame zero is fixed, it is kept. -/
theorem zeroKept_of_mapped (h0 : K 0=true) (h : Mapped M M.kernelStackBasePage K s) :
    ZeroKept M s := by
  have hzero : held M K s.live s.idleProcess s.space (.reserved 0)=some 0 := held_fixed h0
  refine ⟨⟨⟨h.heap.bounded,h.heap.others _ ⟨_,hzero⟩⟩,fun i hi hv he => ?_⟩,
    fun p hl i hi hv he => ?_,h.bounds⟩
  · refine h.heap.apart i hi hv ⟨.reserved 0,?_⟩
    rw [he]
    exact hzero
  · have hpage : held M K s.live s.idleProcess s.space (.page p i)=some 0 := by
      rw [held_page hl hi hv,he]
    have hsame := h.one _ _ _ hzero hpage
    cases hsame

/-- A request of the allocator. -/
theorem ZeroKept.request (hM : KernelLayout M) (h : ZeroKept M s)
    (hk : Within M M.kernelStackBasePage k) (r : ℤ) :
    ZeroKept M {s with memory := (request M true (s.memory,k) r).1} := by
  have hstack := hM.stack_le
  have habove := hk.above
  have hbelow := hk.below
  have hreq := orig_le_requestedPage M r
  refine h.remember ?_ (fun q hq => ⟨hq,rfl⟩) h.bounds
  dsimp only
  unfold KernelBreak.request setKernelBrkPage
  dsimp only
  split
  · exact h.heap
  · rename_i hr
    rw [if_neg (by decide)]
    have hgr := avoids_rule.growHeap (M := M) (kernelBrkPage M true k)
      (requestedPage M r-kernelBrkPage M true k) h.heap
      (fun _ i h₁ h₂ _ => by unfold InHeap HeapPage; omega) False.elim
    split
    · rename_i m₁ pt₁ hg
      rw [hg] at hgr
      exact ⟨hgr.toSound.sameFrames rfl rfl,hgr.nonzero⟩
    · rename_i m₁ pt₁ hg
      rw [hg] at hgr
      have hsh : Avoids (InHeap M)
          (shrinkPages M (kernelBrkPage M true k-requestedPage M r) (requestedPage M r) m₁ pt₁).1
          (shrinkPages M (kernelBrkPage M true k-requestedPage M r) (requestedPage M r) m₁ pt₁).2 :=
        avoids_rule.shrinkPages hgr
          (fun _ i hi => ⟨by omega,by omega,by unfold InHeap HeapPage; omega⟩)
      exact ⟨hsh.toSound.sameFrames rfl rfl,hsh.nonzero⟩

/-- Frame zero is kept in every run, wherever the kernel heap grows. -/
theorem run_zeroKept {heap : ℤ → Prop} {ok : Kernel → Env → Input → Prop} (hM : KernelLayout M)
    (hok : ∀ s env input,ok s env input → env.switchOk=true) (h : GrowingRun M heap ok s k) :
    Settled M s ∧ Within M M.kernelStackBasePage k ∧ ZeroKept M s := by
  have htop : HeapTop M M.kernelStackBasePage := ⟨hM.brk_le,Nat.le_refl _⟩
  induction h with
  | boot b r v hb hr hv hu =>
    obtain ⟨p,q,pfn,pfns,m₁,m₂,m,v,u,hf,he⟩ := kernelStart_eq hu
    have hpos := M.origKernelBrkPage_pos
    have hzero : fixedFrames M b 0=true := by
      unfold fixedFrames
      rw [reserved_zero hf.stack,Bool.true_and,Bool.not_eq_true',decide_eq_false_iff_not]
      omega
    rw [he]
    exact ⟨booted_settled hf,booted_within htop (fun _ _ hle => hle) hv,
      zeroKept_of_mapped hzero (booted_mapped hM htop hb hf)⟩
  | @step s k env input _ he hs ih =>
    obtain ⟨hset,hk,hz⟩ := ih
    have hany : StepAllowed M (fun _ => True) s env input := fun _ _ => trivial
    obtain ⟨hops,hset'⟩ := kernelStep_done hset (hok _ _ _ hs) he hany
    have hstep : ∀ {s t},Ops M (fun _ => True) s t → Coherent M s → ZeroKept M s →
        Coherent M t ∧ ZeroKept M t := by
      intro s t hops hc hp
      induction hops with
      | refl => exact ⟨hc,hp⟩
      | tail _ hone ih =>
        obtain ⟨c,hone⟩ := hone
        exact ⟨op_coherent ih.1 hone,op_zeroKept hM ih.1 ih.2 hone⟩
    exact ⟨hset',hk,(hstep hops hset.toCoherent hz).2⟩
  | request r _ hr ih =>
    obtain ⟨hset,hk,hz⟩ := ih
    exact ⟨settled_memory hset _,hk.request (fun hle => hle),hz.request hM hk r⟩

end Runs

end Yalnix.FrameZero
