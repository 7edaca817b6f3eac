import Mathlib.Data.Finset.Card
import Mathlib.Data.Finset.Range
import Yalnix.KernelBreak

/-!
# The page below the kernel stack

ProcessCopyRegion1 and KCCopy borrow the page below the kernel stack and
unmap it behind the copy. The limit of SetKernelBrk lets the heap reach one
page further, over that page, and a copy that runs out of frames leaves it
mapped. In runs without such requests and failures the page is never mapped
between copies, so that a copy changes no entry of Region 0. Every operation
of the kernel is a sequence of the actions considered here.
-/

namespace Yalnix.ScratchPage

open Framework FrameTable KernelState Scheduling Ipc Terminals ProcessLifetime ProgramLoading
open Syscalls Traps KernelStart Coherence Operations OperationCoherence CallOperations
open RunInvariants Traces AddressSpaces TableLoops FramePartition KernelBreak

variable {M : Machine} {m m' : Memory} {pt pt' src : PageTable} {page : ℤ} {n pfn : ℕ} {prot : Prot}
  {pfns : ℕ → ℕ}

section Copies

/-- The page is unmapped whatever it was mapped to. -/
theorem unmap_map {i : ℤ} : memoryUnmapPage M ((memoryMapPage M pt i pfn prot).getD pt) i=
    memoryUnmapPage M pt i := by
  unfold memoryMapPage memoryUnmapPage
  split
  · rfl
  · rw [Option.getD_some,Function.update_idem]

/-- A successful copy of pages unmaps the scratch page. -/
theorem copyPages_region0 {l : List ℕ} (h : copyRegion1Pages M src l m pt=(m',some pt')) :
    m'.kernelRegion0Pt=memoryUnmapPage M m.kernelRegion0Pt M.scratchPage := by
  induction l generalizing m pt with
  | nil =>
    injection h with h _
    rw [←h]
  | cons j l ih =>
    unfold copyRegion1Pages at h
    split at h
    · split at h
      · cases h
      · rename_i f m₁ ha
        obtain ⟨_,_,rfl⟩ := frameAlloc_eq ha
        split at h
        · cases h
        · rw [ih h]
          exact unmap_map
    · exact ih h

/-- A copy of a kernel stack unmaps the scratch page. -/
theorem copyKernelStack_region0 {l : List ℕ} :
    (copyKernelStack M pfns l m).kernelRegion0Pt=
      memoryUnmapPage M m.kernelRegion0Pt M.scratchPage := by
  induction l generalizing m with
  | nil => rfl
  | cons i l ih =>
    unfold copyKernelStack
    rw [ih]
    exact unmap_map

/-- The frames that can be taken. -/
def freeFrames (m : Memory) : Finset ℕ :=
  (Finset.range m.physicalFrameCount).filter (fun f => m.frameAllocated f=false)

/-- Without free frames none is given out. -/
theorem frameAlloc_none (h : (freeFrames m).card=0) : frameAlloc m=none := by
  cases ha : frameAlloc m with
  | none => rfl
  | some x =>
    obtain ⟨hfree,hlt,_⟩ := frameAlloc_eq ha
    have hmem : x.1∈freeFrames m := Finset.mem_filter.2 ⟨Finset.mem_range.2 hlt,hfree⟩
    rw [Finset.card_eq_zero.1 h] at hmem
    cases hmem

/-- With a free frame one is given out, and one less is left. -/
theorem frameAlloc_some (h : 0<(freeFrames m).card) :
    ∃ f m',frameAlloc m=some (f,m') ∧ (freeFrames m').card+1=(freeFrames m).card := by
  cases ha : frameAlloc m with
  | none =>
    obtain ⟨f,hf⟩ := Finset.card_pos.1 h
    obtain ⟨hlt,hfree⟩ := Finset.mem_filter.1 hf
    unfold frameAlloc at ha
    split at ha
    · cases ha
    · rename_i hn
      have hall := List.find?_eq_none.1 hn f (List.mem_range.2 (Finset.mem_range.1 hlt))
      rw [hfree] at hall
      exact absurd rfl hall
  | some x =>
    obtain ⟨f,m₁⟩ := x
    obtain ⟨hfree,hlt,rfl⟩ := frameAlloc_eq ha
    have hmem : f∈freeFrames m := Finset.mem_filter.2 ⟨Finset.mem_range.2 hlt,hfree⟩
    have herase : freeFrames {m with frameAllocated := Function.update m.frameAllocated f true}=
        (freeFrames m).erase f := by
      ext g
      unfold freeFrames
      rw [Finset.mem_erase,Finset.mem_filter,Finset.mem_filter]
      dsimp only
      by_cases hg : g=f
      · rw [hg,Function.update_self]
        exact ⟨fun hx => (by cases hx.2),fun hx => absurd rfl hx.1⟩
      · rw [Function.update_of_ne hg]
        exact ⟨fun hx => ⟨hg,hx⟩,And.right⟩
    refine ⟨f,_,rfl,?_⟩
    rw [herase,Finset.card_erase_add_one hmem]

/-- The mapped pages of a list. -/
def validPages (src : PageTable) (l : List ℕ) : ℕ := l.countP (fun i => (src i).valid)

/-- Frames do not depend on the contents or on Region 0. -/
theorem freeFrames_congr (hf : m'.frameAllocated=m.frameAllocated)
    (hn : m'.physicalFrameCount=m.physicalFrameCount) : freeFrames m'=freeFrames m := by
  unfold freeFrames
  rw [hf,hn]

/-- With enough frames pages are copied. -/
theorem copyPages_succeeds {l : List ℕ} (hl : ∀ i∈l,i<M.maxPtLen)
    (hf : validPages src l≤(freeFrames m).card) :
    ∃ m' pt',copyRegion1Pages M src l m pt=(m',some pt') := by
  induction l generalizing m pt with
  | nil => exact ⟨_,_,rfl⟩
  | cons j l ih =>
    have hj := hl j List.mem_cons_self
    have hl' : ∀ i∈l,i<M.maxPtLen := fun i hi => hl i (List.mem_cons_of_mem _ hi)
    unfold validPages at hf
    rw [List.countP_cons] at hf
    unfold copyRegion1Pages
    by_cases hv : (src j).valid=true
    · rw [if_pos hv] at hf
      rw [if_pos hv]
      obtain ⟨f,m₁,ha,hcard⟩ := frameAlloc_some (m := m) (by omega)
      have hmap : memoryMapPage M pt j f (src j).prot=
          some (Function.update pt j ⟨true,(src j).prot,f⟩) := by
        unfold memoryMapPage
        rw [if_neg (by omega)]
        rfl
      rw [ha]
      dsimp only
      rw [hmap]
      refine ih hl' ?_
      have hsame : freeFrames (copyThroughScratch M m₁ f (src j).pfn)=freeFrames m₁ :=
        freeFrames_congr rfl rfl
      rw [hsame]
      unfold validPages
      omega
    · rw [if_neg hv] at hf
      rw [if_neg hv]
      exact ih hl' hf

end Copies

section Kept

/-- The number of frames and Region 0 are as they were. -/
structure Kept (m m' : Memory) : Prop where
  /-- The frames of the machine. -/
  count : m'.physicalFrameCount=m.physicalFrameCount
  /-- The entries of Region 0. -/
  region0 : m'.kernelRegion0Pt=m.kernelRegion0Pt

/-- A memory is kept relative to itself. -/
theorem Kept.refl (m : Memory) : Kept m m := ⟨rfl,rfl⟩

/-- What is kept by two changes is kept by both together. -/
theorem Kept.trans {m₁ : Memory} (h : Kept m m₁) (h' : Kept m₁ m') : Kept m m' :=
  ⟨h'.count.trans h.count,h'.region0.trans h.region0⟩

/-- A frame is given back. -/
theorem kept_free (m : Memory) (f : ℕ) : Kept m (frameFree m f) := by
  unfold frameFree
  split
  · exact .refl m
  · exact ⟨rfl,rfl⟩

/-- Taking a frame leaves Region 0 as it is. -/
theorem kept_alloc (h : frameAlloc m=some (pfn,m')) : Kept m m' := by
  obtain ⟨_,_,rfl⟩ := frameAlloc_eq h
  exact ⟨rfl,rfl⟩

/-- Loops over a table take and give back frames only. -/
theorem kept_rule (m : Memory) :
    TableRule M (fun _ => True) False False (fun m' _ => Kept m m') where
  map h ha _ _ := h.trans (kept_alloc ha)
  unmap h _ := h.trans (kept_free _ _)
  store _ h := h.trans ⟨rfl,rfl⟩
  protect h _ _ := h

/-- The listed pages are unmapped. -/
theorem kept_freeEntries {l : List ℕ} : Kept m (freePageTableEntries M l m pt).1 :=
  (kept_rule m).freeEntries (.refl m) False.elim

/-- A partial kernel stack is given back. -/
theorem kept_undoStack : Kept m (undoKernelStack pfns n m) := by
  induction n generalizing m with
  | zero => exact .refl m
  | succ n ih => exact (kept_free _ _).trans ih

/-- A kernel stack is completed or given back. -/
theorem kept_allocStack {k : ℕ} : Kept m (allocKernelStackFrom n k pfns m).1 := by
  induction n generalizing m k pfns with
  | zero => exact .refl m
  | succ n ih =>
    unfold allocKernelStackFrom
    split
    · exact kept_undoStack
    · rename_i f m₁ ha
      exact (kept_alloc ha).trans ih

/-- A kernel stack is given back. -/
theorem kept_freeStack {l : List ℕ} : Kept m (freeKernelStackSlots l pfns m).1 := by
  induction l generalizing m pfns with
  | nil => exact .refl m
  | cons j l ih =>
    unfold freeKernelStackSlots
    split
    · exact (kept_free _ _).trans ih
    · exact ih

/-- A growing heap of a process leaves Region 0 as it is. -/
theorem kept_growPages {k : ℕ} : Kept m (growPages M page n k m pt).1 :=
  (kept_rule m).growPages page n k (.refl m) False.elim False.elim False.elim

/-- A shrinking heap of a process leaves Region 0 as it is. -/
theorem kept_shrinkPages : Kept m (shrinkPages M n page m pt).1 :=
  (kept_rule m).shrinkPages (.refl m) False.elim

variable {v v' : UserSpace} {env : Env} {q : Prop}

/-- Mapping an image leaves Region 0 as it is. -/
theorem kept_load {args : List (List UInt8)} {li : LoadInfo} {m₁ : Memory} {pt₁ : PageTable}
    {ok : Bool} (h : Loading M env args m v li m₁ pt₁ ok) : Kept m m₁ :=
  (kept_rule m).load (fun _ _ => trivial) (.refl m) False.elim h

/-- Changes of a live address space. -/
theorem kept_spaceStep (h : SpaceStep M env q m v m' v') : Kept m m' :=
  (kept_rule m).spaceStep (fun _ _ => trivial) (.refl m) False.elim False.elim False.elim h

/-- The end of an address space. -/
theorem kept_spaceEnd (h : SpaceEnd M env q m v m' v') : Kept m m' :=
  (kept_rule m).spaceEnd (fun _ _ => trivial) (.refl m) False.elim False.elim h

/-- Destroying a process leaves Region 0 as it is. -/
theorem kept_release {p : PcbPtr} {s : Kernel} (hm : s.memory=m) :
    Kept m (releaseProcess M p s).memory := by
  subst hm
  dsimp only [releaseProcess]
  split
  · exact kept_freeEntries
  · exact kept_freeEntries.trans kept_freeStack

end Kept

section Actions

variable {x : Memory × KernelBrk} {b : KernelBrk}

/-- What the kernel does to Region 0 once virtual memory is enabled. -/
inductive HeapAction
  /-- A request of the allocator. -/
  | brk (request : ℤ)
  /-- ProcessCopyRegion1 of a table. -/
  | copyRegion1 (src : PageTable)
  /-- KCCopy to these frames. -/
  | copyStack (pfns : ℕ → ℕ)
  /-- KCSwitch to a process with these frames. -/
  | switch (pfns : ℕ → ℕ)
  /-- Frames are taken, given back and filled; Region 0 is left alone. -/
  | frames (frameAllocated : ℕ → Bool) (contents : ℕ → ℕ → UInt8)

/-- The effect of an action. -/
def heapStep (M : Machine) (x : Memory × KernelBrk) : HeapAction → Memory × KernelBrk
  | .brk r => request M true x r
  | .copyRegion1 src => ((processCopyRegion1 M x.1 src).1,x.2)
  | .copyStack pfns => (copyKernelStack M pfns (List.range M.kernelStackPages) x.1,x.2)
  | .switch pfns =>
    ({x.1 with
      kernelRegion0Pt := installKernelStack M pfns (List.range M.kernelStackPages)
        x.1.kernelRegion0Pt},x.2)
  | .frames fa c => ({x.1 with frameAllocated := fa, contents := c},x.2)

/-- States of Region 0 and the break, from the moment virtual memory is
enabled, with boots and actions that meet the given conditions. -/
inductive HeapRun (M : Machine) (okBoot : BootRequests → Prop)
    (ok : Memory × KernelBrk → HeapAction → Prop) : Memory × KernelBrk → Prop
  /-- Virtual memory is enabled. -/
  | boot {frames : ℕ} {contents : ℕ → ℕ → UInt8} {r : BootRequests} {v : VmStart} (hb : okBoot r)
      (h : bootToVm M frames contents r=some v) : HeapRun M okBoot ok (v.memory,v.brk)
  /-- A run of heap actions goes on with one more action. -/
  | step {x : Memory × KernelBrk} (a : HeapAction) (hx : HeapRun M okBoot ok x) (h : ok x a) :
      HeapRun M okBoot ok (heapStep M x a)

/-- The break does not exceed the scratch page, and successful copies change no
entry of Region 0. -/
structure ScratchFree (M : Machine) (x : Memory × KernelBrk) : Prop where
  /-- The heap ends at or below the scratch page. -/
  below : kernelBrkPage M true x.2≤M.scratchPage
  /-- ProcessCopyRegion1 leaves Region 0 as it was. -/
  copyRegion1 : ∀ src m' pt,processCopyRegion1 M x.1 src=(m',some pt) →
    m'.kernelRegion0Pt=x.1.kernelRegion0Pt
  /-- KCCopy leaves Region 0 as it was. -/
  copyStack : ∀ pfns,(copyKernelStack M pfns (List.range M.kernelStackPages) x.1).kernelRegion0Pt=
    x.1.kernelRegion0Pt

/-- The limit that SetKernelBrk lets pass although it is above the scratch page. -/
def ReachesScratch (M : Machine) (r : ℤ) : Prop := r=M.kernelStackBasePage

/-- Actions that do not map the scratch page: requests other than for the page
of the kernel stack, and copies with enough frames or none at all. -/
def Harmless (M : Machine) (x : Memory × KernelBrk) : HeapAction → Prop
  | .brk r => ¬ReachesScratch M r
  | .copyRegion1 src =>
    validPages src (List.range M.maxPtLen)≤(freeFrames x.1).card ∨ (freeFrames x.1).card=0
  | _ => True

/-- The scratch page between copies. -/
structure ScratchOk (M : Machine) (x : Memory × KernelBrk) : Prop where
  /-- The heap ends at or below the scratch page. -/
  below : kernelBrkPage M true x.2≤M.scratchPage
  /-- The page is not mapped. -/
  unmapped : x.1.kernelRegion0Pt M.scratchPage=zeroPte

/-- Unmapping a page that is not mapped changes nothing. -/
theorem unmap_scratch (h : pt M.scratchPage=zeroPte) :
    memoryUnmapPage M pt M.scratchPage=pt := by
  unfold memoryUnmapPage
  split
  · rfl
  · rw [Function.update_eq_self_iff]
    exact h.symm

/-- While the scratch page is not mapped, copies change nothing. -/
theorem ScratchOk.free (h : ScratchOk M x) : ScratchFree M x := by
  refine ⟨h.below,fun src m' pt hc => ?_,fun pfns => ?_⟩
  · rw [copyPages_region0 hc]
    exact unmap_scratch h.unmapped
  · rw [copyKernelStack_region0]
    exact unmap_scratch h.unmapped

/-- A harmless request is for a page up to the scratch page, or is refused. -/
theorem requestedPage_le {r : ℤ} (ho : M.origKernelBrkPage≤M.scratchPage)
    (hr : ¬ReachesScratch M r) (hl : requestedPage M r≤M.kernelStackBasePage) :
    requestedPage M r≤M.scratchPage := by
  unfold ReachesScratch at hr
  unfold requestedPage at hl ⊢
  unfold Machine.scratchPage at ho ⊢
  split
  · exact ho
  · rename_i hn
    rw [if_neg hn] at hl
    omega

/-- Harmless requests keep the scratch page free. -/
theorem ScratchOk.request (hM : KernelLayout M) (ho : M.origKernelBrkPage≤M.scratchPage)
    (h : ScratchOk M x) {r : ℤ} (hr : ¬ReachesScratch M r) : ScratchOk M (request M true x r) := by
  have hbelow := h.below
  have hstack := hM.stack_le
  have hle := orig_le_requestedPage M r
  have hscratch : M.scratchPage≤M.maxPtLen := by
    unfold Machine.scratchPage
    omega
  have hstarted : kernelBrkPage M true (x.2.started M)≤M.scratchPage := by
    rw [kernelBrkPage_vm,started_idem,←kernelBrkPage_vm]
    exact hbelow
  unfold KernelBreak.request setKernelBrkPage
  dsimp only
  by_cases hl : requestedPage M r≤M.kernelStackBasePage
  · have hreq := requestedPage_le ho hr hl
    rw [if_neg (by omega),if_neg (by decide)]
    split
    · rename_i m₁ pt₁ hg
      have hgr := growPages_table hg (by omega) (by omega)
      refine ⟨hstarted,?_⟩
      dsimp only
      rw [hgr.outside _ (by omega)]
      exact h.unmapped
    · rename_i m₁ pt₁ hg
      have hgr := growPages_table hg (by omega) (by omega)
      have hsh := (shrinkPages_table (M := M) m₁ pt₁ (requestedPage M r)
        (kernelBrkPage M true x.2-requestedPage M r) (by omega) (by omega)).2 M.scratchPage
        (by omega)
      refine ⟨?_,?_⟩
      · dsimp only
        rw [kernelBrkPage_vm,started_eq hle]
        exact hreq
      · dsimp only
        rw [hsh,hgr.outside _ (by omega)]
        exact h.unmapped
  · rw [if_pos (by omega)]
    exact ⟨hstarted,h.unmapped⟩

/-- Installing a kernel stack changes its entries only. -/
theorem installKernelStack_other {l : List ℕ} {i : ℕ} (h : ∀ j∈l,M.kernelStackBasePage+j≠i) :
    installKernelStack M pfns l pt i=pt i := by
  induction l generalizing pt with
  | nil => rfl
  | cons j l ih =>
    unfold installKernelStack
    rw [ih (fun k hk => h k (List.mem_cons_of_mem _ hk)),
      Function.update_of_ne (h j List.mem_cons_self).symm]

/-- An installed slot of the kernel stack holds its frame. -/
theorem installKernelStack_at {l : List ℕ} {j : ℕ} (hj : j∈l) :
    installKernelStack M pfns l pt (M.kernelStackBasePage+j)=⟨true,protReadWrite,pfns j⟩ := by
  induction l generalizing pt with
  | nil => cases hj
  | cons i l ih =>
    unfold installKernelStack
    by_cases hl : j∈l
    · exact ih hl
    · have hji : j=i := (List.mem_cons.1 hj).resolve_right hl
      rw [installKernelStack_other (fun k hk he => hl (by rwa [←Nat.add_left_cancel he])),hji,
        Function.update_self]

/-- Pages below the kernel stack are not affected. -/
theorem installKernelStack_table {l : List ℕ} {i : ℕ} (hi : i<M.kernelStackBasePage) :
    installKernelStack M pfns l pt i=pt i :=
  installKernelStack_other (fun j _ => by omega)

/-- A copy with enough frames unmaps the scratch page, and one without any
frame leaves Region 0 alone. -/
theorem copyRegion1_region0 {src : PageTable}
    (hf : validPages src (List.range M.maxPtLen)≤(freeFrames m).card ∨ (freeFrames m).card=0) :
    (processCopyRegion1 M m src).1.kernelRegion0Pt=
        memoryUnmapPage M m.kernelRegion0Pt M.scratchPage ∨
      (processCopyRegion1 M m src).1.kernelRegion0Pt=m.kernelRegion0Pt := by
  unfold processCopyRegion1
  rcases hf with hf|hf
  · obtain ⟨m₁,pt₁,hc⟩ := @copyPages_succeeds M m (fun _ => zeroPte) src _
      (fun i hi => List.mem_range.1 hi) hf
    rw [hc]
    exact .inl (copyPages_region0 hc)
  · generalize List.range M.maxPtLen=l
    induction l with
    | nil => exact .inl rfl
    | cons j l ih =>
      unfold copyRegion1Pages
      split
      · rw [frameAlloc_none hf]
        exact .inr kept_freeEntries.region0
      · exact ih

/-- Harmless actions keep the scratch page free. -/
theorem ScratchOk.step (hM : KernelLayout M) (ho : M.origKernelBrkPage≤M.scratchPage)
    (h : ScratchOk M x) {a : HeapAction} (ha : Harmless M x a) : ScratchOk M (heapStep M x a) := by
  have hpos := M.origKernelBrkPage_pos
  cases a with
  | brk r => exact h.request hM ho ha
  | copyRegion1 src =>
    refine ⟨h.below,?_⟩
    dsimp only [heapStep]
    rcases copyRegion1_region0 ha with hk|hk
    · rw [hk,unmap_scratch h.unmapped]
      exact h.unmapped
    · rw [hk]
      exact h.unmapped
  | copyStack pfns =>
    refine ⟨h.below,?_⟩
    dsimp only [heapStep]
    rw [copyKernelStack_region0,unmap_scratch h.unmapped]
    exact h.unmapped
  | switch pfns =>
    refine ⟨h.below,?_⟩
    dsimp only [heapStep]
    rw [installKernelStack_table]
    · exact h.unmapped
    · unfold Machine.scratchPage at ho ⊢
      omega
  | frames fa c => exact ⟨h.below,h.unmapped⟩

/-- Requests up to the scratch page keep the highest break there. -/
theorem raises_scratch {t : ℕ} (ho : M.origKernelBrkPage≤M.scratchPage) (ht : t≤M.scratchPage)
    {l : List ℤ} (hl : ∀ r∈l,¬ReachesScratch M r) : l.foldl (raise M) t≤M.scratchPage := by
  induction l generalizing t with
  | nil => exact ht
  | cons r l ih =>
    refine ih ?_ (fun r' hr' => hl r' (List.mem_cons_of_mem _ hr'))
    unfold raise
    split
    · rename_i hle
      have := requestedPage_le ho (hl r List.mem_cons_self) hle
      omega
    · exact ht

/-- The scratch page when virtual memory is enabled. -/
theorem booted_scratch (hM : KernelLayout M) (ho : M.origKernelBrkPage≤M.scratchPage)
    {frames : ℕ} {contents : ℕ → ℕ → UInt8} {r : BootRequests} {v : VmStart}
    (hr : ∀ x∈r.all,¬ReachesScratch M x) (h : bootToVm M frames contents r=some v) :
    ScratchOk M (v.memory,v.brk) := by
  have hv := bootToVm_reached h
  have hpos := M.origKernelBrkPage_pos
  have hdata := hM.data_le
  have htop : heapTop M r.all≤M.scratchPage := raises_scratch ho ho hr
  have hbuild : heapTop M (r.start++r.table++r.build)≤M.scratchPage := by
    refine raises_scratch ho ho (fun x hx => hr x ?_)
    unfold BootRequests.all
    exact List.mem_append_left _ (List.mem_append_left _ hx)
  refine ⟨?_,?_⟩
  · have hle := hv.brk.current_le
    have hh := hv.brk.highest
    dsimp only
    rw [kernelBrkPage_vm]
    omega
  · dsimp only
    rw [hv.region0]
    unfold memoryBuildKernelRegion0
    rw [mapIdentity_table,mapIdentity_table,mapIdentity_table]
    unfold Machine.scratchPage at ho hbuild ⊢
    rw [if_neg (by omega),if_neg (by omega),if_neg (by omega)]

/-- In every run with harmless boots and actions the scratch page stays outside
the heap, and copies change no entry of Region 0. -/
theorem run_scratchFree (hM : KernelLayout M) (ho : M.origKernelBrkPage≤M.scratchPage)
    (h : HeapRun M (fun r => ∀ x∈r.all,¬ReachesScratch M x) (Harmless M) x) : ScratchFree M x := by
  have hok : ScratchOk M x := by
    induction h with
    | boot hb hv => exact booted_scratch hM ho hb hv
    | step a _ ha ih => exact ih.step hM ho ha
  exact hok.free

/-- The small machine when virtual memory is enabled. -/
def sampleVm : VmStart :=
  (bootToVm sampleMachine 256 (fun _ _ => 0) (sampleRequests [])).getD
    ⟨⟨fun _ => false,0,fun _ => zeroPte,fun _ _ => 0⟩,⟨0,0⟩,0⟩

/-- The memory of the sample is reached by a run of heap actions. -/
theorem sampleVm_reached :
    bootToVm sampleMachine 256 (fun _ _ => 0) (sampleRequests [])=some sampleVm := by
  have hs : (bootToVm sampleMachine 256 (fun _ _ => 0) (sampleRequests [])).isSome=true := by
    decide +kernel
  obtain ⟨v,hv⟩ := Option.isSome_iff_exists.1 hs
  unfold sampleVm
  rw [hv,Option.getD_some]

/-- The heap may grow up to the scratch page. -/
theorem run_scratchFree_last :
    HeapRun sampleMachine (fun r => ∀ x∈r.all,¬ReachesScratch sampleMachine x)
      (Harmless sampleMachine)
      (heapStep sampleMachine (sampleVm.memory,sampleVm.brk) (.brk 125)) ∧
    kernelBrkPage sampleMachine true
      (heapStep sampleMachine (sampleVm.memory,sampleVm.brk) (.brk 125)).2=125 ∧
    ScratchFree sampleMachine
      (heapStep sampleMachine (sampleVm.memory,sampleVm.brk) (.brk 125)) := by
  have hr : HeapRun sampleMachine (fun r => ∀ x∈r.all,¬ReachesScratch sampleMachine x)
      (Harmless sampleMachine)
      (heapStep sampleMachine (sampleVm.memory,sampleVm.brk) (.brk 125)) := by
    refine .step _ (.boot ?_ sampleVm_reached) (by unfold Harmless ReachesScratch; decide)
    unfold ReachesScratch
    decide
  exact ⟨hr,by decide +kernel,
    run_scratchFree sampleMachine_layout (by decide) hr⟩

/-- One request reaches over the scratch page, and the next copy of a kernel
stack unmaps that page of the heap. -/
theorem scratch_collides :
    ∃ x,HeapRun sampleMachine (fun _ => True) (fun _ _ => True) x ∧
      sampleMachine.scratchPage<kernelBrkPage sampleMachine true x.2 ∧
      (x.1.kernelRegion0Pt sampleMachine.scratchPage).valid=true ∧
      ((heapStep sampleMachine x (.copyStack (fun _ => 200))).1.kernelRegion0Pt
        sampleMachine.scratchPage).valid=false ∧ ¬ScratchFree sampleMachine x := by
  have hq : sampleMachine.scratchPage<kernelBrkPage sampleMachine true
        (heapStep sampleMachine (sampleVm.memory,sampleVm.brk) (.brk 126)).2 ∧
      ((heapStep sampleMachine (sampleVm.memory,sampleVm.brk) (.brk 126)).1.kernelRegion0Pt
        sampleMachine.scratchPage).valid=true ∧
      ((heapStep sampleMachine (heapStep sampleMachine (sampleVm.memory,sampleVm.brk) (.brk 126))
        (.copyStack (fun _ => 200))).1.kernelRegion0Pt sampleMachine.scratchPage).valid=false := by
    decide +kernel
  refine ⟨_,.step _ (.boot trivial sampleVm_reached) trivial,hq.1,hq.2.1,hq.2.2,fun hf => ?_⟩
  exact absurd hf.below (Nat.not_le.2 hq.1)

end Actions

section Connection

variable {allow : Label → Prop} {s t : Kernel}

/-- The memory changes by actions other than requests of the allocator. -/
def Acts (M : Machine) (m m' : Memory) : Prop :=
  ∃ l : List HeapAction,(∀ a∈l,∀ r,a≠.brk r) ∧ ∀ b,l.foldl (heapStep M) (m,b)=(m',b)

/-- A memory is reached from itself by no action at all. -/
theorem Acts.refl (m : Memory) : Acts M m m :=
  ⟨[],fun a ha => (by cases ha),fun _ => rfl⟩

/-- Actions may follow on other actions. -/
theorem Acts.trans {m₁ : Memory} (h : Acts M m m₁) (h' : Acts M m₁ m') : Acts M m m' := by
  obtain ⟨l,hl,he⟩ := h
  obtain ⟨l',hl',he'⟩ := h'
  refine ⟨l++l',fun a ha => ?_,fun b => ?_⟩
  · rcases List.mem_append.1 ha with ha|ha
    · exact hl a ha
    · exact hl' a ha
  · rw [List.foldl_append,he,he']

/-- A memory changed by one action is changed by actions. -/
theorem acts_one {a : HeapAction} (ha : ∀ r,a≠.brk r) (h : ∀ b,heapStep M (m,b) a=(m',b)) :
    Acts M m m' := by
  refine ⟨[a],fun a' ha' => ?_,fun b => ?_⟩
  · rw [List.mem_singleton.1 ha']
    exact ha
  · exact h b

/-- Frames are taken, given back or filled. -/
theorem Kept.acts (h : Kept m m') : Acts M m m' := by
  refine acts_one (a := .frames m'.frameAllocated m'.contents) (fun r hr => (by cases hr))
    (fun b => ?_)
  obtain ⟨fa,n,pt,c⟩ := m'
  obtain ⟨hn,hp⟩ := h
  dsimp only at hn hp
  dsimp only [heapStep]
  rw [hn,hp]

/-- Copying a table is one action. -/
theorem acts_copyRegion1 (src : PageTable) : Acts M m (processCopyRegion1 M m src).1 :=
  acts_one (a := .copyRegion1 src) (fun r hr => (by cases hr)) (fun _ => rfl)

/-- A kernel stack is copied. -/
theorem acts_copyStack (pfns : ℕ → ℕ) :
    Acts M m (copyKernelStack M pfns (List.range M.kernelStackPages) m) :=
  acts_one (a := .copyStack pfns) (fun r hr => (by cases hr)) (fun _ => rfl)

/-- A kernel stack is installed. -/
theorem acts_switch (pfns : ℕ → ℕ) :
    Acts M m {m with
      kernelRegion0Pt := installKernelStack M pfns (List.range M.kernelStackPages)
        m.kernelRegion0Pt} :=
  acts_one (a := .switch pfns) (fun r hr => (by cases hr)) (fun _ => rfl)

/-- A switch changes the memory by actions other than requests. -/
theorem acts_dispatch (env : Env) : Acts M s.memory (dispatchNext M env s).memory := by
  unfold dispatchNext processSwitch
  dsimp only
  split
  · exact .refl _
  · split
    · exact acts_switch _
    · exact .refl _

/-- A child is created with a kernel stack and pages. -/
theorem acts_child {m₁ : Memory} (hk : processAllocKernelStack M m=(m₁,some pfns))
    (hp : processCopyRegion1 M m₁ src=(m',some pt)) : Acts M m m' := by
  have hs : Kept m (processAllocKernelStack M m).1 := kept_allocStack
  rw [hk] at hs
  have hc := acts_copyRegion1 (M := M) (m := m₁) src
  rw [hp] at hc
  exact hs.acts.trans hc

/-- A child could not be created. -/
theorem acts_createChild (env : Env) (p : PcbPtr)
    (h : (processCreateChild M env p s).2=none) :
    Acts M s.memory (processCreateChild M env p s).1.memory := by
  have hs : Kept s.memory (processAllocKernelStack M s.memory).1 := kept_allocStack
  unfold processCreateChild createChildRun at h ⊢
  cases hcp : callocPcb env s with
  | none => exact .refl _
  | some c =>
    rw [hcp] at h
    dsimp only at h ⊢
    cases hk : processAllocKernelStack M s.memory with
    | mk m₁ o =>
      rw [hk] at h hs
      cases o with
      | none => exact hs.acts
      | some pfns =>
        dsimp only at h ⊢
        split
        · exact (hs.trans kept_freeStack).acts
        · rename_i hn
          rw [if_neg hn] at h
          have hc := acts_copyRegion1 (M := M) (m := m₁) (s.space p).region1Pt
          cases hcr : processCopyRegion1 M m₁ (s.space p).region1Pt with
          | mk m₂ o₂ =>
            rw [hcr] at h hc
            cases o₂ with
            | none => exact (hs.acts.trans hc).trans kept_freeStack.acts
            | some pt => cases h

/-- Every operation of the kernel is a sequence of actions. -/
theorem op_acts {c : Bool} (hc : Coherent M s) (hop : Op M allow c s t) :
    Acts M s.memory t.memory := by
  cases hop with
  | stop cpu env m v ha hu hk hz hv ho => exact (kept_spaceEnd hv).acts
  | dispatch env hsw => exact acts_dispatch env
  | forkFails env m ha hf =>
    have h := acts_createChild (M := M) (s := s) env s.currentProcess (by rw [hf])
    rw [hf] at h
    exact h
  | forkUndone env c pfns pt m₁ m u ha hcp hk hp =>
    obtain ⟨h0,hl⟩ := callocPcb_fresh hcp
    rw [destroyed_child hc h0 hl]
    refine (acts_child hk hp).trans (Kept.acts ?_)
    exact kept_release (by rfl)
  | spawn env caller c pfns pt m₁ m u hb hcp hk hn hp =>
    rw [spawn_eq]
    exact (acts_child hk hp).trans (acts_copyStack _)
  | respace env m v hst ha ho => exact (kept_spaceStep hst).acts
  | zombie status k env m v hk hb hch hl hp hv ho hn => exact (kept_spaceEnd hv).acts
  | zombieWake status k env m v hk hb hch hl hp hw hv ho hn => exact (kept_spaceEnd hv).acts
  | collect statusPtr c ha hch hz =>
    rw [collectChild_eq hc ha statusPtr hch hz]
    exact (kept_release rfl).acts
  | _ => exact .refl _

/-- Actions other than requests go on with a run of the heap. -/
theorem Acts.run {okBoot : BootRequests → Prop} {b : KernelBrk}
    (hr : HeapRun M okBoot (fun _ a => ∀ q,a≠.brk q) (m,b)) (h : Acts M m m') :
    HeapRun M okBoot (fun _ a => ∀ q,a≠.brk q) (m',b) := by
  obtain ⟨l,hl,he⟩ := h
  rw [←he b]
  generalize (m,b)=x at hr
  clear he
  induction l generalizing x with
  | nil => exact hr
  | cons a l ih =>
    exact ih (fun a' ha' => hl a' (List.mem_cons_of_mem _ ha')) _
      (.step a hr (hl a List.mem_cons_self))

/-- Virtual memory is enabled with the memory in which idle was created. -/
theorem bootToVm_memory {b : Boot M} {r : BootRequests} {m₁ : Memory} (hfr : b.frames≤M.maxFrames)
    (htable : b.brkAfterTable=heapTop M (r.start++r.table))
    (hbuild : b.brkAtBuild=heapTop M (r.start++r.table++r.build))
    (hf : frameAlloc (emptyKernel M b).memory=some (pfn,m₁)) :
    bootToVm M b.frames b.contents r=
      some ⟨m₁,(r.enable.foldl (request M false) (m₁,(bootToIdle M b.frames b.contents r).2)).2,
        pfn⟩ := by
  unfold bootToVm
  rw [if_neg (by omega),bootToIdle_memory b htable hbuild,hf]
  dsimp only
  rw [requests_memory]

/-- The memory of the kernel behind a boot. -/
theorem booted_heap {b : Boot M} {r : BootRequests} {p q : PcbPtr} {m₁ m₂ : Memory}
    {v : UserSpace} {u : UserContext} (hfr : b.frames≤M.maxFrames)
    (htable : b.brkAfterTable=heapTop M (r.start++r.table))
    (hbuild : b.brkAtBuild=heapTop M (r.start++r.table++r.build))
    (hf : BootFacts M b p q pfn pfns m₁ m₂ m v) :
    ∃ brk,HeapRun M (fun r' => r'=r) (fun _ a => ∀ x,a≠.brk x)
      ((bootedKernel M b p q pfn pfns m₁ m₂ m v u).memory,brk) := by
  have hboot : bootToVm M b.frames b.contents r=
      some ⟨m₁,(r.enable.foldl (request M false) (m₁,(bootToIdle M b.frames b.contents r).2)).2,
        pfn⟩ := bootToVm_memory hfr htable hbuild hf.stack
  have hstack : Kept m₁ (processAllocKernelStack M m₁).1 := kept_allocStack
  rw [hf.kernelStack] at hstack
  obtain ⟨pc,sp,hprog⟩ := hf.program
  obtain ⟨li,m₃,pt₃,c,hload,rfl,rfl⟩ := loadProgram_success hprog
  refine ⟨_,Acts.run (.boot rfl hboot) ?_⟩
  have hsw : Acts M m₂ (switchedKernel M b p q pfn pfns m₁ m₂).memory :=
    (acts_copyStack _).trans (acts_switch _)
  refine (hstack.acts.trans hsw).trans (Kept.acts ((kept_load hload).trans ?_))
  exact ⟨rfl,rfl⟩

/-- The memory of the kernel in every run is that of a run of the heap in which
the allocator makes no requests behind the boot. -/
theorem run_heap {b : Boot M} {r : BootRequests} (hfr : b.frames≤M.maxFrames)
    (htable : b.brkAfterTable=heapTop M (r.start++r.table))
    (hbuild : b.brkAtBuild=heapTop M (r.start++r.table++r.build))
    (h : Run M (fun b' => b'=b) SwitchSucceeds s) :
    ∃ brk,HeapRun M (fun r' => r'=r) (fun _ a => ∀ x,a≠.brk x) (s.memory,brk) := by
  refine (run_invariant (P := fun s => ∃ brk,HeapRun M (fun r' => r'=r)
    (fun _ a => ∀ x,a≠.brk x) (s.memory,brk))
    (fun s env input hok => ⟨hok,fun _ _ => trivial⟩)
    (fun b' p q pfn pfns m₁ m₂ m v u hb hf => ?_) (fun c s t hc hp hop => ?_) h).2
  · subst hb
    exact booted_heap hfr htable hbuild hf
  · obtain ⟨brk,hr⟩ := hp
    exact ⟨brk,(op_acts hc hop).run hr⟩

end Connection

end Yalnix.ScratchPage
