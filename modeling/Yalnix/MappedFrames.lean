import Yalnix.ScratchPage

/-!
# Frames of mapped pages

No mapped page of Region 0 or of a process refers to a frame that is marked
free. Executables are arbitrary here: segments that overlap and breaks inside
a segment lose frames, which stay marked. The kernel heap grows and shrinks at
any time of a run. The exception is a fork that runs out of frames behind the
first copied page: the scratch page keeps the last frame of the copy, which
has been given back.
-/

namespace Yalnix.MappedFrames

open Framework FrameTable KernelState Scheduling Ipc Terminals ProcessLifetime ProgramLoading
open Syscalls Traps KernelStart Coherence Operations OperationCoherence StepOperations
open CallOperations RunInvariants Traces AddressSpaces TableLoops FramePartition KernelBreak
open ScratchPage

variable {M : Machine} {m m' : Memory} {pt pt' src : PageTable} {page : ℤ} {n pfn : ℕ} {prot : Prot}

section Tables

variable {D : ℕ → Prop} {F : ℕ → Prop}

/-- The mapped pages of a part D of a table have marked frames, each a frame of
its own and none of the frames F in use elsewhere, which are marked too. -/
structure Backing (D : ℕ → Prop) (F : ℕ → Prop) (m : Memory) (pt : PageTable) : Prop where
  /-- Every marked frame is one of the machine. -/
  bounded : ∀ f,m.frameAllocated f=true → f< m.physicalFrameCount
  /-- Frames in use elsewhere are marked. -/
  others : ∀ f,F f → m.frameAllocated f=true
  /-- Frames of mapped pages are marked. -/
  marked : ∀ i,D i → (pt i).valid=true → m.frameAllocated (pt i).pfn=true
  /-- They are not in use elsewhere. -/
  apart : ∀ i,D i → (pt i).valid=true → ¬F (pt i).pfn
  /-- No two pages share one. -/
  one : ∀ i j,D i → D j → (pt i).valid=true → (pt j).valid=true → (pt i).pfn=(pt j).pfn → i=j

/-- Contents and other tables do not matter. -/
theorem Backing.sameFrames (h : Backing D F m pt) (hf : m'.frameAllocated=m.frameAllocated)
    (hn : m'.physicalFrameCount=m.physicalFrameCount) : Backing D F m' pt := by
  refine ⟨?_,?_,?_,h.apart,h.one⟩
  · rw [hf,hn]
    exact h.bounded
  · rw [hf]
    exact h.others
  · rw [hf]
    exact h.marked

/-- Only mapped pages and their frames matter. -/
theorem Backing.sameTable (h : Backing D F m pt)
    (ht : ∀ i,(pt' i).valid=(pt i).valid ∧ (pt' i).pfn=(pt i).pfn) : Backing D F m pt' := by
  refine ⟨h.bounded,h.others,fun i hd hv => ?_,fun i hd hv => ?_,fun i j hi hj hv hv' he => ?_⟩
  · rw [(ht i).2]
    exact h.marked i hd ((ht i).1 ▸ hv)
  · rw [(ht i).2]
    exact h.apart i hd ((ht i).1 ▸ hv)
  · rw [(ht i).2,(ht j).2] at he
    exact h.one i j hi hj ((ht i).1 ▸ hv) ((ht j).1 ▸ hv') he

/-- A page gets a new frame. The frame it may have had before stays marked. -/
theorem Backing.mapPage (h : Backing D F m pt) (ha : frameAlloc m=some (pfn,m'))
    (hm : memoryMapPage M pt page pfn prot=some pt') : Backing D F m' pt' := by
  obtain ⟨hfree,hlt,rfl⟩ := frameAlloc_eq ha
  obtain ⟨h0,_,rfl⟩ := mapPage_eq hm
  have hmark : ∀ f,m.frameAllocated f=true → Function.update m.frameAllocated pfn true f=true := by
    intro f hf
    by_cases he : f=pfn
    · rw [he,Function.update_self]
    · rw [Function.update_of_ne he]
      exact hf
  have hnew : ∀ f,m.frameAllocated f=true → f≠pfn := by
    rintro f hf rfl
    rw [hfree] at hf
    cases hf
  have hold : ∀ i,i≠page.toNat → Function.update pt page.toNat ⟨true,prot,pfn⟩ i=pt i :=
    fun i hi => Function.update_of_ne hi ..
  refine ⟨fun f hf => ?_,fun f hf => hmark f (h.others f hf),fun i hd hv => ?_,
    fun i hd hv hF => ?_,fun i j hi hj hv hv' he => ?_⟩
  · by_cases he : f=pfn
    · rw [he]
      exact hlt
    · dsimp only at hf
      rw [Function.update_of_ne he] at hf
      exact h.bounded f hf
  · by_cases hi : i=page.toNat
    · rw [hi,Function.update_self]
      exact Function.update_self ..
    · rw [hold i hi] at hv ⊢
      exact hmark _ (h.marked i hd hv)
  · by_cases hi : i=page.toNat
    · rw [hi,Function.update_self] at hF
      exact hnew pfn (h.others _ hF) rfl
    · rw [hold i hi] at hv hF
      exact h.apart i hd hv hF
  · by_cases hip : i=page.toNat
    · by_cases hjp : j=page.toNat
      · rw [hip,hjp]
      · rw [hold j hjp] at hv' he
        rw [hip,Function.update_self] at he
        exact absurd he.symm (hnew _ (h.marked j hj hv'))
    · rw [hold i hip] at hv he
      by_cases hjp : j=page.toNat
      · rw [hjp,Function.update_self] at he
        exact absurd he (hnew _ (h.marked i hi hv))
      · rw [hold j hjp] at hv' he
        exact h.one i j hi hj hv hv' he

/-- A mapped page loses its frame, which is given back. -/
theorem Backing.unmapPage (h : Backing D F m pt) (h0 : 0≤page) (h1 : page<M.maxPtLen)
    (hd : D page.toNat) (hv : (pt page.toNat).valid=true) :
    Backing D F (frameFree m (pt page.toNat).pfn) (memoryUnmapPage M pt page) := by
  have hlt := h.bounded _ (h.marked _ hd hv)
  unfold frameFree
  rw [if_neg (by omega),unmapPage_eq h0 h1]
  have hmark : ∀ f,f≠(pt page.toNat).pfn → m.frameAllocated f=true →
      Function.update m.frameAllocated (pt page.toNat).pfn false f=true := by
    intro f hf hm
    rw [Function.update_of_ne hf]
    exact hm
  have hvalid : ∀ i,(Function.update pt page.toNat zeroPte i).valid=true →
      i≠page.toNat ∧ Function.update pt page.toNat zeroPte i=pt i := by
    intro i hi
    have hne : i≠page.toNat := by
      rintro rfl
      rw [Function.update_self] at hi
      cases hi
    exact ⟨hne,Function.update_of_ne hne ..⟩
  refine ⟨fun f hf => ?_,fun f hf => hmark f ?_ (h.others f hf),fun i hi hv' => ?_,
    fun i hi hv' => ?_,fun i j hi hj hvi hvj he => ?_⟩
  · dsimp only at hf
    by_cases he : f=(pt page.toNat).pfn
    · rw [he,Function.update_self] at hf
      cases hf
    · rw [Function.update_of_ne he] at hf
      exact h.bounded f hf
  · rintro rfl
    exact h.apart _ hd hv hf
  · obtain ⟨hne,he⟩ := hvalid i hv'
    rw [he] at hv' ⊢
    exact hmark _ (fun hp => hne (h.one i _ hi hd hv' hv hp)) (h.marked i hi hv')
  · obtain ⟨_,he⟩ := hvalid i hv'
    rw [he] at hv' ⊢
    exact h.apart i hi hv'
  · obtain ⟨_,hei⟩ := hvalid i hvi
    obtain ⟨_,hej⟩ := hvalid j hvj
    rw [hei] at hvi he
    rw [hej] at hvj he
    exact h.one i j hi hj hvi hvj he

/-- Loops over a table keep its frames apart. -/
theorem backing_rule : TableRule M D False True (Backing D F) where
  map h ha hm _ := h.mapPage ha hm
  unmap h ho := by
    obtain ⟨h0,h1,hd,hv⟩ := ho trivial
    exact h.unmapPage h0 h1 hd hv
  store _ h := h.sameFrames rfl rfl
  protect h _ _ := h.sameTable protectText_valid

/-- A heap that grew by at least one page started inside the table. -/
theorem grown_start {k : ℕ} (h : growPages M page (n+1) k m pt=(m',pt',true)) : 0≤page+k := by
  unfold FrameTable.growPages at h
  split at h
  · cases h
  · split at h
    · cases h
    · rename_i hm
      exact (mapPage_eq hm).1

end Tables

section Spaces

variable {v v' : UserSpace} {env : Env} {args : List (List UInt8)} {li : LoadInfo} {q : Prop}
  {F : ℕ → Prop}

/-- The break is not below the start of the heap, and a heap that has pages is
inside the region. An executable decides where an empty heap starts. -/
structure HeapBounds (M : Machine) (v : UserSpace) : Prop where
  /-- The break is not below the start of the heap. -/
  start : v.userHeapStart≤v.userBrk
  /-- A heap that is not empty lies in the region. -/
  inside : M.region1Page (M.upToPage v.userHeapStart)<M.region1Page (M.upToPage v.userBrk) →
    0≤M.region1Page (M.upToPage v.userHeapStart) ∧ M.region1Page (M.upToPage v.userBrk)≤M.maxPtLen
  /-- The stack begins inside the region. -/
  low : v.userStackLowPage≤M.maxPtLen

/-- Rounded addresses stay as they are. -/
theorem upToPage_idem (a : ℕ) : M.upToPage (M.upToPage a)=M.upToPage a :=
  upToPage_of_dvd (upToPage_spec M a).1

/-- A page inside Region 1. -/
abbrev InTable (M : Machine) (i : ℕ) : Prop := i<M.maxPtLen

/-- Brk keeps the bounds of the heap. -/
theorem HeapBounds.moveBrk (hb : HeapBounds M v) (m : Memory) (addr : ℕ) :
    HeapBounds M (moveBrk M m v addr).2.1 := by
  have hin := hb.inside
  have hlow := hb.low
  unfold Syscalls.moveBrk
  split
  · exact hb
  · rename_i href
    unfold BrkRefused at href
    have hle : M.region1Page (M.upToPage v.userHeapStart)≤M.region1Page (M.upToPage addr) :=
      region1Page_mono (upToPage_mono (by omega))
    have hold : M.region1Page (M.upToPage v.userHeapStart)≤M.region1Page (M.upToPage v.userBrk) :=
      region1Page_mono (upToPage_mono hb.start)
    dsimp only
    split
    · exact ⟨hb.start,hin,hlow⟩
    · rename_i m₁ pt₁ hg
      refine ⟨?_,?_,hlow⟩
      · have hup := (upToPage_spec M addr).2
        dsimp only
        omega
      · dsimp only
        rw [upToPage_idem]
        intro hlt
        refine ⟨?_,by omega⟩
        by_cases hpages : M.region1Page (M.upToPage v.userHeapStart)<
            M.region1Page (M.upToPage v.userBrk)
        · exact (hin hpages).1
        · obtain ⟨k,hk⟩ : ∃ k,(M.region1Page (M.upToPage addr)-
              M.region1Page (M.upToPage v.userBrk)).toNat=k+1 :=
            ⟨(M.region1Page (M.upToPage addr)-M.region1Page (M.upToPage v.userBrk)).toNat-1,
              by omega⟩
          rw [hk] at hg
          have hs := grown_start hg
          omega

/-- A growing stack keeps the bounds of the heap. -/
theorem HeapBounds.growStack (hb : HeapBounds M v) (m : Memory) (addr : ℕ) :
    HeapBounds M (growStack M m v addr).2.1 := by
  have hlow := hb.low
  unfold Syscalls.growStack
  split
  · exact hb
  · split
    · exact hb
    · split
      · exact ⟨hb.start,hb.inside,hlow⟩
      · refine ⟨hb.start,hb.inside,?_⟩
        dsimp only
        omega

/-- Every change of an address space keeps its frames apart, also where segments
overlap or the frames run out. -/
theorem Backing.spaceStep (h : Backing (InTable M) F m v.region1Pt) (hb : HeapBounds M v)
    (hs : SpaceStep M env q m v m' v') : Backing (InTable M) F m' v'.region1Pt :=
  backing_rule.spaceStep (fun _ hi => hi) h (fun _ => hb.inside) False.elim False.elim hs

/-- So does what is left of an address space. -/
theorem Backing.spaceEnd (h : Backing (InTable M) F m v.region1Pt)
    (hs : SpaceEnd M env q m v m' v') : Backing (InTable M) F m' v'.region1Pt :=
  backing_rule.spaceEnd (fun _ hi => hi) h False.elim False.elim hs

/-- A loaded program has an empty heap. -/
theorem loaded_bounds (li : LoadInfo) (hv : v'.userHeapStart=imageBrk M li)
    (hb : v'.userBrk=imageBrk M li) (hl : v'.userStackLowPage=stackBasePg M args) :
    HeapBounds M v' := by
  have hs := stackNpg_nonneg M args
  refine ⟨by rw [hv,hb],fun hlt => ?_,?_⟩
  · rw [hv,hb] at hlt
    exact absurd hlt (lt_irrefl _)
  · rw [hl]
    unfold stackBasePg
    omega

/-- Every change of an address space keeps the bounds of its heap. -/
theorem HeapBounds.spaceStep (hb : HeapBounds M v) (hs : SpaceStep M env q m v m' v') :
    HeapBounds M v' := by
  cases hs with
  | brk addr => exact hb.moveBrk m addr
  | grow addr hg => exact hb.growStack m addr
  | exec hi hl =>
    obtain ⟨li,m₁,pt₁,c,hload,rfl,rfl⟩ := loadProgram_success hl
    exact loaded_bounds li rfl rfl rfl

/-- So does what is left of an address space. -/
theorem HeapBounds.spaceEnd (hb : HeapBounds M v) (hs : SpaceEnd M env q m v m' v') :
    HeapBounds M v' := by
  cases hs with
  | kept => exact hb
  | grow addr hg => exact hb.growStack m addr
  | exec hi hl =>
    obtain ⟨li,m₁,pt₁,ok,c,hload,rfl,rfl⟩ := loadProgram_kill hl
    exact ⟨hb.start,hb.inside,hb.low⟩
  | fault hi hl =>
    obtain ⟨li,m₁,pt₁,c,hload,rfl,rfl,_⟩ := loadProgram_fault hl
    exact ⟨hb.start,hb.inside,hb.low⟩

end Spaces

section States

variable {K R live : ℕ → Bool} {idle current p c : PcbPtr} {space space' : PcbPtr → UserSpace}
  {v : UserSpace} {live' : ℕ → Bool} {current' : PcbPtr} {top : ℕ}

/-- The end of the part of Region 0 that is watched as the kernel heap. -/
structure HeapTop (M : Machine) (top : ℕ) : Prop where
  /-- It is not below the image. -/
  image : M.origKernelBrkPage≤top
  /-- It is not above the kernel stack. -/
  stack : top≤M.kernelStackBasePage

/-- A page of the kernel heap. -/
def HeapPage (M : Machine) (top i : ℕ) : Prop := M.origKernelBrkPage≤ i ∧ i<top

/-- The mapped pages of the kernel and of all processes have marked frames. The
frames of the image and of the boot stack, in K, stay marked for ever. -/
structure MappedOk (M : Machine) (top : ℕ) (K live : ℕ → Bool) (idle current : PcbPtr)
    (space : PcbPtr → UserSpace) (m : Memory) : Prop where
  /-- Every mapped page of the kernel heap has a frame of its own. -/
  heap : Backing (HeapPage M top) (fun f => ∃ x,held M K live idle space x=some f) m
    m.kernelRegion0Pt
  /-- No frame is in two places. -/
  one : ∀ x y f,held M K live idle space x=some f → held M K live idle space y=some f → x=y
  /-- The mapped pages of the kernel image have reserved frames. -/
  image : ∀ i<M.origKernelBrkPage,(m.kernelRegion0Pt i).valid=true →
    K (m.kernelRegion0Pt i).pfn=true
  /-- The kernel stack of the current process. -/
  stack : ∀ j<M.kernelStackPages,(m.kernelRegion0Pt (M.kernelStackBasePage+j)).pfn=
    (space current).kernelStackPfns j
  /-- Nothing is mapped above it. -/
  above : ∀ i,M.kernelStackBasePage+M.kernelStackPages≤ i → (m.kernelRegion0Pt i).valid=false
  /-- Idle runs on the boot stack. -/
  idle : ∀ j<M.kernelStackPages,(space idle).kernelStackPfns j< m.physicalFrameCount →
    K ((space idle).kernelStackPfns j)=true
  /-- The heaps of the processes. -/
  bounds : ∀ p,HeapBounds M (space p)

/-- Frames used outside the pages of a process. -/
def Elsewhere (M : Machine) (top : ℕ) (K live : ℕ → Bool) (idle : PcbPtr)
    (space : PcbPtr → UserSpace)
    (pt : PageTable) (p : PcbPtr) (f : ℕ) : Prop :=
  (∃ x,(∀ i,x≠.page p i) ∧ held M K live idle space x=some f) ∨
    ∃ i,HeapPage M top i ∧ (pt i).valid=true ∧ (pt i).pfn=f

/-- The frame of a mapped page of a process. -/
theorem held_page {i : ℕ} (hl : live p=true) (hi : i<M.maxPtLen)
    (hv : ((space p).region1Pt i).valid=true) :
    held M K live idle space (.page p i)=some ((space p).region1Pt i).pfn := by
  dsimp only [held,tableSlots]
  rw [if_pos hl,if_pos ⟨hi,hv⟩]

/-- A place that is no reserved frame does not depend on these. -/
theorem held_reserved {x : Place} (hx : ∀ g,x≠.reserved g) :
    held M K live idle space x=held M R live idle space x := by
  cases x with
  | reserved g => exact absurd rfl (hx g)
  | page q i => rfl
  | stack q i => rfl

/-- A reserved frame is held by its reservation. -/
theorem held_fixed {f : ℕ} (hf : K f=true) : held M K live idle space (.reserved f)=some f :=
  if_pos hf

/-- The frame in a reserved place. -/
theorem of_held_fixed {f g : ℕ} (h : held M K live idle space (.reserved g)=some f) :
    g=f ∧ K f=true := by
  dsimp only [held] at h
  split at h
  · rename_i hg
    injection h with h
    exact ⟨h,h ▸ hg⟩
  · cases h

/-- The table of a process beside all other frames. -/
theorem MappedOk.table (h : MappedOk M top K live idle current space m) (hl : live p=true) :
    Backing (InTable M) (Elsewhere M top K live idle space m.kernelRegion0Pt p) m
      (space p).region1Pt := by
  refine ⟨h.heap.bounded,fun f hf => ?_,fun i hi hv => ?_,fun i hi hv hf => ?_,
    fun i j hi hj hv hv' he => ?_⟩
  · rcases hf with ⟨x,_,hx⟩|⟨i,hi,hv,rfl⟩
    · exact h.heap.others f ⟨x,hx⟩
    · exact h.heap.marked i hi hv
  · exact h.heap.others _ ⟨_,held_page hl hi hv⟩
  · rcases hf with ⟨x,hx,hxf⟩|⟨j,hj,hvj,he⟩
    · exact hx i (h.one _ _ _ hxf (held_page hl hi hv))
    · refine h.heap.apart j hj hvj ?_
      rw [he]
      exact ⟨_,held_page hl hi hv⟩
  · have hheld : held M K live idle space (.page p i)=some ((space p).region1Pt i).pfn :=
      held_page hl hi hv
    have hij := h.one _ _ _ hheld (by rw [he]; exact held_page hl hj hv')
    injection hij

/-- The address space of a process changes. -/
theorem MappedOk.respace (h : MappedOk M top K live idle current space m) (hl : live p=true)
    (ht : Backing (InTable M) (Elsewhere M top K live idle space m.kernelRegion0Pt p) m'
      v.region1Pt)
    (hk : Kept m m') (hs : v.kernelStackPfns=(space p).kernelStackPfns) (hb : HeapBounds M v) :
    MappedOk M top K live idle current (Function.update space p v) m' := by
  have hstack : ∀ q,(Function.update space p v q).kernelStackPfns=(space q).kernelStackPfns := by
    intro q
    by_cases hq : q=p
    · rw [hq,Function.update_self,hs]
    · rw [Function.update_of_ne hq]
  have hpage : ∀ i f,held M K live idle (Function.update space p v) (.page p i)=some f →
      i<M.maxPtLen ∧ (v.region1Pt i).valid=true ∧ (v.region1Pt i).pfn=f := by
    intro i f hf
    dsimp only [held,tableSlots] at hf
    rw [if_pos hl,Function.update_self] at hf
    split at hf
    · rename_i hi
      injection hf with hf
      exact ⟨hi.1,hi.2,hf⟩
    · cases hf
  have hother : ∀ x,(∀ i,x≠.page p i) →
      held M K live idle (Function.update space p v) x=held M K live idle space x := by
    intro x hx
    cases x with
    | reserved g => rfl
    | page q i =>
      have hq : q≠p := by
        rintro rfl
        exact hx i rfl
      dsimp only [held]
      rw [Function.update_of_ne hq]
    | stack q i =>
      dsimp only [held]
      rw [hstack q]
  have hcases : ∀ x f,held M K live idle (Function.update space p v) x=some f →
      (∃ i,x=.page p i ∧ i<M.maxPtLen ∧ (v.region1Pt i).valid=true ∧ (v.region1Pt i).pfn=f) ∨
        ((∀ i,x≠.page p i) ∧ held M K live idle space x=some f) := by
    intro x f hf
    by_cases hx : ∃ i,x=.page p i
    · obtain ⟨i,rfl⟩ := hx
      obtain ⟨hi,hv,he⟩ := hpage i f hf
      exact .inl ⟨i,rfl,hi,hv,he⟩
    · have hn : ∀ i,x≠.page p i := fun i hi => hx ⟨i,hi⟩
      rw [hother x hn] at hf
      exact .inr ⟨hn,hf⟩
  refine ⟨⟨ht.bounded,?_,?_,?_,?_⟩,fun x y f hx hy => ?_,?_,?_,?_,?_,fun q => ?_⟩
  · rintro f ⟨x,hx⟩
    rcases hcases x f hx with ⟨i,_,hi,hv,rfl⟩|⟨hn,hf⟩
    · exact ht.marked i hi hv
    · exact ht.others f (.inl ⟨x,hn,hf⟩)
  · intro i hi hv
    rw [hk.region0] at hv ⊢
    exact ht.others _ (.inr ⟨i,hi,hv,rfl⟩)
  · rintro i hi hv ⟨x,hx⟩
    rw [hk.region0] at hv hx
    rcases hcases x _ hx with ⟨j,_,hj,hvj,he⟩|⟨_,hf⟩
    · refine ht.apart j hj hvj ?_
      rw [he]
      exact .inr ⟨i,hi,hv,rfl⟩
    · exact h.heap.apart i hi hv ⟨x,hf⟩
  · rw [hk.region0]
    exact h.heap.one
  · rcases hcases x f hx with ⟨i,rfl,hi,hv,he⟩|⟨hn,hf⟩
    · rcases hcases y f hy with ⟨j,rfl,hj,hvj,he'⟩|⟨hn',hf'⟩
      · rw [ht.one i j hi hj hv hvj (he.trans he'.symm)]
      · refine absurd ?_ (ht.apart i hi hv)
        rw [he]
        exact .inl ⟨y,hn',hf'⟩
    · rcases hcases y f hy with ⟨j,rfl,hj,hvj,he'⟩|⟨hn',hf'⟩
      · refine absurd ?_ (ht.apart j hj hvj)
        rw [he']
        exact .inl ⟨x,hn,hf⟩
      · exact h.one x y f hf hf'
  · rw [hk.region0]
    exact h.image
  · intro j hj
    rw [hk.region0,hstack]
    exact h.stack j hj
  · rw [hk.region0]
    exact h.above
  · intro j hj
    rw [hstack,hk.count]
    exact h.idle j hj
  · by_cases hq : q=p
    · rw [hq,Function.update_self]
      exact hb
    · rw [Function.update_of_ne hq]
      exact h.bounds q

/-- Lost frames and the kernel heap are counted as reserved. -/
theorem MappedOk.accounted (h : MappedOk M top K live idle current space m) :
    ∃ R : ℕ → Bool,(∀ f,K f=true → R f=true) ∧
      (∀ i,HeapPage M top i → (m.kernelRegion0Pt i).valid=true → R (m.kernelRegion0Pt i).pfn=true) ∧
      Accounted m (held M R live idle space) := by
  classical
  let used : ℕ → Prop := fun f => ∃ x,(∀ g,x≠.reserved g) ∧ held M K live idle space x=some f
  have hR : ∀ f,decide (m.frameAllocated f=true ∧ ¬used f)=true ↔
      m.frameAllocated f=true ∧ ¬used f := fun f => decide_eq_true_iff
  have hold : ∀ {x : Place} {f : ℕ},(∀ g,x≠.reserved g) →
      held M (fun f => decide (m.frameAllocated f=true ∧ ¬used f)) live idle space x=some f →
      held M K live idle space x=some f := by
    intro x f hx hf
    rw [held_reserved hx]
    exact hf
  refine ⟨fun f => decide (m.frameAllocated f=true ∧ ¬used f),fun f hf => ?_,fun i hi hv => ?_,
    ⟨fun f => ⟨fun hf => ?_,?_⟩,fun f x y hx hy => ?_⟩,h.heap.bounded⟩
  · refine (hR f).2 ⟨h.heap.others f ⟨_,held_fixed hf⟩,?_⟩
    rintro ⟨x,hx,hxf⟩
    exact hx f (h.one _ _ f hxf (held_fixed hf))
  · refine (hR _).2 ⟨h.heap.marked i hi hv,?_⟩
    rintro ⟨x,_,hxf⟩
    exact h.heap.apart i hi hv ⟨x,hxf⟩
  · by_cases hu : used f
    · obtain ⟨x,hx,hxf⟩ := hu
      exact ⟨x,by rw [held_reserved (R := K) hx]; exact hxf⟩
    · exact ⟨.reserved f,held_fixed ((hR f).2 ⟨hf,hu⟩)⟩
  · rintro ⟨x,hx⟩
    by_cases hr : ∃ g,x=.reserved g
    · obtain ⟨g,rfl⟩ := hr
      exact ((hR f).1 (of_held_fixed hx).2).1
    · exact h.heap.others f ⟨x,hold (fun g hg => hr ⟨g,hg⟩) hx⟩
  · by_cases hrx : ∃ g,x=.reserved g
    · obtain ⟨g,rfl⟩ := hrx
      obtain ⟨rfl,hg⟩ := of_held_fixed hx
      by_cases hry : ∃ g,y=.reserved g
      · obtain ⟨g',rfl⟩ := hry
        rw [(of_held_fixed hy).1]
      · have hy' : ∀ g,y≠.reserved g := fun g hg => hry ⟨g,hg⟩
        exact absurd ⟨y,hy',hold hy' hy⟩ ((hR g).1 hg).2
    · have hx' : ∀ g,x≠.reserved g := fun g hg => hrx ⟨g,hg⟩
      by_cases hry : ∃ g,y=.reserved g
      · obtain ⟨g',rfl⟩ := hry
        obtain ⟨rfl,hg⟩ := of_held_fixed hy
        exact absurd ⟨x,hx',hold hx' hx⟩ ((hR g').1 hg).2
      · exact h.one x y f (hold hx' hx) (hold (fun g hg => hry ⟨g,hg⟩) hy)

/-- Reserved frames that are accounted for, among them those of the heap. -/
theorem mapped_of_accounted (hK : ∀ f,K f=true → R f=true)
    (hH : ∀ i,HeapPage M top i → (m.kernelRegion0Pt i).valid=true →
      R (m.kernelRegion0Pt i).pfn=true ∧ K (m.kernelRegion0Pt i).pfn=false)
    (hone : ∀ i j,HeapPage M top i → HeapPage M top j → (m.kernelRegion0Pt i).valid=true →
      (m.kernelRegion0Pt j).valid=true → (m.kernelRegion0Pt i).pfn=(m.kernelRegion0Pt j).pfn → i=j)
    (himage : ∀ i<M.origKernelBrkPage,(m.kernelRegion0Pt i).valid=true →
      K (m.kernelRegion0Pt i).pfn=true)
    (ha : Accounted m (held M R live idle space))
    (hstack : ∀ j<M.kernelStackPages,(m.kernelRegion0Pt (M.kernelStackBasePage+j)).pfn=
      (space current).kernelStackPfns j)
    (habove : ∀ i,M.kernelStackBasePage+M.kernelStackPages≤ i → (m.kernelRegion0Pt i).valid=false)
    (hidle : ∀ j<M.kernelStackPages,(space idle).kernelStackPfns j< m.physicalFrameCount →
      K ((space idle).kernelStackPfns j)=true)
    (hb : ∀ p,HeapBounds M (space p)) : MappedOk M top K live idle current space m := by
  have hmono : ∀ x f,held M K live idle space x=some f → held M R live idle space x=some f := by
    intro x f hx
    by_cases hr : ∃ g,x=.reserved g
    · obtain ⟨g,rfl⟩ := hr
      obtain ⟨rfl,hg⟩ := of_held_fixed hx
      exact held_fixed (hK _ hg)
    · rw [held_reserved (R := K) (fun g hg => hr ⟨g,hg⟩)]
      exact hx
  refine ⟨⟨ha.bounded,?_,fun i hi hv => ?_,?_,hone⟩,
    fun x y f hx hy => ha.filed.unique f x y (hmono x f hx) (hmono y f hy),himage,hstack,habove,
    hidle,hb⟩
  · rintro f ⟨x,hx⟩
    exact (ha.filed.held f).2 ⟨x,hmono x f hx⟩
  · exact (ha.filed.held _).2 ⟨_,held_fixed (hH i hi hv).1⟩
  · rintro i hi hv ⟨x,hx⟩
    obtain ⟨hr,hk⟩ := hH i hi hv
    have hx' := ha.filed.unique _ _ _ (hmono x _ hx) (held_fixed hr)
    subst hx'
    rw [(of_held_fixed hx).2] at hk
    cases hk

/-- Processes come and go, and Region 0 loses pages of the heap at most. -/
theorem MappedOk.of_accounted (h : MappedOk M top K live idle current space m)
    (hK : ∀ f,K f=true → R f=true)
    (hH : ∀ i,HeapPage M top i → (m.kernelRegion0Pt i).valid=true →
      R (m.kernelRegion0Pt i).pfn=true)
    (ha : Accounted m' (held M R live' idle space'))
    (hlow : ∀ i<top,(m'.kernelRegion0Pt i).valid=true →
      m'.kernelRegion0Pt i=m.kernelRegion0Pt i)
    (hbase : M.origKernelBrkPage≤top)
    (hstack : ∀ j<M.kernelStackPages,(m'.kernelRegion0Pt (M.kernelStackBasePage+j)).pfn=
      (space' current').kernelStackPfns j)
    (habove : ∀ i,M.kernelStackBasePage+M.kernelStackPages≤ i → (m'.kernelRegion0Pt i).valid=false)
    (hidle : (space' idle).kernelStackPfns=(space idle).kernelStackPfns)
    (hcount : m'.physicalFrameCount=m.physicalFrameCount)
    (hb : ∀ p,HeapBounds M (space' p)) : MappedOk M top K live' idle current' space' m' := by
  refine mapped_of_accounted hK (fun i hi hv => ?_) (fun i j hi hj hv hv' he => ?_)
    (fun i hi hv => ?_) ha hstack habove (fun j hj hlt => ?_) hb
  · have he := hlow i hi.2 hv
    rw [he] at hv ⊢
    refine ⟨hH i hi hv,?_⟩
    rw [Bool.eq_false_iff]
    exact fun hk => h.heap.apart i hi hv ⟨_,held_fixed hk⟩
  · have hei := hlow i hi.2 hv
    have hej := hlow j hj.2 hv'
    rw [hei] at hv he
    rw [hej] at hv' he
    exact h.heap.one i j hi hj hv hv' he
  · have he := hlow i (by omega) hv
    rw [he] at hv ⊢
    exact h.image i hi hv
  · rw [hidle] at hlt ⊢
    rw [hcount] at hlt
    exact h.idle j hj hlt

end States

section Forks

variable {env : Env} {s t : Kernel} {c p : PcbPtr} {pfns : ℕ → ℕ} {pt'' : PageTable} {top : ℕ}

/-- A table that loses pages below the kernel stack at most, as far as it is
watched. -/
structure Loses (M : Machine) (top : ℕ) (pt pt' : PageTable) : Prop where
  /-- What is still mapped there is mapped as before. -/
  low : ∀ i<top,(pt' i).valid=true → pt' i=pt i
  /-- The entries from the kernel stack on are kept. -/
  high : ∀ i,M.kernelStackBasePage≤ i → pt' i=pt i

/-- A table loses nothing relative to itself. -/
theorem Loses.refl (M : Machine) (top : ℕ) (pt : PageTable) : Loses M top pt pt :=
  ⟨fun _ _ _ => rfl,fun _ _ => rfl⟩

/-- One loss after the other. -/
theorem Loses.trans (h : Loses M top pt pt') (h' : Loses M top pt' pt'') : Loses M top pt pt'' := by
  refine ⟨fun i hi hv => ?_,fun i hi => (h'.high i hi).trans (h.high i hi)⟩
  have he := h'.low i hi hv
  rw [he] at hv ⊢
  exact h.low i hi hv

/-- Frames are taken and given back behind a loss. -/
theorem Loses.kept (h : Loses M top pt m.kernelRegion0Pt) (hk : Kept m m') :
    Loses M top pt m'.kernelRegion0Pt := by
  rw [hk.region0]
  exact h

/-- The scratch page is unmapped. -/
theorem loses_scratch (hM : KernelLayout M) (pt : PageTable) :
    Loses M top pt (memoryUnmapPage M pt M.scratchPage) := by
  have hpos := M.origKernelBrkPage_pos
  have hbrk := hM.brk_le
  have hstack := hM.stack_le
  have hs : M.scratchPage+1=M.kernelStackBasePage := by
    unfold Machine.scratchPage
    omega
  rw [unmapPage_eq (by omega) (by omega)]
  refine ⟨fun i _ hv => ?_,fun i hi => ?_⟩
  · rw [update_page (by omega)] at hv ⊢
    split at hv
    · cases hv
    · rename_i hne
      rw [if_neg hne]
  · rw [update_page (by omega),if_neg (by omega)]

/-- A fork that copies this table finds enough frames behind the allocation of
the kernel stack, or none. -/
def CopyFits (M : Machine) (m : Memory) (src : PageTable) : Prop :=
  ∀ m₁ pfns,processAllocKernelStack M m=(m₁,some pfns) →
    validPages src (List.range M.maxPtLen)≤(freeFrames m₁).card ∨ (freeFrames m₁).card=0

/-- A copy does not change the number of frames. -/
theorem copyRegion1_count : (processCopyRegion1 M m src).1.physicalFrameCount=
    m.physicalFrameCount := by
  unfold processCopyRegion1
  generalize List.range M.maxPtLen=l
  generalize (fun _ => zeroPte : PageTable)=pt
  induction l generalizing m pt with
  | nil => rfl
  | cons j l ih =>
    unfold copyRegion1Pages
    split
    · split
      · exact kept_freeEntries.count
      · rename_i f m₁ ha
        obtain ⟨_,_,rfl⟩ := frameAlloc_eq ha
        split
        · rw [frameFree_alloc ha]
          exact kept_freeEntries.count
        · rw [ih]
          rfl
    · exact ih _

/-- Copying a table changes Region 0 at most by losing pages. -/
theorem copied_region0 (hM : KernelLayout M) {m₁ m₂ : Memory}
    (hk : processAllocKernelStack M m=(m₁,some pfns))
    (hp : processCopyRegion1 M m₁ src=(m₂,some pt)) :
    Loses M top m.kernelRegion0Pt m₂.kernelRegion0Pt ∧
    m₂.physicalFrameCount=m.physicalFrameCount := by
  have hs : Kept m (processAllocKernelStack M m).1 := kept_allocStack
  rw [hk] at hs
  have hcount : (processCopyRegion1 M m₁ src).1.physicalFrameCount=m₁.physicalFrameCount :=
    copyRegion1_count
  rw [hp] at hcount
  refine ⟨?_,hcount.trans hs.count⟩
  rw [copyPages_region0 hp,hs.region0]
  exact loses_scratch hM _

/-- A copy changes no entry but that of the scratch page. -/
theorem copyRegion1_elsewhere {i : ℕ} (hi : i≠M.scratchPage) :
    (processCopyRegion1 M m src).1.kernelRegion0Pt i=m.kernelRegion0Pt i := by
  unfold processCopyRegion1
  generalize List.range M.maxPtLen=l
  generalize (fun _ => zeroPte : PageTable)=pt
  induction l generalizing m pt with
  | nil =>
    dsimp only [copyRegion1Pages]
    unfold memoryUnmapPage
    split
    · rfl
    · exact Function.update_of_ne (by omega) ..
  | cons j l ih =>
    unfold copyRegion1Pages
    split
    · split
      · exact congrFun kept_freeEntries.region0 i
      · rename_i f m₁ ha
        obtain ⟨_,_,rfl⟩ := frameAlloc_eq ha
        split
        · rw [frameFree_alloc ha]
          exact congrFun kept_freeEntries.region0 i
        · rw [ih]
          dsimp only [copyThroughScratch]
          unfold memoryMapPage
          split
          · rfl
          · exact Function.update_of_ne (by omega) ..
    · exact ih _

/-- A copy that does not watch the scratch page, or finds enough frames or none. -/
theorem copy_loses (hM : KernelLayout M)
    (hf : (validPages src (List.range M.maxPtLen)≤(freeFrames m).card ∨ (freeFrames m).card=0) ∨
      top≤M.scratchPage) :
    Loses M top m.kernelRegion0Pt (processCopyRegion1 M m src).1.kernelRegion0Pt := by
  rcases hf with hf|hs
  · rcases copyRegion1_region0 (M := M) hf with he|he
    · rw [he]
      exact loses_scratch hM _
    · rw [he]
      exact .refl M top _
  · have hpos := M.origKernelBrkPage_pos
    have hbrk := hM.brk_le
    refine ⟨fun i hi _ => copyRegion1_elsewhere (by omega),
      fun i hi => copyRegion1_elsewhere ?_⟩
    unfold Machine.scratchPage
    omega

/-- A failing fork, in which the scratch page is not watched or enough frames
for the pages are found, or none. -/
theorem failed_region0 (hM : KernelLayout M)
    (hf : CopyFits M s.memory (s.space s.currentProcess).region1Pt ∨ top≤M.scratchPage)
    (h : processCreateChild M env s.currentProcess s=({s with memory := m},none)) :
    Loses M top s.memory.kernelRegion0Pt m.kernelRegion0Pt ∧
      m.physicalFrameCount=s.memory.physicalFrameCount := by
  have hmem : (processCreateChild M env s.currentProcess s).1.memory=m := by rw [h]
  have hnone : (processCreateChild M env s.currentProcess s).2=none := by rw [h]
  rw [←hmem]
  have hs : Kept s.memory (processAllocKernelStack M s.memory).1 := kept_allocStack
  unfold processCreateChild createChildRun at hnone ⊢
  cases hcp : callocPcb env s with
  | none => exact ⟨.refl M top _,rfl⟩
  | some c =>
    rw [hcp] at hnone
    dsimp only at hnone ⊢
    cases hk : processAllocKernelStack M s.memory with
    | mk m₁ o =>
      rw [hk] at hs hnone
      cases o with
      | none =>
        dsimp only
        rw [hs.region0]
        exact ⟨.refl M top _,hs.count⟩
      | some pfns =>
        dsimp only at hs hnone ⊢
        split
        · have hfree : Kept m₁ (processFreeKernelStack M m₁ pfns).1 := kept_freeStack
          dsimp only
          rw [hfree.region0,hs.region0]
          exact ⟨.refl M top _,hfree.count.trans hs.count⟩
        · rename_i hn
          rw [if_neg hn] at hnone
          have hcopy : Loses M top m₁.kernelRegion0Pt (processCopyRegion1 M m₁
              (s.space s.currentProcess).region1Pt).1.kernelRegion0Pt :=
            copy_loses hM (hf.imp_left (fun hf => hf m₁ pfns hk))
          have hcount :
              (processCopyRegion1 M m₁ (s.space s.currentProcess).region1Pt).1.physicalFrameCount=
            m₁.physicalFrameCount := copyRegion1_count
          cases hcr : processCopyRegion1 M m₁ (s.space s.currentProcess).region1Pt with
          | mk m₂ o₂ =>
            rw [hcr] at hcopy hcount hnone
            cases o₂ with
            | some pt => cases hnone
            | none =>
              have hfree : Kept m₂ (processFreeKernelStack M m₂ pfns).1 := kept_freeStack
              dsimp only at hcopy hcount ⊢
              refine ⟨?_,hfree.count.trans (hcount.trans hs.count)⟩
              rw [hfree.region0]
              rw [hs.region0] at hcopy
              exact hcopy

end Forks

section Operations

variable {allow : Label → Prop} {s t : Kernel} {K : ℕ → Bool} {env : Env} {p c : PcbPtr}
  {pfns : ℕ → ℕ} {top : ℕ}

/-- The mapped pages of a state have marked frames. -/
abbrev Mapped (M : Machine) (top : ℕ) (K : ℕ → Bool) (s : Kernel) : Prop :=
  MappedOk M top K s.live s.idleProcess s.currentProcess s.space s.memory

/-- The kernel stack of another process is installed. -/
theorem MappedOk.switch {live : ℕ → Bool} {idle current next : PcbPtr}
    {space : PcbPtr → UserSpace} (htop : HeapTop M top)
    (h : MappedOk M top K live idle current space m) :
    MappedOk M top K live idle next space {m with
      kernelRegion0Pt := installKernelStack M (space next).kernelStackPfns
        (List.range M.kernelStackPages) m.kernelRegion0Pt} := by
  obtain ⟨R,hK,hH,ha⟩ := h.accounted
  refine h.of_accounted hK hH (ha.sameFrames rfl rfl) (fun i hi _ => ?_) htop.image (fun j hj => ?_)
    (fun i hi => ?_) rfl rfl h.bounds
  · exact installKernelStack_table (hi.trans_le htop.stack)
  · dsimp only
    rw [installKernelStack_at (List.mem_range.2 hj)]
  · dsimp only
    rw [installKernelStack_other]
    · exact h.above i hi
    · intro j hj
      have := List.mem_range.1 hj
      omega

/-- Processes come and go while Region 0 loses pages below the kernel stack. -/
theorem MappedOk.of_loses {R live live' : ℕ → Bool} {idle current : PcbPtr}
    {space space' : PcbPtr → UserSpace} (htop : HeapTop M top)
    (h : MappedOk M top K live idle current space m) (hK : ∀ f,K f=true → R f=true)
    (hH : ∀ i,HeapPage M top i → (m.kernelRegion0Pt i).valid=true →
      R (m.kernelRegion0Pt i).pfn=true)
    (ha : Accounted m' (held M R live' idle space'))
    (hl : Loses M top m.kernelRegion0Pt m'.kernelRegion0Pt)
    (hcount : m'.physicalFrameCount=m.physicalFrameCount)
    (hcurrent : (space' current).kernelStackPfns=(space current).kernelStackPfns)
    (hidle : (space' idle).kernelStackPfns=(space idle).kernelStackPfns)
    (hb : ∀ p,HeapBounds M (space' p)) : MappedOk M top K live' idle current space' m' := by
  refine h.of_accounted hK hH ha hl.low htop.image (fun j hj => ?_) (fun i hi => ?_) hidle hcount hb
  · rw [hl.high _ (by omega),hcurrent]
    exact h.stack j hj
  · rw [hl.high _ (by omega)]
    exact h.above i hi

/-- A child of the current process has its heap and stack. -/
theorem child_bounds (h : Mapped M top K s) (q : PcbPtr) :
    HeapBounds M (Function.update s.space c ⟨pt,pfns,(s.space s.currentProcess).userBrk,
      (s.space s.currentProcess).userHeapStart,(s.space s.currentProcess).userStackLowPage⟩ q) := by
  by_cases hq : q=c
  · rw [hq,Function.update_self]
    have hb := h.bounds s.currentProcess
    exact ⟨hb.start,hb.inside,hb.low⟩
  · rw [Function.update_of_ne hq]
    exact h.bounds q

/-- Every operation keeps mapped frames marked, if the scratch page is not
watched, or forks that fail found enough frames for the pages or none. -/
theorem op_mapped {b : Bool} (hM : KernelLayout M) (htop : HeapTop M top)
    (hallow : ∀ m src,allow (.copies m src) → CopyFits M m src ∨ top≤M.scratchPage) (h0 : K 0=true)
    (hc : Coherent M s) (h : Mapped M top K s) (hop : Op M allow b s t) : Mapped M top K t := by
  have hl := hc.ready.current_live
  have hR : ∀ {R : ℕ → Bool},(∀ f,K f=true → R f=true) → R 0=true := fun hK => hK 0 h0
  cases hop with
  | stop cpu env m v ha hu hk hz hv ho =>
    exact h.respace hl ((h.table hl).spaceEnd hv) (kept_spaceEnd hv) (spaceEnd_stack hv)
      ((h.bounds _).spaceEnd hv)
  | respace env m v hst ha ho =>
    exact h.respace hl ((h.table hl).spaceStep (h.bounds _) hst) (kept_spaceStep hst)
      (spaceStep_stack hst) ((h.bounds _).spaceStep hst)
  | zombie status k env m v hk hb hch hp hl' hv ho hn =>
    exact h.respace hl ((h.table hl).spaceEnd hv) (kept_spaceEnd hv) (spaceEnd_stack hv)
      ((h.bounds _).spaceEnd hv)
  | zombieWake status k env m v hk hb hch hl' hp hw hv ho hn =>
    exact h.respace hl ((h.table hl).spaceEnd hv) (kept_spaceEnd hv) (spaceEnd_stack hv)
      ((h.bounds _).spaceEnd hv)
  | dispatch env hsw =>
    have h0 : nextProcess s≠0 := by
      rcases nextProcess_cases hc with ⟨_,hn⟩|⟨rest,hr⟩
      · rw [hn]
        exact hc.ready.ne_null hc.ready.idle_live
      · exact hc.ready.ne_null (hc.ready.mem _ (by rw [hr]; simp)).1
    unfold dispatchNext processSwitch
    by_cases he : nextProcess s=s.currentProcess
    · rw [if_pos (.inr he)]
      exact h
    · rw [if_neg (by simpa [h0] using he),if_pos hsw]
      exact h.switch htop
  | forkFails env m ha hf ho =>
    obtain ⟨R,hK,hH,hacc⟩ := h.accounted
    obtain ⟨hlose,hcount⟩ := failed_region0 hM (hallow _ _ ho) hf
    exact h.of_loses htop hK hH (hacc.forkFails (x := Place.reserved 0) (if_pos (hR hK)) hf) hlose
      hcount rfl rfl h.bounds
  | forkUndone env c pfns pt m₁ m u ha hcp hk hp =>
    obtain ⟨R,hK,hH,hacc⟩ := h.accounted
    obtain ⟨hc0,hlc⟩ := callocPcb_fresh hcp
    have hown := owned_undone (u := u) (hR hK) hc hacc hcp hk hp
    obtain ⟨hlose,hcount⟩ := copied_region0 hM hk hp
    rw [destroyed_child hc hc0 hlc] at hown ⊢
    exact h.of_loses htop hK hH hown (hlose.kept (kept_release rfl))
      ((kept_release rfl).count.trans hcount)
      (congrArg UserSpace.kernelStackPfns (Function.update_of_ne (dead_ne_current hc hlc).symm ..))
      (congrArg UserSpace.kernelStackPfns (Function.update_of_ne (fresh_ne_idle hc hlc).symm ..))
      (child_bounds h)
  | spawn env caller c pfns pt m₁ m u hb hcp hk hn hp =>
    obtain ⟨R,hK,hH,hacc⟩ := h.accounted
    obtain ⟨hc0,hlc⟩ := callocPcb_fresh hcp
    have hown := @owned_spawn M m pt pfns s R env c caller _ u
      (.forked (s.birth s.currentProcess) s.stamp env.newPid) hc hacc hcp hk hp
    obtain ⟨hlose,hcount⟩ := copied_region0 hM hk hp
    rw [spawn_eq] at hown ⊢
    have hscratch : Loses M top s.memory.kernelRegion0Pt (kcCopy M c ⟨caller,.fork c⟩
        (enterChild M s.currentProcess c env.newPid pfns pt m s)).memory.kernelRegion0Pt := by
      dsimp only [kcCopy]
      rw [copyKernelStack_region0]
      exact hlose.trans (loses_scratch hM _)
    exact h.of_loses htop hK hH hown hscratch (copyKernelStack_frames.2.trans hcount)
      (congrArg UserSpace.kernelStackPfns (Function.update_of_ne (dead_ne_current hc hlc).symm ..))
      (congrArg UserSpace.kernelStackPfns (Function.update_of_ne (fresh_ne_idle hc hlc).symm ..))
      (child_bounds h)
  | collect statusPtr c ha hch hz =>
    obtain ⟨R,hK,hH,hacc⟩ := h.accounted
    have hown := @owned_collect M s R statusPtr c (hR hK) hc hacc ha hch hz
    rw [collectChild_eq hc ha statusPtr hch hz] at hown ⊢
    exact h.of_loses htop hK hH hown (Loses.kept (.refl M top _) (kept_release rfl))
      (kept_release rfl).count rfl rfl h.bounds
  | _ => exact h

end Operations

section Requests

variable {K live : ℕ → Bool} {idle current : PcbPtr} {space : PcbPtr → UserSpace} {k : KernelBrk}
  {top : ℕ}

/-- The kernel break is between the image and the end of the watched heap. -/
structure Within (M : Machine) (top : ℕ) (k : KernelBrk) : Prop where
  /-- It is not below the image. -/
  above : M.origKernelBrkPage≤ kernelBrkPage M true k
  /-- It is in the watched part. -/
  below : kernelBrkPage M true k≤top

/-- Starting variables stay as they are. -/
theorem Within.started (h : Within M top k) : Within M top (k.started M) := by
  have he : kernelBrkPage M true (k.started M)=kernelBrkPage M true k := by
    rw [kernelBrkPage_vm,kernelBrkPage_vm,started_idem]
  exact ⟨by rw [he]; exact h.above,by rw [he]; exact h.below⟩

/-- The break behind a request that was served. -/
theorem within_requested {r : ℤ} {n : ℕ} (hr : requestedPage M r≤top) :
    Within M top ⟨requestedPage M r,n⟩ := by
  have hle := orig_le_requestedPage M r
  have he : kernelBrkPage M true ⟨requestedPage M r,n⟩=requestedPage M r := by
    rw [kernelBrkPage_vm,started_eq hle]
  exact ⟨by rw [he]; exact hle,by rw [he]; exact hr⟩

/-- A request for a page of the watched part, unless it is refused. -/
def InsideHeap (M : Machine) (top : ℕ) (r : ℤ) : Prop :=
  requestedPage M r≤M.kernelStackBasePage → requestedPage M r≤top

/-- Requests keep the break there. -/
theorem Within.request {x : Memory × KernelBrk} {vm : Bool} (h : Within M top x.2) {r : ℤ}
    (hin : InsideHeap M top r) : Within M top (request M vm x r).2 := by
  unfold KernelBreak.request setKernelBrkPage
  dsimp only
  split
  · exact h.started
  · rename_i hr
    split
    · exact within_requested (hin (by omega))
    · split
      · exact h.started
      · exact within_requested (hin (by omega))

/-- The heap changes between the image and the kernel stack. -/
theorem MappedOk.reheap (htop : HeapTop M top) (h : MappedOk M top K live idle current space m)
    (hb : Backing (HeapPage M top) (fun f => ∃ x,held M K live idle space x=some f) m' pt)
    (hn : m'.physicalFrameCount=m.physicalFrameCount)
    (ho : ∀ i,¬HeapPage M top i → pt i=m.kernelRegion0Pt i) :
    MappedOk M top K live idle current space {m' with kernelRegion0Pt := pt} := by
  have himage := htop.image
  have hstack := htop.stack
  refine ⟨hb.sameFrames rfl rfl,h.one,fun i hi => ?_,fun j hj => ?_,fun i hi => ?_,fun j hj => ?_,
    h.bounds⟩
  · dsimp only
    rw [ho i (by unfold HeapPage; omega)]
    exact h.image i hi
  · dsimp only
    rw [ho _ (by unfold HeapPage; omega)]
    exact h.stack j hj
  · dsimp only
    rw [ho i (by unfold HeapPage; omega)]
    exact h.above i hi
  · dsimp only
    rw [hn]
    exact h.idle j hj

/-- The kernel heap grows or shrinks, or its growth is undone. -/
theorem MappedOk.request (hM : KernelLayout M) (htop : HeapTop M top)
    (h : MappedOk M top K live idle current space m) (hk : Within M top k) {r : ℤ}
    (hin : InsideHeap M top r) :
    MappedOk M top K live idle current space (request M true (m,k) r).1 := by
  have habove := hk.above
  have hbelow := hk.below
  have hreq := orig_le_requestedPage M r
  have hstack := hM.stack_le
  have hbase := htop.stack
  unfold KernelBreak.request setKernelBrkPage
  dsimp only
  split
  · exact h
  · rename_i hr
    have hle := hin (by omega)
    rw [if_neg (by decide)]
    have hgr := backing_rule.growHeap (M := M) (kernelBrkPage M true k)
      (requestedPage M r-kernelBrkPage M true k) h.heap
      (fun _ i h₁ h₂ _ => by unfold HeapPage; omega) False.elim
    have hkept : Kept m (growPages M (kernelBrkPage M true k)
      (requestedPage M r-kernelBrkPage M true k) 0 m m.kernelRegion0Pt).1 := kept_growPages
    split
    · rename_i m₁ pt₁ hg
      have htable := growPages_table hg (by omega) (by omega)
      rw [hg] at hgr hkept
      exact h.reheap htop hgr hkept.count
        (fun i hi => htable.outside i (by unfold HeapPage at hi; omega))
    · rename_i m₁ pt₁ hg
      have htable := growPages_table hg (by omega) (by omega)
      rw [hg] at hgr hkept
      have hheap : ∀ i : ℕ,i<kernelBrkPage M true k-requestedPage M r →
          0≤(requestedPage M r : ℤ)+i ∧ (requestedPage M r : ℤ)+i<M.maxPtLen ∧
            HeapPage M top ((requestedPage M r : ℤ)+i).toNat :=
        fun i hi => ⟨by omega,by omega,by unfold HeapPage; omega⟩
      have hsh := backing_rule.shrinkPages hgr (fun _ => hheap)
      have hout := (shrinkPages_table (M := M) m₁ pt₁ (requestedPage M r)
        (kernelBrkPage M true k-requestedPage M r) (by omega) (by omega)).2
      refine h.reheap htop hsh (kept_shrinkPages.count.trans hkept.count) (fun i hi => ?_)
      unfold HeapPage at hi
      rw [hout i (by omega),htable.outside i (by omega)]

end Requests

section Runs

variable {s : Kernel} {k : KernelBrk} {b : Boot M} {r : BootRequests} {p q : PcbPtr}
  {pfns : ℕ → ℕ} {m₁ m₂ : Memory} {v : UserSpace} {u : UserContext} {top : ℕ}

/-- The requests of the allocator during a boot; there are none between
MemoryInit and MemoryBuildKernelRegion0. -/
structure BootHeap (M : Machine) (b : Boot M) (r : BootRequests) : Prop where
  /-- The break behind the allocation of the table of Region 0. -/
  table : b.brkAfterTable=heapTop M (r.start++r.table)
  /-- The break when Region 0 is mapped. -/
  build : b.brkAtBuild=b.brkAfterTable
  /-- Nothing is allocated in between. -/
  none : r.build=[]

/-- Runs in which the allocator moves the kernel break at any time between
entries, with requests that meet a condition. A request inside an entry comes
before the entry takes or gives back frames. -/
inductive GrowingRun (M : Machine) (heap : ℤ → Prop) (ok : Kernel → Env → Input → Prop) :
    Kernel → KernelBrk → Prop
  /-- The state behind KernelStart. -/
  | boot (b : Boot M) (r : BootRequests) (v : VmStart) (hb : BootHeap M b r)
      (hr : ∀ x∈r.all,heap x) (hv : bootToVm M b.frames b.contents r=some v)
      (hu : (kernelStart M b).cpu=.user) : GrowingRun M heap ok (kernelStart M b) v.brk
  /-- A run with requests of the allocator goes on with one more entry. -/
  | step {s : Kernel} {k : KernelBrk} (env : Env) (input : Input) (hs : GrowingRun M heap ok s k)
      (he : input.Enabled s) (h : ok s env input) :
      GrowingRun M heap ok (kernelStep M env s input) k
  /-- A request of the allocator. -/
  | request {s : Kernel} {k : KernelBrk} (r : ℤ) (hs : GrowingRun M heap ok s k) (hr : heap r) :
      GrowingRun M heap ok {s with memory := (request M true (s.memory,k) r).1}
        (request M true (s.memory,k) r).2

/-- No mapped page of Region 0 or of a process refers to a frame that is marked
free. -/
structure NoDangling (M : Machine) (s : Kernel) : Prop where
  /-- The mapped pages of Region 0 have frames in use. -/
  region0 : ∀ i<M.maxPtLen,(s.memory.kernelRegion0Pt i).valid=true →
    (s.memory.kernelRegion0Pt i).pfn< s.memory.physicalFrameCount →
    s.memory.frameAllocated (s.memory.kernelRegion0Pt i).pfn=true
  /-- The mapped pages of every Region 1 have frames in use. -/
  region1 : ∀ p,s.live p=true → ∀ i<M.maxPtLen,((s.space p).region1Pt i).valid=true →
    s.memory.frameAllocated ((s.space p).region1Pt i).pfn=true

/-- Frames in places are marked. -/
theorem MappedOk.noDangling {K : ℕ → Bool} (hc : Coherent M s)
    (h : Mapped M M.kernelStackBasePage K s) :
    NoDangling M s := by
  refine ⟨fun i _ hv hlt => ?_,fun p hl i hi hv => h.heap.others _ ⟨_,held_page hl hi hv⟩⟩
  by_cases himg : i<M.origKernelBrkPage
  · exact h.heap.others _ ⟨_,held_fixed (h.image i himg hv)⟩
  · by_cases hheap : i<M.kernelStackBasePage
    · exact h.heap.marked i ⟨by omega,hheap⟩ hv
    · by_cases habove : M.kernelStackBasePage+M.kernelStackPages≤ i
      · rw [h.above i habove] at hv
        cases hv
      · obtain ⟨j,rfl⟩ := Nat.exists_eq_add_of_le (Nat.not_lt.1 hheap)
        have hj : j<M.kernelStackPages := by omega
        rw [h.stack j hj] at hlt ⊢
        by_cases hi : s.currentProcess=s.idleProcess
        · rw [hi] at hlt ⊢
          exact h.heap.others _ ⟨_,held_fixed (h.idle j hj hlt)⟩
        · refine h.heap.others _ ⟨.stack s.currentProcess j,?_⟩
          dsimp only [held,stackSlots]
          rw [if_pos ⟨hc.ready.current_live,hi⟩,if_pos hj]

/-- The frames of the kernel image and of the boot stack. -/
def fixedFrames (M : Machine) (b : Boot M) (f : ℕ) : Bool :=
  reserved M b f && !decide (M.origKernelBrkPage≤f ∧ f<b.brkAfterTable)

/-- A boot that got a frame has frames above the heap. -/
theorem brk_lt_frames (h : frameAlloc (emptyKernel M b).memory=some (pfn,m)) :
    b.brkAfterTable<b.frames := by
  obtain ⟨hfree,hlt,_⟩ := frameAlloc_eq h
  have hlt : pfn<b.frames := hlt
  have hfree : reserved M b pfn=false := hfree
  by_contra hn
  rw [show reserved M b pfn=true from decide_eq_true ⟨hlt,.inr (.inl (by omega))⟩] at hfree
  cases hfree

/-- Region 0 below the kernel stack behind a boot. -/
theorem bootRegion0_low (hM : KernelLayout M) {i : ℕ} (hi : i<M.kernelStackBasePage)
    (hv : (bootRegion0 M b i).valid=true) :
    (bootRegion0 M b i).pfn=i ∧ (i<M.origKernelBrkPage ∨ i<b.brkAtBuild) := by
  have hdata := hM.data_le
  unfold bootRegion0 at hv ⊢
  split
  · rename_i hc
    rw [if_pos hc] at hv
    cases hv
  · rename_i hc
    rw [if_neg hc] at hv
    rw [if_neg (by omega)] at hv ⊢
    split
    · rename_i hd
      exact ⟨rfl,.inr hd.2⟩
    · rename_i hd
      rw [if_neg hd] at hv
      split
      · exact ⟨rfl,.inl (by omega)⟩
      · rename_i ht
        rw [if_neg ht] at hv
        cases hv

/-- Nothing is mapped above the boot stack. -/
theorem bootRegion0_above (hM : KernelLayout M) (hb : b.brkAtBuild≤M.kernelStackBasePage) {i : ℕ}
    (hi : M.kernelStackBasePage+M.kernelStackPages≤ i) : (bootRegion0 M b i).valid=false := by
  have hdata := hM.data_le
  have hbrk := hM.brk_le
  unfold bootRegion0
  split
  · rfl
  · rw [if_neg (by omega),if_neg (by omega),if_neg (by omega)]
    rfl

/-- The breaks of a boot are below the kernel stack. -/
theorem BootHeap.brk_le (hM : KernelLayout M) (hb : BootHeap M b r) :
    b.brkAfterTable≤M.kernelStackBasePage := by
  rw [hb.table]
  exact raises_le hM.brk_le _

/-- Region 0 behind the switch to the initial process. -/
theorem switched_region0 (hf : BootFacts M b p q pfn pfns m₁ m₂ m v) :
    (switchedKernel M b p q pfn pfns m₁ m₂).memory.kernelRegion0Pt=
        installKernelStack M pfns (List.range M.kernelStackPages)
          (memoryUnmapPage M (bootRegion0 M b) M.scratchPage) ∧
      (switchedKernel M b p q pfn pfns m₁ m₂).memory.physicalFrameCount=b.frames := by
  have hstack : Kept m₁ (processAllocKernelStack M m₁).1 := kept_allocStack
  rw [hf.kernelStack] at hstack
  have hk : Kept (emptyKernel M b).memory m₂ := (kept_alloc hf.stack).trans hstack
  have hq : (enterInit M b q pfns m₂ (idleKernel M b p pfn m₁)).space q={zeroSpace with
      kernelStackPfns := pfns, userStackLowPage := M.maxPtLen} := Function.update_self ..
  refine ⟨?_,?_⟩
  · dsimp only [switchedKernel,kcSwitch,Kernel.setKernelContext,initKernel,kcCopy]
    rw [copyKernelStack_region0,hq]
    dsimp only [enterInit]
    rw [hk.region0]
    rfl
  · have hc := (@copyKernelStack_frames M m₂ ((enterInit M b q pfns m₂
      (idleKernel M b p pfn m₁)).space q).kernelStackPfns (List.range M.kernelStackPages)).2
    exact hc.trans hk.count

/-- The mapped frames behind a boot. -/
theorem booted_mapped (hM : KernelLayout M) (htop : HeapTop M top) (hb : BootHeap M b r)
    (hf : BootFacts M b p q pfn pfns m₁ m₂ m v) :
    Mapped M top (fixedFrames M b) (bootedKernel M b p q pfn pfns m₁ m₂ m v u) := by
  have hpos := M.origKernelBrkPage_pos
  have hbase := hM.brk_le
  have hbrk := hb.brk_le hM
  have hframes := brk_lt_frames hf.stack
  have himg := b.brk_image
  have hgrow := b.brk_grows
  have hbuild := hb.build
  have hfixed : ∀ f,fixedFrames M b f=true ↔
      reserved M b f=true ∧ ¬(M.origKernelBrkPage≤f ∧ f<b.brkAfterTable) := by
    intro f
    unfold fixedFrames
    rw [Bool.and_eq_true,Bool.not_eq_true',decide_eq_false_iff_not]
  obtain ⟨hregion,hcount⟩ := switched_region0 hf
  have hlow : ∀ i<M.kernelStackBasePage,
      ((switchedKernel M b p q pfn pfns m₁ m₂).memory.kernelRegion0Pt i).valid=true →
      ((switchedKernel M b p q pfn pfns m₁ m₂).memory.kernelRegion0Pt i).pfn=i ∧
        i<b.brkAfterTable := by
    intro i hi hv
    rw [hregion,installKernelStack_table hi] at hv ⊢
    have hlose : Loses M M.kernelStackBasePage (bootRegion0 M b) _ := loses_scratch hM _
    have he := hlose.low i hi hv
    rw [he] at hv ⊢
    obtain ⟨h₁,h₂⟩ := bootRegion0_low hM hi hv
    exact ⟨h₁,by omega⟩
  have hsw : Mapped M top (fixedFrames M b) (switchedKernel M b p q pfn pfns m₁ m₂) := by
    refine mapped_of_accounted (fun f hk => ((hfixed f).1 hk).1) (fun i hi hv => ?_)
      (fun i j hi hj hv hv' he => ?_) (fun i hi hv => ?_) (switched_owned hf) (fun j hj => ?_)
      (fun i hi => ?_) (fun j hj hlt => ?_) (fun x => ?_)
    · obtain ⟨hp,hlt⟩ := hlow i (hi.2.trans_le htop.stack) hv
      rw [hp]
      refine ⟨decide_eq_true ⟨by omega,.inr (.inl hlt)⟩,?_⟩
      rw [Bool.eq_false_iff,ne_eq,hfixed]
      exact fun hn => hn.2 ⟨hi.1,hlt⟩
    · rw [(hlow i (hi.2.trans_le htop.stack) hv).1,
        (hlow j (hj.2.trans_le htop.stack) hv').1] at he
      exact he
    · obtain ⟨hp,hlt⟩ := hlow i (by omega) hv
      rw [hp,hfixed]
      exact ⟨decide_eq_true ⟨by omega,.inr (.inl hlt)⟩,by omega⟩
    · rw [hregion,installKernelStack_at (List.mem_range.2 hj)]
      dsimp only [switchedKernel,kcSwitch,Kernel.setKernelContext,initKernel,kcCopy,enterInit]
      rw [Function.update_self]
    · have hlose : Loses M M.kernelStackBasePage (bootRegion0 M b) _ := loses_scratch hM _
      rw [hregion,installKernelStack_other,hlose.high i (by omega)]
      · exact bootRegion0_above hM (by omega) hi
      · intro j hj
        have := List.mem_range.1 hj
        omega
    · have hidle : ((switchedKernel M b p q pfn pfns m₁ m₂).space p).kernelStackPfns=
          fun i => if i<2 then M.kernelStackBasePage+i else 0 := by
        dsimp only [switchedKernel,kcSwitch,Kernel.setKernelContext,initKernel,kcCopy,enterInit,
          idleKernel,enterIdle]
        rw [Function.update_of_ne hf.ne.symm,Function.update_self]
      have hp : (switchedKernel M b p q pfn pfns m₁ m₂).idleProcess=p := rfl
      rw [hp,hidle,hcount] at hlt
      rw [hp,hidle,hfixed]
      dsimp only at hlt ⊢
      split
      · rename_i h2
        rw [if_pos h2] at hlt
        exact ⟨decide_eq_true ⟨hlt,.inr (.inr ⟨by omega,by omega⟩)⟩,by omega⟩
      · exact ⟨reserved_zero hf.stack,by omega⟩
    · dsimp only [switchedKernel,kcSwitch,Kernel.setKernelContext,initKernel,kcCopy,enterInit,
        idleKernel,enterIdle,emptyKernel]
      by_cases hq : x=q
      · rw [hq,Function.update_self]
        exact ⟨Nat.le_refl _,fun hlt => absurd hlt (lt_irrefl _),Int.le_refl _⟩
      · rw [Function.update_of_ne hq]
        by_cases hp : x=p
        · rw [hp,Function.update_self]
          exact ⟨Nat.le_refl _,fun hlt => absurd hlt (lt_irrefl _),Int.natCast_nonneg _⟩
        · rw [Function.update_of_ne hp]
          exact ⟨Nat.le_refl _,fun hlt => absurd hlt (lt_irrefl _),Int.natCast_nonneg _⟩
  obtain ⟨pc,sp,hprog⟩ := hf.program
  obtain ⟨li,m₃,pt₃,c,hload,rfl,rfl⟩ := loadProgram_success hprog
  have hl : (switchedKernel M b p q pfn pfns m₁ m₂).live q=true := Function.update_self ..
  have hback := backing_rule.load (fun _ hi => hi) (hsw.table hl) False.elim hload
  exact hsw.respace hl ((hback.sameTable protectText_valid).sameFrames rfl rfl)
    ((kept_load hload).trans ⟨rfl,rfl⟩) rfl (loaded_bounds li rfl rfl rfl)

/-- The break when virtual memory is enabled. -/
theorem booted_within (htop : HeapTop M top) {frames : ℕ} {contents : ℕ → ℕ → UInt8}
    {v : VmStart} (hr : ∀ x∈r.all,InsideHeap M top x)
    (hv : bootToVm M frames contents r=some v) : Within M top v.brk := by
  have hall : ∀ (l : List ℤ) (x : Memory × KernelBrk),(∀ x∈l,InsideHeap M top x) →
      Within M top x.2 → Within M top (l.foldl (request M false) x).2 := by
    intro l
    induction l with
    | nil => exact fun x _ h => h
    | cons r l ih =>
      exact fun x hin h => ih _ (fun y hy => hin y (List.mem_cons_of_mem _ hy))
        (h.request (hin r List.mem_cons_self))
  unfold BootRequests.all at hr
  simp only [List.mem_append] at hr
  have hzero : Within M top ⟨0,0⟩ := by
    have he : kernelBrkPage M true ⟨0,0⟩=M.origKernelBrkPage := by
      rw [kernelBrkPage_vm]
      rfl
    exact ⟨by rw [he],by rw [he]; exact htop.image⟩
  unfold bootToVm at hv
  split at hv
  · cases hv
  · split at hv
    · cases hv
    · rename_i pfn m hf
      injection hv with hv
      subst hv
      refine hall _ _ (fun x hx => hr x (.inr hx)) ?_
      refine hall _ _ (fun x hx => hr x (.inl (.inr hx))) ?_
      refine hall _ _ (fun x hx => hr x (.inl (.inl (.inr hx))))
        (?_ : Within M top (memoryInit M r.table _).2)
      refine hall _ _ (fun x hx => hr x (.inl (.inl (.inl (.inr hx))))) ?_
      exact (hall _ _ (fun x hx => hr x (.inl (.inl (.inl (.inl hx))))) hzero).started

/-- Memory does not matter for the other invariants. -/
theorem settled_memory (h : Settled M s) (m : Memory) : Settled M {s with memory := m} := by
  have hc : Coherent M {s with memory := m} := ⟨h.ready,h.block,h.home,h.owner,h.family,h.table,
    h.lock,h.saved,h.reader,h.writer⟩
  have hr : Runnable s → Runnable {s with memory := m} :=
    fun hr => ⟨hr.state,hr.unlinked,hr.running⟩
  exact ⟨hc,h.unlinked,fun hu => ⟨hr (h.user hu).toRunnable,(h.user hu).executing⟩,
    fun hk => ⟨hr (h.kernel hk).1,(h.kernel hk).2⟩⟩

/-- A step whose fork, if it is one, finds enough frames for all mapped pages
of the process behind the allocation of the kernel stack, or none. -/
def ForksFit (M : Machine) (s : Kernel) (env : Env) (input : Input) : Prop :=
  env.switchOk=true ∧ ∀ u,input=.trap u → u.vector=.kernel → M.syscallOf u.code=.fork →
    CopyFits M s.memory (s.space s.currentProcess).region1Pt

/-- The condition on a step restricts its labels. -/
theorem forksFit_allowed {env : Env} {input : Input}
    (h : ForksFit M s env input ∨ top≤M.scratchPage) :
    StepAllowed M (fun x => ∀ m src,x=.copies m src → CopyFits M m src ∨ top≤M.scratchPage)
      s env input := by
  intro x hx m src he
  cases hx with
  | copies u hv hc =>
    injection he with hm hs
    rw [←hm,←hs]
    exact h.imp_left (fun h => h.2 u rfl hv hc)
  | _ => cases he

/-- In every state of every run the mapped frames are marked, as far as Region 0
is watched. -/
theorem run_mapped {heap : ℤ → Prop} {ok : Kernel → Env → Input → Prop} (hM : KernelLayout M)
    (htop : HeapTop M top) (hheap : ∀ r,heap r → InsideHeap M top r)
    (hok : ∀ s env input,ok s env input →
      env.switchOk=true ∧ (ForksFit M s env input ∨ top≤M.scratchPage))
    (h : GrowingRun M heap ok s k) :
    Settled M s ∧ Within M top k ∧ ∃ K,K 0=true ∧ Mapped M top K s := by
  induction h with
  | boot b r v hb hr hv hu =>
    obtain ⟨p,q,pfn,pfns,m₁,m₂,m,v,u,hf,he⟩ := kernelStart_eq hu
    rw [he]
    refine ⟨booted_settled hf,booted_within htop (fun x hx => hheap x (hr x hx)) hv,
      fixedFrames M b,?_,booted_mapped hM htop hb hf⟩
    have hpos := M.origKernelBrkPage_pos
    unfold fixedFrames
    rw [reserved_zero hf.stack,Bool.true_and,Bool.not_eq_true',decide_eq_false_iff_not]
    omega
  | @step s k env input _ he hst ih =>
    obtain ⟨hset,hk,K,h0,hm⟩ := ih
    obtain ⟨hsw,hfit⟩ := hok s env input hst
    obtain ⟨hops,hset'⟩ := kernelStep_done hset hsw he (forksFit_allowed hfit)
    have hstep : ∀ {s t},
        Ops M (fun x => ∀ m src,x=.copies m src → CopyFits M m src ∨ top≤M.scratchPage) s t →
        Coherent M s → Mapped M top K s → Coherent M t ∧ Mapped M top K t := by
      intro s t hops hc hp
      induction hops with
      | refl => exact ⟨hc,hp⟩
      | tail _ hone ih =>
        obtain ⟨c,hone⟩ := hone
        exact ⟨op_coherent ih.1 hone,
          op_mapped hM htop (fun m src ho => ho m src rfl) h0 ih.1 ih.2 hone⟩
    exact ⟨hset',hk,K,h0,(hstep hops hset.toCoherent hm).2⟩
  | request r _ hr ih =>
    obtain ⟨hset,hk,K,h0,hm⟩ := ih
    exact ⟨settled_memory hset _,hk.request (hheap r hr),K,h0,
      hm.request hM htop hk (hheap r hr)⟩

/-- In every state of every run whose forks find enough frames for the pages of
the process, or none, no mapped page refers to a frame that is marked free. -/
theorem run_noDangling (hM : KernelLayout M) (h : GrowingRun M (fun _ => True) (ForksFit M) s k) :
    NoDangling M s := by
  obtain ⟨hset,_,K,_,hm⟩ := run_mapped hM
    (⟨hM.brk_le,Nat.le_refl _⟩ : HeapTop M M.kernelStackBasePage) (fun _ _ => id)
    (fun s env input hs => ⟨hs.1,.inl hs⟩) h
  exact hm.noDangling hset.toCoherent

/-- A computed test of a fork. -/
def copyTest (M : Machine) (s : Kernel) : Bool :=
  match processAllocKernelStack M s.memory with
  | (m,some _) => decide (validPages (s.space s.currentProcess).region1Pt (List.range M.maxPtLen)≤
      (freeFrames m).card ∨ (freeFrames m).card=0)
  | (_,none) => true

/-- A state that passes the test has a table that can be copied. -/
theorem copyTest_sound (h : copyTest M s=true) :
    CopyFits M s.memory (s.space s.currentProcess).region1Pt := by
  intro m₁ pfns hk
  unfold copyTest at h
  rw [hk] at h
  exact of_decide_eq_true h

/-- The allocator's requests of the sample boot. -/
theorem sampleBoot_heap {b : Boot sampleMachine} (ht : b.brkAfterTable=41) (hb : b.brkAtBuild=41) :
    BootHeap sampleMachine b (sampleRequests []) :=
  ⟨ht.trans (by decide),hb.trans ht.symm,rfl⟩

/-- The state behind a fork of the initial process. -/
def forked : Kernel :=
  kernelStep sampleMachine (forkInput 3 2).1 (kernelStart sampleMachine sampleBoot)
    (forkInput 3 2).2

/-- A process forks, and the kernel heap grows to the page below the scratch
page. -/
theorem run_noDangling_fork : ∃ s k,GrowingRun sampleMachine (fun _ => True)
    (ForksFit sampleMachine) s k ∧
    s.live 3=true ∧ kernelBrkPage sampleMachine true k=124 ∧ NoDangling sampleMachine s := by
  have hfork : ForksFit sampleMachine (kernelStart sampleMachine sampleBoot) (forkInput 3 2).1
      (forkInput 3 2).2 :=
    ⟨rfl,fun _ _ _ _ => copyTest_sound (by decide +kernel)⟩
  have hboot : GrowingRun sampleMachine (fun _ => True) (ForksFit sampleMachine)
      (kernelStart sampleMachine sampleBoot) sampleVm.brk :=
    .boot sampleBoot (sampleRequests []) sampleVm (sampleBoot_heap rfl rfl)
      (fun _ _ => trivial) sampleVm_reached
      sampleBoot_user
  have hrun : GrowingRun sampleMachine (fun _ => True) (ForksFit sampleMachine) forked
    sampleVm.brk :=
    .step (forkInput 3 2).1 (forkInput 3 2).2 hboot sampleBoot_user hfork
  have hgrown := hrun.request 124 trivial
  exact ⟨_,_,hgrown,by decide +kernel,by decide +kernel,
    run_noDangling sampleMachine_layout hgrown⟩

/-- A boot with few frames. -/
def smallBoot : Boot sampleMachine := {sampleBoot with frames := 130}

/-- The initial process with forty heap pages. -/
def grown : Kernel :=
  kernelStep sampleMachine (callInput 6 0x158000 0 0).1 (kernelStart sampleMachine smallBoot)
    (callInput 6 0x158000 0 0).2

/-- The fork of this process, for which too few frames are left. -/
def starved : Kernel :=
  kernelStep sampleMachine (forkInput 3 2).1 grown (forkInput 3 2).2

/-- A process with forty heap pages forks when fewer frames are left: the
scratch page keeps a frame that has been given back. -/
theorem fork_dangles : ∃ s k,GrowingRun sampleMachine (fun _ => True)
    (fun _ env _ => env.switchOk=true) s k ∧
    (s.memory.kernelRegion0Pt sampleMachine.scratchPage).valid=true ∧
    s.memory.frameAllocated (s.memory.kernelRegion0Pt sampleMachine.scratchPage).pfn=false ∧
    ¬NoDangling sampleMachine s := by
  have hu : (kernelStart sampleMachine smallBoot).cpu=.user := by decide +kernel
  have hv : (bootToVm sampleMachine smallBoot.frames smallBoot.contents (sampleRequests [])).isSome=
      true := by decide +kernel
  obtain ⟨v,hv⟩ := Option.isSome_iff_exists.1 hv
  have hboot : GrowingRun sampleMachine (fun _ => True) (fun _ env _ => env.switchOk=true)
      (kernelStart sampleMachine smallBoot) v.brk :=
    .boot smallBoot (sampleRequests []) v (sampleBoot_heap rfl rfl) (fun _ _ => trivial) hv hu
  have hgrown : GrowingRun sampleMachine (fun _ => True) (fun _ env _ => env.switchOk=true) grown
    v.brk :=
    .step (callInput 6 0x158000 0 0).1 (callInput 6 0x158000 0 0).2 hboot hu rfl
  have hrun : GrowingRun sampleMachine (fun _ => True) (fun _ env _ => env.switchOk=true) starved
    v.brk :=
    .step (forkInput 3 2).1 (forkInput 3 2).2 hgrown
      (show grown.cpu=.user by decide +kernel) rfl
  have hs : (starved.memory.kernelRegion0Pt sampleMachine.scratchPage).valid=true ∧
      (starved.memory.kernelRegion0Pt sampleMachine.scratchPage).pfn<
        starved.memory.physicalFrameCount ∧
      starved.memory.frameAllocated
        (starved.memory.kernelRegion0Pt sampleMachine.scratchPage).pfn=false := by
    decide +kernel
  obtain ⟨hvalid,hcount,hfree⟩ := hs
  refine ⟨starved,v.brk,hrun,hvalid,hfree,fun h => ?_⟩
  have hkept := h.region0 sampleMachine.scratchPage (by decide) hvalid hcount
  rw [hfree] at hkept
  cases hkept

end Runs

end Yalnix.MappedFrames
