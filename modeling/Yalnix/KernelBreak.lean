import Yalnix.FramePartition

/-!
# The kernel break and the way to virtual memory

SetKernelBrk serves the allocator. Before virtual memory is enabled it only
counts: the highest break is remembered, and MemoryInit reserves the frames
below it, MemoryBuildKernelRegion0 maps the pages below it. Requests may come
between these steps. The kernel mapping is complete exactly when none of them
raises the break over memory that has been reserved.
-/

namespace Yalnix.KernelBreak

open Framework FrameTable KernelState KernelStart AddressSpaces FramePartition Traces

variable {M : Machine}

/-- What the linker script and the hardware headers promise about Region 0. -/
structure KernelLayout (M : Machine) : Prop where
  /-- Text is below data. -/
  text_le : M.firstKernelTextPage≤M.firstKernelDataPage
  /-- Data is below the first break. -/
  data_le : M.firstKernelDataPage≤M.origKernelBrkPage
  /-- The image is below the kernel stack. -/
  brk_le : M.origKernelBrkPage≤M.kernelStackBasePage
  /-- The kernel stack is in Region 0. -/
  stack_le : M.kernelStackBasePage+M.kernelStackPages≤M.maxPtLen

/-- The static variables of the kernel break, zero before their first use. -/
structure KernelBrk where
  /-- The break as a page number. -/
  current : ℕ
  /-- The highest break before virtual memory. -/
  highest : ℕ
  deriving DecidableEq, Repr

/-- The variables behind their first use. -/
def KernelBrk.started (M : Machine) (b : KernelBrk) : KernelBrk :=
  if b.current=0 then ⟨M.origKernelBrkPage,M.origKernelBrkPage⟩ else b

/-- The page of the break; before virtual memory that of the highest break. -/
def kernelBrkPage (M : Machine) (vmEnabled : Bool) (b : KernelBrk) : ℕ :=
  if vmEnabled=false ∧ (b.started M).current<(b.started M).highest then (b.started M).highest
  else (b.started M).current

/-- The page of an address that a request names: the address is rounded up to a
page boundary as a C int, and this int is shifted, which keeps its sign. -/
def brkRequest (M : Machine) (addr : BitVec 32) : ℤ := wrap32 (M.upToPage addr.toNat)/M.pageSize

/-- The page that a request asks for. The break does not fall below the image. -/
def requestedPage (M : Machine) (request : ℤ) : ℕ :=
  if request<M.origKernelBrkPage then M.origKernelBrkPage else request.toNat

/-- A request before virtual memory is enabled. -/
def countBrk (page : ℕ) (b : KernelBrk) : KernelBrk :=
  ⟨page,if b.highest<page then page else b.highest⟩

/-- Serve a request of the allocator for a page, which is a C int. -/
def setKernelBrkPage (M : Machine) (vmEnabled : Bool) (request : ℤ) (m : Memory) (b : KernelBrk) :
    Memory × KernelBrk × ℤ :=
  if M.kernelStackBasePage< requestedPage M request then (m,b.started M,ERROR)
  else if vmEnabled=false then (m,countBrk (requestedPage M request) (b.started M),SUCCESS)
  else
    match growPages M (kernelBrkPage M true b)
        (requestedPage M request-kernelBrkPage M true b) 0 m m.kernelRegion0Pt with
    | (m,pt,false) => ({m with kernelRegion0Pt := pt},b.started M,ERROR)
    | (m,pt,true) =>
      ({(shrinkPages M (kernelBrkPage M true b-requestedPage M request)
          (requestedPage M request) m pt).1 with
        kernelRegion0Pt := (shrinkPages M (kernelBrkPage M true b-requestedPage M request)
          (requestedPage M request) m pt).2},
        ⟨requestedPage M request,(b.started M).highest⟩,SUCCESS)

/-- Serve a request of the allocator, which names an address. -/
def setKernelBrk (M : Machine) (vmEnabled : Bool) (addr : BitVec 32) (m : Memory)
    (b : KernelBrk) : Memory × KernelBrk × ℤ :=
  setKernelBrkPage M vmEnabled (brkRequest M addr) m b

/-- The effect of a request, which is told by the page of its address. -/
def request (M : Machine) (vmEnabled : Bool) (x : Memory × KernelBrk) (r : ℤ) :
    Memory × KernelBrk :=
  ((setKernelBrkPage M vmEnabled r x.1 x.2).1,(setKernelBrkPage M vmEnabled r x.1 x.2).2.1)

/-- Mark the existing frames of a range. -/
def reserveFrames (lo hi : ℕ) (m : Memory) : Memory :=
  {m with frameAllocated := fun i =>
    decide (lo≤ i ∧ i<hi ∧ i< m.physicalFrameCount) || m.frameAllocated i}

/-- Reserve the image, the heap and the kernel stack, with the given requests
while the page table of Region 0 is allocated. -/
def memoryInit (M : Machine) (table : List ℤ) (x : Memory × KernelBrk) : Memory × KernelBrk :=
  let y := table.foldl (request M false)
    (reserveFrames M.kernelStackBasePage (M.kernelStackBasePage+M.kernelStackPages)
      (reserveFrames 0 (kernelBrkPage M false x.2) {x.1 with frameAllocated := fun _ => false}),
      x.2.started M)
  (reserveFrames 0 (kernelBrkPage M false y.2) y.1,y.2)

/-- Map n pages from page on to themselves. -/
def mapIdentity (M : Machine) (prot : Prot) : ℕ → ℕ → PageTable → PageTable
  | 0,_,pt => pt
  | n+1,page,pt => mapIdentity M prot n (page+1) ((memoryMapPage M pt page page prot).getD pt)

/-- Map text, data, heap and kernel stack to themselves. -/
def memoryBuildKernelRegion0 (M : Machine) (brk : ℕ) : PageTable :=
  mapIdentity M protReadWrite M.kernelStackPages M.kernelStackBasePage
    (mapIdentity M protReadWrite (brk-M.firstKernelDataPage) M.firstKernelDataPage
      (mapIdentity M protReadExec (M.firstKernelDataPage-M.firstKernelTextPage)
        M.firstKernelTextPage (fun _ => zeroPte)))

/-- Requests of the allocator before virtual memory is enabled, in order, each told
by the page of its address. -/
structure BootRequests where
  /-- The requests before MemoryInit, as page numbers. -/
  start : List ℤ
  /-- During the allocation of the table of Region 0. -/
  table : List ℤ
  /-- Between MemoryInit and MemoryBuildKernelRegion0. -/
  build : List ℤ
  /-- From there until ProcessCreateIdle takes a frame. -/
  idle : List ℤ
  /-- From there until virtual memory is enabled. -/
  enable : List ℤ

/-- The machine when virtual memory is enabled. -/
structure VmStart where
  /-- Frames and Region 0. -/
  memory : Memory
  /-- The variables of the kernel break. -/
  brk : KernelBrk
  /-- The frame that ProcessCreateIdle got. -/
  idleFrame : ℕ

/-- Build the table of Region 0 up to the break. -/
def buildRegion0 (M : Machine) (x : Memory × KernelBrk) : Memory × KernelBrk :=
  ({x.1 with kernelRegion0Pt := memoryBuildKernelRegion0 M (kernelBrkPage M false x.2)},x.2)

/-- KernelStart until ProcessCreateIdle takes a frame. -/
def bootToIdle (M : Machine) (frames : ℕ) (contents : ℕ → ℕ → UInt8) (r : BootRequests) :
    Memory × KernelBrk :=
  r.idle.foldl (request M false) (buildRegion0 M (r.build.foldl (request M false)
    (memoryInit M r.table (r.start.foldl (request M false)
      (⟨fun _ => false,frames,fun _ => zeroPte,contents⟩,⟨0,0⟩)))))

/-- KernelStart until virtual memory is enabled, nothing if it panics. -/
def bootToVm (M : Machine) (frames : ℕ) (contents : ℕ → ℕ → UInt8) (r : BootRequests) :
    Option VmStart :=
  if M.maxFrames<frames then none
  else
    match frameAlloc (bootToIdle M frames contents r).1 with
    | none => none
    | some (pfn,m) =>
      some ⟨(r.enable.foldl (request M false) (m,(bootToIdle M frames contents r).2)).1,
        (r.enable.foldl (request M false) (m,(bootToIdle M frames contents r).2)).2,pfn⟩

section Requests

variable {b : KernelBrk} {x : Memory × KernelBrk} {t : ℕ} {r : ℤ} {l : List ℤ}

/-- The highest break behind one more request. -/
def raise (M : Machine) (top : ℕ) (r : ℤ) : ℕ :=
  if requestedPage M r≤M.kernelStackBasePage then max top (requestedPage M r) else top

/-- The highest break that a list of requests asks for and may get. -/
def heapTop (M : Machine) (l : List ℤ) : ℕ := l.foldl (raise M) M.origKernelBrkPage

/-- The variables with this highest break. -/
structure Top (M : Machine) (b : KernelBrk) (t : ℕ) : Prop where
  /-- The break is below it. -/
  current_le : (b.started M).current≤(b.started M).highest
  /-- The last request is the one that is remembered. -/
  highest : (b.started M).highest=t

/-- Before virtual memory KernelBrkPage tells the highest break. -/
theorem Top.page (h : Top M b t) : kernelBrkPage M false b=t := by
  have hle := h.current_le
  have ht := h.highest
  unfold kernelBrkPage
  split
  · exact ht
  · rename_i hn
    have hn' : ¬(b.started M).current<(b.started M).highest := fun hlt => hn ⟨rfl,hlt⟩
    omega

/-- Starting variables stay as they are. -/
theorem started_idem (b : KernelBrk) : (b.started M).started M=b.started M := by
  have hpos := M.origKernelBrkPage_pos
  unfold KernelBrk.started
  by_cases hc : b.current=0
  · rw [if_pos hc,if_neg (by dsimp only; omega)]
  · rw [if_neg hc,if_neg hc]

/-- Variables that have been used. -/
theorem started_eq {page : ℕ} (h : M.origKernelBrkPage≤page) (n : ℕ) :
    KernelBrk.started M ⟨page,n⟩=⟨page,n⟩ := by
  have hpos := M.origKernelBrkPage_pos
  unfold KernelBrk.started
  exact if_neg (by dsimp only; omega)

/-- With virtual memory KernelBrkPage tells the break, not the highest one. -/
theorem kernelBrkPage_vm (b : KernelBrk) : kernelBrkPage M true b=(b.started M).current := by
  unfold kernelBrkPage
  exact if_neg (fun hf => by cases hf.1)

/-- The first use of the variables. -/
theorem Top.started (h : Top M b t) : Top M (b.started M) t := by
  refine ⟨?_,?_⟩
  · rw [started_idem]
    exact h.current_le
  · rw [started_idem]
    exact h.highest

/-- No request is for a page below the image. -/
theorem orig_le_requestedPage (M : Machine) (r : ℤ) : M.origKernelBrkPage≤ requestedPage M r := by
  unfold requestedPage
  split
  · exact Nat.le_refl _
  · omega

/-- A request before virtual memory leaves the memory alone. -/
theorem request_memory (x : Memory × KernelBrk) (r : ℤ) : (request M false x r).1=x.1 := by
  unfold request setKernelBrkPage
  dsimp only
  split
  · rfl
  · rw [if_pos rfl]

/-- A request before virtual memory may raise the highest break. -/
theorem Top.request {m : Memory} (h : Top M b t) (r : ℤ) :
    Top M (request M false (m,b) r).2 (raise M t r) := by
  have hle := h.current_le
  have ht := h.highest
  have hpage := orig_le_requestedPage M r
  unfold KernelBreak.request setKernelBrkPage raise
  dsimp only
  by_cases hr : requestedPage M r≤M.kernelStackBasePage
  · rw [if_neg (by omega),if_pos rfl,if_pos hr]
    dsimp only [countBrk]
    refine ⟨?_,?_⟩
    · rw [started_eq hpage]
      dsimp only
      split
      · exact Nat.le_refl _
      · omega
    · rw [started_eq hpage]
      dsimp only
      rw [ht]
      split
      · omega
      · omega
  · rw [if_pos (by omega),if_neg hr]
    exact h.started

/-- Requests before virtual memory leave the memory alone. -/
theorem requests_memory (l : List ℤ) (x : Memory × KernelBrk) :
    (l.foldl (request M false) x).1=x.1 := by
  induction l generalizing x with
  | nil => rfl
  | cons r l ih =>
    rw [List.foldl_cons,ih,request_memory]

/-- Requests before virtual memory may raise the highest break. -/
theorem Top.requests {m : Memory} (h : Top M b t) (l : List ℤ) :
    Top M (l.foldl (KernelBreak.request M false) (m,b)).2 (l.foldl (raise M) t) := by
  induction l generalizing m b t with
  | nil => exact h
  | cons r l ih => exact ih (h.request r)

/-- The highest break never falls. -/
theorem le_raises (M : Machine) (l : List ℤ) (t : ℕ) : t≤l.foldl (raise M) t := by
  induction l generalizing t with
  | nil => exact Nat.le_refl _
  | cons r l ih =>
    have h₁ : t≤ raise M t r := by
      unfold raise
      split
      · omega
      · omega
    exact Nat.le_trans h₁ (ih _)

/-- The highest break never reaches into the kernel stack. -/
theorem raises_le (h : t≤M.kernelStackBasePage) (l : List ℤ) :
    l.foldl (raise M) t≤M.kernelStackBasePage := by
  induction l generalizing t with
  | nil => exact h
  | cons r l ih =>
    refine ih ?_
    unfold raise
    split
    · omega
    · exact h

end Requests

section Boot

variable {frames n page brk i : ℕ} {contents : ℕ → ℕ → UInt8} {r : BootRequests} {v : VmStart}
  {prot : Prot} {pt : PageTable} {m : Memory}

/-- The pages of a range are mapped to themselves, as far as the table goes. -/
theorem mapIdentity_table (i : ℕ) : mapIdentity M prot n page pt i=
    if page≤ i ∧ i<page+n ∧ i<M.maxPtLen then ⟨true,prot,i⟩ else pt i := by
  induction n generalizing page pt with
  | zero =>
    unfold mapIdentity
    exact (if_neg (by omega)).symm
  | succ n ih =>
    unfold mapIdentity
    rw [ih]
    by_cases hin : page+1≤ i ∧ i<page+1+n ∧ i<M.maxPtLen
    · rw [if_pos hin,if_pos (by omega)]
    · rw [if_neg hin]
      by_cases hp : page<M.maxPtLen
      · have hmap : memoryMapPage M pt page page prot=
            some (Function.update pt page ⟨true,prot,page⟩) := by
          unfold memoryMapPage
          rw [if_neg (by omega)]
          rfl
        rw [hmap,Option.getD_some]
        by_cases hi : i=page
        · rw [hi,Function.update_self,if_pos (by omega)]
        · rw [Function.update_of_ne hi,if_neg (by omega)]
      · have hmap : memoryMapPage M pt page page prot=none := by
          unfold memoryMapPage
          exact if_pos (by omega)
        rw [hmap,Option.getD_none,if_neg (by omega)]

/-- Region 0 is built as the boot of the kernel model has it. -/
theorem memoryBuildKernelRegion0_eq (b : Boot M) :
    memoryBuildKernelRegion0 M b.brkAtBuild=bootRegion0 M b := by
  funext page
  unfold memoryBuildKernelRegion0 bootRegion0
  rw [mapIdentity_table,mapIdentity_table,mapIdentity_table]
  by_cases hl : M.maxPtLen≤page
  · rw [if_pos hl,if_neg (by omega),if_neg (by omega),if_neg (by omega)]
  · rw [if_neg hl]
    refine if_congr (by omega) rfl (if_congr ?_ rfl (if_congr ?_ rfl rfl))
    · omega
    · omega

/-- Pages below the break and pages of the kernel stack are mapped to
themselves, other pages are not mapped. -/
theorem region0_mapped (hM : KernelLayout M) (hb : brk≤M.kernelStackBasePage)
    (hi : (M.firstKernelTextPage≤ i ∧ i<brk) ∨
      (M.kernelStackBasePage≤ i ∧ i<M.kernelStackBasePage+M.kernelStackPages)) :
    (memoryBuildKernelRegion0 M brk i).valid=true ∧ (memoryBuildKernelRegion0 M brk i).pfn=i := by
  have hl := hM.stack_le
  unfold memoryBuildKernelRegion0
  rw [mapIdentity_table,mapIdentity_table,mapIdentity_table]
  split
  · exact ⟨rfl,rfl⟩
  · split
    · exact ⟨rfl,rfl⟩
    · rw [if_pos (by omega)]
      exact ⟨rfl,rfl⟩

/-- The frames that MemoryInit reserves below a break. -/
def ReservedBelow (M : Machine) (frames top i : ℕ) : Prop :=
  i<frames ∧ (i<top ∨ (M.kernelStackBasePage≤ i ∧ i<M.kernelStackBasePage+M.kernelStackPages))

/-- All requests before virtual memory is enabled. -/
def BootRequests.all (r : BootRequests) : List ℤ :=
  r.start++r.table++r.build++r.idle++r.enable

/-- What a boot has done when virtual memory is enabled. -/
structure VmReached (M : Machine) (frames : ℕ) (r : BootRequests) (v : VmStart) : Prop where
  /-- The frames of the machine. -/
  count : v.memory.physicalFrameCount=frames
  /-- Region 0 is mapped up to the break at that time. -/
  region0 : v.memory.kernelRegion0Pt=
    memoryBuildKernelRegion0 M (heapTop M (r.start++r.table++r.build))
  /-- The break is where the requests have left it. -/
  brk : Top M v.brk (heapTop M r.all)
  /-- The frame of idle was not reserved. -/
  fresh : ¬ReservedBelow M frames (heapTop M (r.start++r.table)) v.idleFrame
  /-- Marked are the reserved frames and the frame of idle. -/
  allocated : ∀ i,v.memory.frameAllocated i=true ↔
    ReservedBelow M frames (heapTop M (r.start++r.table)) i ∨ i=v.idleFrame

/-- MemoryInit reserves below the break behind its last request. -/
theorem memoryInit_eq {x : Memory × KernelBrk} {top : ℕ} (hx : Top M x.2 top) (l : List ℤ) :
    (memoryInit M l x).1.physicalFrameCount=x.1.physicalFrameCount ∧
      (memoryInit M l x).1.contents=x.1.contents ∧
      Top M (memoryInit M l x).2 (l.foldl (raise M) top) ∧
      ∀ i,(memoryInit M l x).1.frameAllocated i=true ↔
        ReservedBelow M x.1.physicalFrameCount (l.foldl (raise M) top) i := by
  have htop := hx.started.requests (m := reserveFrames M.kernelStackBasePage
    (M.kernelStackBasePage+M.kernelStackPages) (reserveFrames 0 (kernelBrkPage M false x.2)
      {x.1 with frameAllocated := fun _ => false})) l
  have hle := le_raises M l top
  unfold memoryInit
  dsimp only
  refine ⟨?_,?_,htop,fun i => ?_⟩
  · rw [requests_memory]
    rfl
  · rw [requests_memory]
    rfl
  rw [htop.page,requests_memory,hx.page]
  dsimp only [reserveFrames,ReservedBelow]
  simp only [Bool.or_false,Bool.or_eq_true,decide_eq_true_eq]
  omega

/-- The machine before ProcessCreateIdle takes a frame. -/
theorem bootToIdle_eq (M : Machine) (frames : ℕ) (contents : ℕ → ℕ → UInt8) (r : BootRequests) :
    (bootToIdle M frames contents r).1.physicalFrameCount=frames ∧
      (bootToIdle M frames contents r).1.contents=contents ∧
      (bootToIdle M frames contents r).1.kernelRegion0Pt=
        memoryBuildKernelRegion0 M (heapTop M (r.start++r.table++r.build)) ∧
      Top M (bootToIdle M frames contents r).2 (heapTop M (r.start++r.table++r.build++r.idle)) ∧
      ∀ i,(bootToIdle M frames contents r).1.frameAllocated i=true ↔
        ReservedBelow M frames (heapTop M (r.start++r.table)) i := by
  have hzero : Top M (⟨0,0⟩ : KernelBrk) M.origKernelBrkPage := ⟨Nat.le_refl _,rfl⟩
  have hstart := hzero.requests (m := ⟨fun _ => false,frames,fun _ => zeroPte,contents⟩) r.start
  obtain ⟨hcount,hcont,htable,hres⟩ := memoryInit_eq hstart r.table
  rw [requests_memory] at hcount hcont hres
  rw [←List.foldl_append] at htable hres
  unfold bootToIdle buildRegion0
  generalize memoryInit M r.table (r.start.foldl (request M false)
    (⟨fun _ => false,frames,fun _ => zeroPte,contents⟩,⟨0,0⟩))=x at hcount hcont htable hres ⊢
  have hbuild := htable.requests (m := x.1) r.build
  rw [←List.foldl_append] at hbuild
  rw [requests_memory]
  dsimp only
  rw [requests_memory,hbuild.page]
  refine ⟨hcount,hcont,rfl,?_,hres⟩
  unfold heapTop
  rw [List.foldl_append (l := r.start++r.table++r.build)]
  exact hbuild.requests r.idle

/-- The boot of the kernel model starts from the same memory. -/
theorem bootToIdle_memory (b : Boot M) (htable : b.brkAfterTable=heapTop M (r.start++r.table))
    (hbuild : b.brkAtBuild=heapTop M (r.start++r.table++r.build)) :
    (bootToIdle M b.frames b.contents r).1=(emptyKernel M b).memory := by
  obtain ⟨hcount,hcont,hregion,_,hres⟩ := bootToIdle_eq M b.frames b.contents r
  have hle := b.brk_grows
  have hfa : (bootToIdle M b.frames b.contents r).1.frameAllocated=reserved M b := by
    funext i
    rw [Bool.eq_iff_iff,hres i]
    unfold ReservedBelow reserved
    rw [decide_eq_true_eq]
    omega
  rw [←hbuild,memoryBuildKernelRegion0_eq] at hregion
  generalize (bootToIdle M b.frames b.contents r).1=m at hcount hcont hregion hfa ⊢
  obtain ⟨fa,n,pt,c⟩ := m
  dsimp only at hcount hcont hregion hfa
  rw [hcount,hcont,hregion,hfa]
  rfl

/-- A boot that enables virtual memory. -/
theorem bootToVm_reached (h : bootToVm M frames contents r=some v) : VmReached M frames r v := by
  obtain ⟨hcount,_,hregion,htop,hres⟩ := bootToIdle_eq M frames contents r
  unfold bootToVm at h
  split at h
  · cases h
  · split at h
    · cases h
    · rename_i pfn m hf
      injection h with h
      obtain ⟨hfree,_,hm⟩ := frameAlloc_eq hf
      subst h
      refine ⟨?_,?_,?_,?_,fun i => ?_⟩
      · dsimp only
        rw [requests_memory,hm]
        exact hcount
      · dsimp only
        rw [requests_memory,hm]
        exact hregion
      · unfold heapTop BootRequests.all
        rw [List.foldl_append (l := r.start++r.table++r.build++r.idle)]
        exact htop.requests r.enable
      · intro hr
        rw [(hres pfn).2 hr] at hfree
        cases hfree
      · dsimp only
        rw [requests_memory,hm]
        dsimp only
        by_cases hi : i=pfn
        · rw [hi,Function.update_self]
          exact ⟨fun _ => .inr rfl,fun _ => rfl⟩
        · rw [Function.update_of_ne hi,hres i]
          exact ⟨.inl,fun ho => ho.resolve_right hi⟩

/-- Every page of the kernel and of its stack that memory backs is mapped to
the frame of the same number, which is marked and was not handed out. -/
def CompleteMapping (M : Machine) (v : VmStart) : Prop :=
  ∀ page,(M.firstKernelTextPage≤page ∧ page<kernelBrkPage M false v.brk) ∨
      (M.kernelStackBasePage≤page ∧ page<M.kernelStackBasePage+M.kernelStackPages) →
    page<v.memory.physicalFrameCount →
    (v.memory.kernelRegion0Pt page).valid=true ∧ (v.memory.kernelRegion0Pt page).pfn=page ∧
      v.memory.frameAllocated page=true ∧ page≠v.idleFrame

/-- The mapping is complete exactly when no request behind MemoryInit raises
the break over a page that memory backs. -/
theorem boot_complete (hM : KernelLayout M) (h : bootToVm M frames contents r=some v) :
    CompleteMapping M v ↔ heapTop M r.all≤heapTop M (r.start++r.table) ∨
      frames≤heapTop M (r.start++r.table) := by
  have hv := bootToVm_reached h
  have htext := hM.text_le
  have hdata := hM.data_le
  have horig : M.origKernelBrkPage≤heapTop M (r.start++r.table) := le_raises M _ _
  have hbuild : heapTop M (r.start++r.table)≤heapTop M (r.start++r.table++r.build) := by
    unfold heapTop
    rw [List.foldl_append (l := r.start++r.table)]
    exact le_raises M _ _
  have hstack : heapTop M r.all≤M.kernelStackBasePage := raises_le hM.brk_le _
  have hstack' : heapTop M (r.start++r.table++r.build)≤M.kernelStackBasePage :=
    raises_le hM.brk_le _
  constructor
  · intro hc
    by_contra hn
    rw [not_or,not_le,not_le] at hn
    obtain ⟨_,_,ha,hne⟩ := hc (heapTop M (r.start++r.table))
      (.inl ⟨by omega,by rw [hv.brk.page]; exact hn.1⟩) (by rw [hv.count]; exact hn.2)
    rcases (hv.allocated _).1 ha with ha|ha
    · unfold ReservedBelow at ha
      omega
    · exact hne ha
  · intro hc page hp hf
    rw [hv.brk.page] at hp
    rw [hv.count] at hf
    have hr : ReservedBelow M frames (heapTop M (r.start++r.table)) page := by
      unfold ReservedBelow
      omega
    have hmap := region0_mapped (i := page) hM hstack' (by omega)
    rw [hv.region0]
    exact ⟨hmap.1,hmap.2,(hv.allocated page).2 (.inl hr),fun he => hv.fresh (he ▸ hr)⟩

/-- The layout of the small machine. -/
theorem sampleMachine_layout : KernelLayout sampleMachine :=
  ⟨by decide,by decide,by decide,by decide⟩

/-- The break rises by a page while the table of Region 0 is allocated. -/
def sampleRequests (idle : List ℤ) : BootRequests := ⟨[],[41],[],idle,[]⟩

/-- Requests within the reserved pages are harmless. -/
theorem boot_complete_slack :
    ∃ v,bootToVm sampleMachine 256 (fun _ _ => 0) (sampleRequests [41])=some v ∧
      CompleteMapping sampleMachine v := by
  cases hv : bootToVm sampleMachine 256 (fun _ _ => 0) (sampleRequests [41]) with
  | none =>
    have hn : (bootToVm sampleMachine 256 (fun _ _ => 0) (sampleRequests [41])).isSome=true := by
      decide +kernel
    rw [hv] at hn
    cases hn
  | some v => exact ⟨v,rfl,(boot_complete sampleMachine_layout hv).2 (.inl (by decide))⟩

/-- One more heap page while idle is created is not mapped, and its frame
becomes the stack of idle. -/
theorem boot_incomplete :
    ∃ v,bootToVm sampleMachine 256 (fun _ _ => 0) (sampleRequests [42])=some v ∧
      kernelBrkPage sampleMachine false v.brk=42 ∧ (v.memory.kernelRegion0Pt 41).valid=false ∧
      v.idleFrame=41 ∧ ¬CompleteMapping sampleMachine v := by
  cases hv : bootToVm sampleMachine 256 (fun _ _ => 0) (sampleRequests [42]) with
  | none =>
    have hn : (bootToVm sampleMachine 256 (fun _ _ => 0) (sampleRequests [42])).isSome=true := by
      decide +kernel
    rw [hv] at hn
    cases hn
  | some v =>
    have hq : (bootToVm sampleMachine 256 (fun _ _ => 0) (sampleRequests [42])).any (fun v =>
        decide (kernelBrkPage sampleMachine false v.brk=42 ∧
          (v.memory.kernelRegion0Pt 41).valid=false ∧ v.idleFrame=41 ∧
          v.memory.physicalFrameCount=256))=true := by decide +kernel
    rw [hv,Option.any_some,decide_eq_true_eq] at hq
    obtain ⟨hk,hp,hi,hf⟩ := hq
    refine ⟨v,rfl,hk,hp,hi,fun hc => ?_⟩
    obtain ⟨hvalid,_⟩ := hc 41 (.inl ⟨by decide,by rw [hk]; decide⟩) (by rw [hf]; decide)
    rw [hp] at hvalid
    cases hvalid

end Boot

end Yalnix.KernelBreak
