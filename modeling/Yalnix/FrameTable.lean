import Yalnix.Framework

/-!
# Physical frames and page tables

The frame table, the Region 0 page table and the contents of physical
frames form one memory record. Region 1 tables belong to processes and are
passed by value. Frames are handed out lowest number first. Address space
identifiers and the translation buffer are not part of this record.
-/

namespace Yalnix.FrameTable

open Framework

/-- Frame table, Region 0 page table and frame contents. -/
structure Memory where
  /-- The allocation flag of each frame. -/
  frameAllocated : ℕ → Bool
  /-- Frames that exist on this machine. -/
  physicalFrameCount : ℕ
  /-- The kernel's page table. -/
  kernelRegion0Pt : PageTable
  /-- Bytes of each frame. -/
  contents : ℕ → ℕ → UInt8

/-- Take the lowest free frame. -/
def frameAlloc (m : Memory) : Option (ℕ × Memory) :=
  match (List.range m.physicalFrameCount).find? (fun pfn => !m.frameAllocated pfn) with
  | some pfn => some (pfn,{m with frameAllocated := Function.update m.frameAllocated pfn true})
  | none => none

/-- Give a frame back; numbers outside the machine are ignored. -/
def frameFree (m : Memory) (pfn : ℕ) : Memory :=
  if m.physicalFrameCount≤pfn then m
  else {m with frameAllocated := Function.update m.frameAllocated pfn false}

/-- Enter a mapping, refused for an index outside the table. -/
def memoryMapPage (M : Machine) (pt : PageTable) (index : ℤ) (pfn : ℕ) (prot : Prot) :
    Option PageTable :=
  if index<0 ∨ (M.maxPtLen : ℤ)≤ index then none
  else some (Function.update pt index.toNat ⟨true,prot,pfn⟩)

/-- Clear a mapping, ignored for an index outside the table. -/
def memoryUnmapPage (M : Machine) (pt : PageTable) (index : ℤ) : PageTable :=
  if index<0 ∨ (M.maxPtLen : ℤ)≤ index then pt
  else Function.update pt index.toNat zeroPte

/-- Free and clear the listed entries that are valid. -/
def freePageTableEntries (M : Machine) : List ℕ → Memory → PageTable → Memory × PageTable
  | [],m,pt => (m,pt)
  | i::rest,m,pt =>
    if (pt i).valid=true then
      freePageTableEntries M rest (frameFree m (pt i).pfn) (memoryUnmapPage M pt i)
    else freePageTableEntries M rest m pt

/-- Free every frame of a page table and clear its valid entries. -/
def memoryFreePageTableFrames (M : Machine) (m : Memory) (pt : PageTable) : Memory × PageTable :=
  freePageTableEntries M (List.range M.maxPtLen) m pt

/-- Undo the first allocations of a kernel stack, last one first. -/
def undoKernelStack (pfns : ℕ → ℕ) : ℕ → Memory → Memory
  | 0,m => m
  | i+1,m => undoKernelStack pfns i (frameFree m (pfns i))

/-- Allocate the remaining frames of a kernel stack from slot i on. -/
def allocKernelStackFrom : ℕ → ℕ → (ℕ → ℕ) → Memory → Memory × Option (ℕ → ℕ)
  | 0,_,pfns,m => (m,some pfns)
  | n+1,i,pfns,m =>
    match frameAlloc m with
    | none => (undoKernelStack pfns i m,none)
    | some (pfn,m') => allocKernelStackFrom n (i+1) (Function.update pfns i pfn) m'

/-- Allocate a kernel stack; a failure frees what was taken. -/
def processAllocKernelStack (M : Machine) (m : Memory) : Memory × Option (ℕ → ℕ) :=
  allocKernelStackFrom M.kernelStackPages 0 (fun _ => 0) m

/-- Free the listed slots of a kernel stack, taking frame zero as absent. -/
def freeKernelStackSlots : List ℕ → (ℕ → ℕ) → Memory → Memory × (ℕ → ℕ)
  | [],pfns,m => (m,pfns)
  | i::rest,pfns,m =>
    if pfns i≠0 then
      freeKernelStackSlots rest (Function.update pfns i 0) (frameFree m (pfns i))
    else freeKernelStackSlots rest pfns m

/-- Free a kernel stack of a process other than idle. -/
def processFreeKernelStack (M : Machine) (m : Memory) (pfns : ℕ → ℕ) : Memory × (ℕ → ℕ) :=
  freeKernelStackSlots (List.range M.kernelStackPages) pfns m

/-- Map a frame at the scratch page and fill it from another frame. -/
def copyThroughScratch (M : Machine) (m : Memory) (dst src : ℕ) : Memory :=
  {m with
    kernelRegion0Pt := (memoryMapPage M m.kernelRegion0Pt M.scratchPage dst
      protReadWrite).getD m.kernelRegion0Pt
    contents := Function.update m.contents dst (m.contents src)}

/-- Copy the listed pages into frames of their own. A failure frees every
frame of the destination and leaves the scratch page as it is. -/
def copyRegion1Pages (M : Machine) (src : PageTable) :
    List ℕ → Memory → PageTable → Memory × Option PageTable
  | [],m,dst =>
    ({m with kernelRegion0Pt := memoryUnmapPage M m.kernelRegion0Pt M.scratchPage},some dst)
  | i::rest,m,dst =>
    if (src i).valid=true then
      match frameAlloc m with
      | none => ((memoryFreePageTableFrames M m dst).1,none)
      | some (pfn,m') =>
        match memoryMapPage M dst i pfn (src i).prot with
        | none => ((memoryFreePageTableFrames M (frameFree m' pfn) dst).1,none)
        | some dst' => copyRegion1Pages M src rest (copyThroughScratch M m' pfn (src i).pfn) dst'
    else copyRegion1Pages M src rest m dst

/-- Duplicate a Region 1 table into a fresh one. -/
def processCopyRegion1 (M : Machine) (m : Memory) (src : PageTable) : Memory × Option PageTable :=
  copyRegion1Pages M src (List.range M.maxPtLen) m (fun _ => zeroPte)

/-- Copy the running kernel stack into the given frames. -/
def copyKernelStack (M : Machine) (pfns : ℕ → ℕ) : List ℕ → Memory → Memory
  | [],m => {m with kernelRegion0Pt := memoryUnmapPage M m.kernelRegion0Pt M.scratchPage}
  | i::rest,m =>
    copyKernelStack M pfns rest (copyThroughScratch M m (pfns i)
      (m.kernelRegion0Pt (M.kernelStackBasePage+i)).pfn)

/-- Enter the listed kernel stack frames in Region 0. -/
def installKernelStack (M : Machine) (pfns : ℕ → ℕ) : List ℕ → PageTable → PageTable
  | [],pt => pt
  | i::rest,pt =>
    installKernelStack M pfns rest
      (Function.update pt (M.kernelStackBasePage+i) ⟨true,protReadWrite,pfns i⟩)

/-- Map count fresh frames from page start on, stopping at the first failure. -/
def mapRangeFrom (M : Machine) (prot : Prot) :
    ℕ → ℤ → Memory → PageTable → Memory × PageTable × Bool
  | 0,_,m,pt => (m,pt,true)
  | n+1,page,m,pt =>
    match frameAlloc m with
    | none => (m,pt,false)
    | some (pfn,m') =>
      match memoryMapPage M pt page pfn prot with
      | none => (frameFree m' pfn,pt,false)
      | some pt' => mapRangeFrom M prot n (page+1) m' pt'

/-- Map a range of pages; a negative count maps nothing. -/
def mapRange (M : Machine) (m : Memory) (pt : PageTable) (start count : ℤ) (prot : Prot) :
    Memory × PageTable × Bool :=
  mapRangeFrom M prot count.toNat start m pt

/-- Free and clear n pages from page on, last one first. -/
def undoPages (M : Machine) (page : ℤ) : ℕ → Memory → PageTable → Memory × PageTable
  | 0,m,pt => (m,pt)
  | n+1,m,pt =>
    undoPages M page n (frameFree m (pt (page+n).toNat).pfn) (memoryUnmapPage M pt (page+n))

/-- The growing loop of a break: n more pages above the done ones, with the
whole growth undone at the first failure. -/
def growPages (M : Machine) (oldPage : ℤ) :
    ℕ → ℕ → Memory → PageTable → Memory × PageTable × Bool
  | 0,_,m,pt => (m,pt,true)
  | n+1,k,m,pt =>
    match frameAlloc m with
    | none => ((undoPages M oldPage k m pt).1,(undoPages M oldPage k m pt).2,false)
    | some (pfn,m') =>
      match memoryMapPage M pt (oldPage+k) pfn protReadWrite with
      | none =>
        ((undoPages M oldPage k (frameFree m' pfn) pt).1,
          (undoPages M oldPage k (frameFree m' pfn) pt).2,false)
      | some pt' => growPages M oldPage n (k+1) m' pt'

/-- The shrinking loop of a break: free n pages from page on. -/
def shrinkPages (M : Machine) : ℕ → ℤ → Memory → PageTable → Memory × PageTable
  | 0,_,m,pt => (m,pt)
  | n+1,page,m,pt =>
    if (pt page.toNat).valid=true then
      shrinkPages M n (page+1) (frameFree m (pt page.toNat).pfn) (memoryUnmapPage M pt page)
    else shrinkPages M n (page+1) m pt

/-- The growing loop of a stack: n pages from page on downwards. A failure
keeps the pages already mapped. -/
def growStackPages (M : Machine) : ℕ → ℤ → Memory → PageTable → Memory × PageTable × Bool
  | 0,_,m,pt => (m,pt,true)
  | n+1,page,m,pt =>
    match frameAlloc m with
    | none => (m,pt,false)
    | some (pfn,m') =>
      match memoryMapPage M pt page pfn protReadWrite with
      | none => (frameFree m' pfn,pt,false)
      | some pt' => growStackPages M n (page-1) m' pt'

end Yalnix.FrameTable
