import Yalnix.ScratchPage
import Yalnix.TranslationBuffer

/-!
# Accesses to page tables and translation registers

What each kernel function stores into page tables, in which order it writes
the translation registers, and where it uses memory through pages it has just
mapped. Stores and flushes follow the sources one by one. Region 1 tables are
named by the process they belong to; a flush names a page, not a table.
-/

namespace Yalnix.Translation

open Framework FrameTable KernelState Scheduling Ipc Terminals ProcessLifetime ProgramLoading
open Syscalls KernelBreak TranslationBuffer

/-- A virtual page of one of the two regions. -/
inductive VPage
  /-- Of the kernel's region. -/
  | region0 (i : ℕ)
  /-- Of the region of processes. -/
  | region1 (i : ℕ)
  deriving DecidableEq

/-- The page tables that the hardware may read. -/
inductive Table
  /-- kernel_region0_pt, the table of Region 0. -/
  | kernel
  /-- The table of a process. -/
  | user (p : PcbPtr)
  deriving DecidableEq

/-- The page that an entry of a table translates when the table is in use. -/
def Table.page (i : ℕ) : Table → VPage
  | .kernel => .region0 i
  | .user _ => .region1 i

/-- Page tables and the variables that say which are in use. -/
structure Tables where
  /-- The table of Region 0. -/
  region0 : PageTable
  /-- The table of each process. -/
  region1 : PcbPtr → PageTable
  /-- The kernel stack of each process. -/
  stackPfns : PcbPtr → ℕ → ℕ
  /-- The process that runs. -/
  current : PcbPtr
  /-- The process whose table REG_PTBR1 points to. -/
  ptbr1 : PcbPtr
  /-- The variables of the kernel break. -/
  brk : KernelBrk

/-- The entry that translates a page. -/
def Tables.entry (T : Tables) : VPage → Pte
  | .region0 i => T.region0 i
  | .region1 i => T.region1 T.ptbr1 i

/-- A table by its name. -/
def Tables.get (T : Tables) : Table → PageTable
  | .kernel => T.region0
  | .user p => T.region1 p

/-- The tables with one of them replaced. -/
def Tables.set (T : Tables) (pt : PageTable) : Table → Tables
  | .kernel => {T with region0 := pt}
  | .user p => {T with region1 := Function.update T.region1 p pt}

/-- Page tables and the translation buffer. -/
structure Mmu extends Tables where
  /-- Entries that the buffer may hold. -/
  cached : VPage → Pte → Prop

/-- The buffer with the entries in memory. -/
def Mmu.buffer (h : Mmu) : Buffer VPage Pte := ⟨h.toTables.entry,h.cached⟩

/-- The arguments of a write to REG_TLB_FLUSH. -/
inductive Flush
  /-- The entry of one page is flushed. -/
  | page (v : VPage)
  /-- TLB_FLUSH_1: the entries of Region 1 are flushed. -/
  | region1
  /-- TLB_FLUSH_KSTACK: the entries of the kernel stack are flushed. -/
  | kernelStack
  /-- TLB_FLUSH_ALL: all entries are flushed. -/
  | all

/-- The pages a flush drops. -/
def Flush.pages (M : Machine) : Flush → Set VPage
  | .page v => {v}
  | .region1 => {v | ∃ i,v=.region1 i}
  | .kernelStack => {v | ∃ i<M.kernelStackPages,v=.region0 (M.kernelStackBasePage+i)}
  | .all => Set.univ

/-- The accesses of the kernel to tables, registers and memory. -/
inductive Access
  /-- An entry of a page table is stored. -/
  | store (t : Table) (i : ℕ) (e : Pte)
  /-- Set up the empty table and the kernel stack of a process. -/
  | create (p : PcbPtr) (pfns : ℕ → ℕ)
  /-- Set the kernel stack of a process. -/
  | setStack (p : PcbPtr) (pfns : ℕ → ℕ)
  /-- current_process is set. -/
  | setCurrent (p : PcbPtr)
  /-- REG_PTBR1 is set to the table of a process. -/
  | setPtbr1 (p : PcbPtr)
  /-- Set the variables of the kernel break. -/
  | setBrk (b : KernelBrk)
  /-- REG_TLB_FLUSH is written. -/
  | flush (f : Flush)
  /-- Resume user mode, or use memory through pages that have just been mapped. -/
  | use

/-- The tables behind an access. -/
def Access.tables (T : Tables) : Access → Tables
  | .store t i e => T.set (Function.update (T.get t) i e) t
  | .create p pfns => {T with
      region1 := Function.update T.region1 p (fun _ => zeroPte)
      stackPfns := Function.update T.stackPfns p pfns}
  | .setStack p pfns => {T with stackPfns := Function.update T.stackPfns p pfns}
  | .setCurrent p => {T with current := p}
  | .setPtbr1 p => {T with ptbr1 := p}
  | .setBrk b => {T with brk := b}
  | .flush _ => T
  | .use => T

/-- The pages an access drops from the buffer. -/
def Access.dropped (M : Machine) : Access → Set VPage
  | .flush f => f.pages M
  | _ => ∅

/-- The effect of an access: dropped entries leave the buffer, and every valid
entry that is now in use may be loaded. -/
def Mmu.apply (M : Machine) (h : Mmu) (a : Access) : Mmu where
  toTables := a.tables h.toTables
  cached := fun v e => (v∉a.dropped M ∧ h.cached v e) ∨
    (e=(a.tables h.toTables).entry v ∧ e.valid=true)

/-- The effect of accesses one after the other. -/
def Mmu.run (M : Machine) (h : Mmu) (l : List Access) : Mmu := l.foldl (Mmu.apply M) h

/-- The accesses of MemoryMapPage. -/
def mapPageAccesses (M : Machine) (t : Table) (index : ℤ) (pfn : ℕ) (prot : Prot) : List Access :=
  if index<0 ∨ (M.maxPtLen : ℤ)≤ index then []
  else [.store t index.toNat ⟨true,prot,pfn⟩,.flush (.page (t.page index.toNat))]

/-- The accesses of MemoryUnmapPage. -/
def unmapPageAccesses (M : Machine) (t : Table) (index : ℤ) : List Access :=
  if index<0 ∨ (M.maxPtLen : ℤ)≤ index then []
  else [.store t index.toNat zeroPte,.flush (.page (t.page index.toNat))]

/-- Unmap the listed pages that are mapped. -/
def freeEntriesAccesses (M : Machine) (t : Table) : List ℕ → PageTable → List Access
  | [],_ => []
  | i::rest,pt =>
    if (pt i).valid=true then
      unmapPageAccesses M t i++freeEntriesAccesses M t rest (memoryUnmapPage M pt i)
    else freeEntriesAccesses M t rest pt

/-- The accesses of MemoryFreePageTableFrames. -/
def freeTableAccesses (M : Machine) (t : Table) (pt : PageTable) : List Access :=
  freeEntriesAccesses M t (List.range M.maxPtLen) pt++[.flush .region1]

/-- MapRange, as far as there are frames. -/
def mapRangeAccesses (M : Machine) (t : Table) (prot : Prot) : ℕ → ℤ → Memory → List Access
  | 0,_,_ => []
  | n+1,page,m =>
    match frameAlloc m with
    | none => []
    | some (pfn,m') =>
      if page<0 ∨ (M.maxPtLen : ℤ)≤page then []
      else mapPageAccesses M t page pfn prot++mapRangeAccesses M t prot n (page+1) m'

/-- The loop of ProcessGrowStack, as far as there are frames. -/
def growStackPagesAccesses (M : Machine) (t : Table) : ℕ → ℤ → Memory → List Access
  | 0,_,_ => []
  | n+1,page,m =>
    match frameAlloc m with
    | none => []
    | some (pfn,m') =>
      if page<0 ∨ (M.maxPtLen : ℤ)≤page then []
      else mapPageAccesses M t page pfn protReadWrite++
        growStackPagesAccesses M t n (page-1) m'

/-- Unmap n pages from page on, last one first. -/
def undoPagesAccesses (M : Machine) (t : Table) (page : ℤ) : ℕ → List Access
  | 0 => []
  | n+1 => unmapPageAccesses M t (page+n)++undoPagesAccesses M t page n

/-- The growing loop of a break. -/
def growPagesAccesses (M : Machine) (t : Table) (oldPage : ℤ) : ℕ → ℕ → Memory → List Access
  | 0,_,_ => []
  | n+1,k,m =>
    match frameAlloc m with
    | none => undoPagesAccesses M t oldPage k
    | some (pfn,m') =>
      if oldPage+k<0 ∨ (M.maxPtLen : ℤ)≤oldPage+k then undoPagesAccesses M t oldPage k
      else mapPageAccesses M t (oldPage+k) pfn protReadWrite++
        growPagesAccesses M t oldPage n (k+1) m'

/-- The shrinking loop of a break. -/
def shrinkPagesAccesses (M : Machine) (t : Table) : ℕ → ℤ → PageTable → List Access
  | 0,_,_ => []
  | n+1,page,pt =>
    if (pt page.toNat).valid=true then
      unmapPageAccesses M t page++shrinkPagesAccesses M t n (page+1) (memoryUnmapPage M pt page)
    else shrinkPagesAccesses M t n (page+1) pt

/-- SysBrk on the table of a process. -/
def moveBrkAccesses (M : Machine) (p : PcbPtr) (m : Memory) (v : UserSpace) (addr : ℕ) :
    List Access :=
  if BrkRefused M v addr then []
  else
    let oldPage := M.region1Page (M.upToPage v.userBrk)
    let newPage := M.region1Page (M.upToPage addr)
    growPagesAccesses M (.user p) oldPage (newPage-oldPage).toNat 0 m++
      (match growPages M oldPage (newPage-oldPage).toNat 0 m v.region1Pt with
        | (_,_,false) => []
        | (_,pt,true) => shrinkPagesAccesses M (.user p) (oldPage-newPage).toNat newPage pt)++
      [.flush .region1]

/-- ProcessGrowStack on the table of a process. -/
def growStackAccesses (M : Machine) (p : PcbPtr) (m : Memory) (v : UserSpace) (addr : ℕ) :
    List Access :=
  if addr<M.vmem1Base ∨ M.vmem1Limit≤addr then []
  else if v.userStackLowPage≤M.region1Page addr ∨
      M.region1Page addr≤M.region1Page (M.upToPage v.userBrk) then []
  else
    growStackPagesAccesses M (.user p) (v.userStackLowPage-M.region1Page addr).toNat
        (v.userStackLowPage-1) m++
      (if (growStack M m v addr).2.2=true then [.flush .region1] else [])

/-- Give n pages from page on the protection of text, without a flush. -/
def protectTextAccesses (p : PcbPtr) : ℕ → ℤ → PageTable → List Access
  | 0,_,_ => []
  | n+1,page,pt =>
    .store (.user p) page.toNat {pt page.toNat with prot := protReadExec}::
      protectTextAccesses p n (page+1)
        (Function.update pt page.toNat {pt page.toNat with prot := protReadExec})

/-- The three calls of MapRange in LoadProgram. -/
def mapImageAccesses (M : Machine) (p : PcbPtr) (li : LoadInfo) (args : List (List UInt8))
    (m : Memory) (pt : PageTable) : List Access :=
  mapRangeAccesses M (.user p) protReadWrite li.tNpg.toNat (textPg M li) m++
    match mapRange M m pt (textPg M li) li.tNpg protReadWrite with
    | (_,_,false) => []
    | (m,pt,true) =>
      mapRangeAccesses M (.user p) protReadWrite (dataNpg li).toNat (dataPg M li) m++
        match mapRange M m pt (dataPg M li) (dataNpg li) protReadWrite with
        | (_,_,false) => []
        | (m,_,true) =>
          mapRangeAccesses M (.user p) protReadWrite (stackNpg M args).toNat (stackBasePg M args) m

/-- LoadProgram behind the mapping: flush, read text and data through Region 1,
protect the text, flush, and fill the rest through Region 1. -/
def fillImageAccesses (M : Machine) (env : Env) (p : PcbPtr) (li : LoadInfo) (pt : PageTable)
    (contents : ℕ → ℕ → UInt8) : List Access :=
  [.flush .region1,.use]++
    match readSegment M env li.tFaddr li.tVaddr li.tNpg pt contents with
    | none => []
    | some text =>
      [.use]++
        match readSegment M env li.idFaddr li.idVaddr li.idNpg pt text with
        | none => []
        | some _ => protectTextAccesses p li.tNpg.toNat (textPg M li) pt++[.flush .region1,.use]

/-- The accesses of LoadProgram behind its checks. -/
def loadAccesses (M : Machine) (env : Env) (p : PcbPtr) (li : LoadInfo) (args : List (List UInt8))
    (m : Memory) (pt : PageTable) : List Access :=
  freeTableAccesses M (.user p) pt++
    mapImageAccesses M p li args (memoryFreePageTableFrames M m pt).1
      (memoryFreePageTableFrames M m pt).2++
    match mapImage M li args (memoryFreePageTableFrames M m pt).1
        (memoryFreePageTableFrames M m pt).2 with
    | (_,_,false) => []
    | (m,pt,true) => fillImageAccesses M env p li pt m.contents

/-- The accesses of LoadProgram, up to where it ends. -/
def loadProgramAccesses (M : Machine) (env : Env) (p : PcbPtr) (args : List (List UInt8))
    (argbuf : ℕ) (m : Memory) (pt : PageTable) : List Access :=
  if env.fileOpen=false then []
  else match env.loadInfo with
    | none => []
    | some li =>
      if li.entry<M.vmem1Base then []
      else if LayoutRefused M li args then []
      else if env.malloc argbuf=false then []
      else loadAccesses M env p li args m pt

/-- The loop of ProcessCopyRegion1: map a frame for the child and at the scratch
page, and copy through both regions. -/
def copyPagesAccesses (M : Machine) (child : PcbPtr) (src : PageTable) :
    List ℕ → Memory → PageTable → List Access
  | [],_,_ => unmapPageAccesses M .kernel M.scratchPage++[.flush .all]
  | i::rest,m,dst =>
    if (src i).valid=true then
      match frameAlloc m with
      | none => freeTableAccesses M (.user child) dst
      | some (pfn,m') =>
        match memoryMapPage M dst i pfn (src i).prot with
        | none => freeTableAccesses M (.user child) dst
        | some dst' =>
          mapPageAccesses M (.user child) i pfn (src i).prot++
            mapPageAccesses M .kernel M.scratchPage pfn protReadWrite++[.use]++
            copyPagesAccesses M child src rest (copyThroughScratch M m' pfn (src i).pfn) dst'
    else copyPagesAccesses M child src rest m dst

/-- KCCopy: map each frame of the child's kernel stack at the scratch page and
copy the running stack to it. -/
def copyStackAccesses (M : Machine) (pfns : ℕ → ℕ) : List ℕ → List Access
  | [] => unmapPageAccesses M .kernel M.scratchPage++[.flush .kernelStack]
  | i::rest =>
    mapPageAccesses M .kernel M.scratchPage (pfns i) protReadWrite++[.use]++
      copyStackAccesses M pfns rest

/-- The stores of KCSwitch, one for each page of the kernel stack. -/
def installAccesses (M : Machine) (pfns : ℕ → ℕ) : List ℕ → List Access
  | [] => []
  | i::rest =>
    .store .kernel (M.kernelStackBasePage+i) ⟨true,protReadWrite,pfns i⟩::
      installAccesses M pfns rest

/-- KCSwitch: install the kernel stack and the tables of the next process and
flush everything. -/
def switchAccesses (M : Machine) (next : PcbPtr) (pfns : ℕ → ℕ) : List Access :=
  installAccesses M pfns (List.range M.kernelStackPages)++
    [.setCurrent next,.setPtbr1 next,.flush .all]

/-- The accesses of SetKernelBrk with virtual memory. -/
def setKernelBrkAccesses (M : Machine) (r : ℤ) (m : Memory) (b : KernelBrk) : List Access :=
  if M.kernelStackBasePage< requestedPage M r then [.setBrk (b.started M)]
  else
    growPagesAccesses M .kernel (kernelBrkPage M true b)
        (requestedPage M r-kernelBrkPage M true b) 0 m++
      (match growPages M (kernelBrkPage M true b) (requestedPage M r-kernelBrkPage M true b) 0 m
          m.kernelRegion0Pt with
        | (_,_,false) => []
        | (_,pt,true) =>
          shrinkPagesAccesses M .kernel (kernelBrkPage M true b-requestedPage M r)
            (requestedPage M r) pt)++
      [.setBrk (setKernelBrkPage M true r m b).2.1]

end Yalnix.Translation
