import Yalnix.ProcessLifetime

/-!
# Loading a program

Exec copies the name and the arguments into the kernel, checks the layout of
the executable, tears the old image down and maps the new one. Failures
before the tear-down leave the process as it was; later ones kill it. The
kernel stops when it zeroes data or stores arguments through pages that are
not mapped for stores. Page numbers, page counts and segment sizes are C ints.
Kernel blocks are numbered: zero is the name, one the argument array, the
following ones the arguments and the last one the argument buffer of the
loader.
-/

namespace Yalnix.ProgramLoading

open Framework FrameTable KernelState Scheduling Ipc Terminals ProcessLifetime

/-- Result of copying the name and the arguments into the kernel. -/
inductive ExecCopy
  /-- The copy failed after these allocations and frees. -/
  | failed (allocated freed : List ℕ)
  /-- The copied arguments and the blocks that hold the copies. -/
  | copied (args : List (List UInt8)) (allocated : List ℕ)

/-- Copy the name and the arguments. -/
def copyExecArgs (env : Env) (filename argvec : ℕ) : ExecCopy :=
  if filename=0 then .failed [] []
  else if env.malloc 0=false then .failed [] []
  else if argvec=0 then
    if env.malloc 1=false then .failed [0] [0]
    else if env.malloc 2=false then .failed [0,1] [1,0]
    else .copied [env.cString filename] [0,1,2]
  else if 64≤(env.ptrArray argvec).length then .failed [0] [0]
  else if env.malloc 1=false then .failed [0] [0]
  else match (List.range (env.ptrArray argvec).length).find? (fun i => !env.malloc (2+i)) with
    | some i => .failed ([0,1]++(List.range i).map (2+·)) ((List.range i).map (2+·)++[1,0])
    | none => .copied ((env.ptrArray argvec).map env.cString)
        ([0,1]++(List.range (env.ptrArray argvec).length).map (2+·))

/-- What CopyExecArgs loads through user addresses: the name, the argument
pointers up to a null pointer or the 65th one, and the arguments up to the
first one that cannot be copied, each string with its terminator. -/
def execLoads (env : Env) (filename argvec : ℕ) : List (ℕ × ℕ) :=
  if filename=0 then []
  else if env.malloc 0=false ∨ argvec=0 then [(filename,(env.cString filename).length+1)]
  else if 64≤(env.ptrArray argvec).length ∨ env.malloc 1=false then
    [(filename,(env.cString filename).length+1),
      (argvec,4*(min (env.ptrArray argvec).length 64+1))]
  else
    [(filename,(env.cString filename).length+1),(argvec,4*((env.ptrArray argvec).length+1))]++
      ((env.ptrArray argvec).take
        (((List.range (env.ptrArray argvec).length).findIdx (fun i => !env.malloc (2+i)))+1)).map
          (fun a => (a,(env.cString a).length+1))

/-- Record the loads of CopyExecArgs. -/
def noteLoads (l : List (ℕ × ℕ)) (s : Kernel) : Kernel :=
  {s with log := s.log++l.map (fun a => .loaded s.currentProcess a.1 a.2)}

/-- Bytes of the argument strings with their terminators. -/
def argSize (args : List (List UInt8)) : ℕ := (args.map (fun a => a.length+1)).sum

/-- Address of the argument strings. -/
def argStrings (M : Machine) (args : List (List UInt8)) : ℤ := (M.vmem1Limit : ℤ)-argSize args

/-- Address of the argument count, aligned to eight bytes. -/
def argBlock (M : Machine) (args : List (List UInt8)) : ℤ :=
  (argStrings M args-((args.length+3+M.postArgvNullSpace : ℕ) : ℤ)*4)/8*8

/-- The initial stack pointer of the program. -/
def stackPtr (M : Machine) (args : List (List UInt8)) : ℤ :=
  argBlock M args-M.initialStackFrameSize

/-- Pages of the new stack. -/
def stackNpg (M : Machine) (args : List (List UInt8)) : ℤ :=
  ((M.vmem1Limit : ℤ)-stackPtr M args/M.pageSize*M.pageSize)/M.pageSize

/-- Lowest page of the new stack. -/
def stackBasePg (M : Machine) (args : List (List UInt8)) : ℤ := M.maxPtLen-stackNpg M args

/-- The first page of the text in Region 1. -/
def textPg (M : Machine) (li : LoadInfo) : ℤ := M.region1Page li.tVaddr

/-- The first page of the data in Region 1. -/
def dataPg (M : Machine) (li : LoadInfo) : ℤ := M.region1Page li.idVaddr

/-- Data pages, initialised and zeroed, added as C ints. -/
def dataNpg (li : LoadInfo) : ℤ := wrap32 (li.idNpg+li.udNpg)

/-- The layout check before the old image is torn down. Its sums are C ints. -/
def LayoutRefused (M : Machine) (li : LoadInfo) (args : List (List UInt8)) : Prop :=
  textPg M li<0 ∨ dataPg M li<textPg M li ∨ (M.maxPtLen : ℤ)<wrap32 (textPg M li+li.tNpg) ∨
    stackBasePg M args-1<wrap32 (dataPg M li+dataNpg li)

instance (M : Machine) (li : LoadInfo) (args : List (List UInt8)) :
    Decidable (LayoutRefused M li args) := inferInstanceAs (Decidable (_ ∨ _))

/-- Store a byte through a Region 1 table; other addresses are not modelled. -/
def storeByte (M : Machine) (pt : PageTable) (contents : ℕ → ℕ → UInt8) (addr : ℤ) (b : UInt8) :
    ℕ → ℕ → UInt8 :=
  if addr<M.vmem1Base ∨ (M.vmem1Limit : ℤ)≤addr then contents
  else
    Function.update contents (pt (addr.toNat/M.pageSize-M.vmem1Base/M.pageSize)).pfn
      (Function.update (contents (pt (addr.toNat/M.pageSize-M.vmem1Base/M.pageSize)).pfn)
        (addr.toNat%M.pageSize) b)

/-- Store n bytes of a buffer from an address on. -/
def storeBytes (M : Machine) (pt : PageTable) (src : ℕ → UInt8) (addr : ℤ) :
    ℕ → (ℕ → ℕ → UInt8) → ℕ → ℕ → UInt8
  | 0,contents => contents
  | n+1,contents => storeByte M pt (storeBytes M pt src addr n contents) (addr+n) (src n)

/-- The four bytes of a little-endian word. -/
def wordBytes (w : ℤ) (i : ℕ) : UInt8 := UInt8.ofNat ((BitVec.ofInt 32 w).toNat/2^(8*i)%256)

/-- Store the argument pointers and strings. -/
def storeArgs (M : Machine) (pt : PageTable) :
    List (List UInt8) → ℤ → ℤ → (ℕ → ℕ → UInt8) → ℕ → ℕ → UInt8
  | [],cpp,_,contents =>
    storeBytes M pt (wordBytes 0) (cpp+4) 4 (storeBytes M pt (wordBytes 0) cpp 4 contents)
  | a::rest,cpp,cp,contents =>
    storeArgs M pt rest (cpp+4) (cp+(a.length+1))
      (storeBytes M pt (fun i => (a++[0]).getD i 0) cp (a.length+1)
        (storeBytes M pt (wordBytes cp) cpp 4 contents))

/-- Fill the stack pages: zeroes, the count, the pointers and the strings. -/
def storeStack (M : Machine) (pt : PageTable) (args : List (List UInt8))
    (contents : ℕ → ℕ → UInt8) : ℕ → ℕ → UInt8 :=
  storeArgs M pt args (argBlock M args+4) (argStrings M args)
    (storeBytes M pt (wordBytes args.length) (argBlock M args) 4
      (storeBytes M pt (fun _ => 0) (argBlock M args)
        ((M.vmem1Limit : ℤ)-argBlock M args).toNat contents))

/-- Give n pages from page on the protection of text. -/
def protectText : ℕ → ℤ → PageTable → PageTable
  | 0,_,pt => pt
  | n+1,page,pt =>
    protectText n (page+1) (Function.update pt page.toNat {pt page.toNat with prot := protReadExec})

/-- Bytes of a segment, its page count shifted as a C int. -/
def segmentSize (M : Machine) (npg : ℤ) : ℤ := wrap32 (npg*M.pageSize)

/-- The n bytes from an address on can be stored: they lie in Region 1, and
every page that holds one of them is mapped for stores. -/
def CanStore (M : Machine) (pt : PageTable) (addr : ℤ) (n : ℕ) : Prop :=
  n=0 ∨ ((M.vmem1Base : ℤ)≤addr ∧ addr+n≤M.vmem1Limit ∧
    ∀ i<M.maxPtLen,addr<((M.vmem1Base+(i+1)*M.pageSize : ℕ) : ℤ) →
      ((M.vmem1Base+i*M.pageSize : ℕ) : ℤ)<addr+n → (pt i).valid=true ∧ (pt i).prot.write=true)

instance (M : Machine) (pt : PageTable) (addr : ℤ) (n : ℕ) : Decidable (CanStore M pt addr n) :=
  inferInstanceAs (Decidable (_ ∨ _))

/-- Read a segment of the file. The read fails when the file is too short, when
the size is negative and when a page of the destination is not mapped for
stores; what a failing read has stored by then is left out. -/
def readSegment (M : Machine) (env : Env) (faddr vaddr : ℕ) (npg : ℤ) (pt : PageTable)
    (contents : ℕ → ℕ → UInt8) : Option (ℕ → ℕ → UInt8) :=
  if segmentSize M npg<0 then none
  else if CanStore M pt vaddr (segmentSize M npg).toNat then
    (env.fileRead faddr (segmentSize M npg).toNat).map
      (fun bytes => storeBytes M pt bytes vaddr (segmentSize M npg).toNat contents)
  else none

/-- The stores behind the reads: zeroing the data, and clearing the stack from
the argument block on. A negative length is huge as a size_t, so that it runs
out of the region. -/
def CanFill (M : Machine) (li : LoadInfo) (args : List (List UInt8)) (pt : PageTable) : Prop :=
  li.idEnd≤li.udEnd ∧ CanStore M pt li.idEnd (li.udEnd-li.idEnd) ∧
    CanStore M pt (argBlock M args) ((M.vmem1Limit : ℤ)-argBlock M args).toNat

instance (M : Machine) (li : LoadInfo) (args : List (List UInt8)) (pt : PageTable) :
    Decidable (CanFill M li args pt) := inferInstanceAs (Decidable (_ ∧ _))

/-- How LoadProgram ends. -/
inductive LoadResult
  /-- Nothing has been changed. -/
  | error
  /-- The old image is gone and the new one is incomplete. -/
  | kill (m : Memory) (space : UserSpace)
  /-- The kernel has stored through a page that is not mapped for stores. What
  it has stored since the reads is left out. -/
  | fault (m : Memory) (space : UserSpace)
  /-- The new image is in place. -/
  | success (m : Memory) (space : UserSpace) (pc : ℕ) (sp : ℤ)

/-- Files opened and closed, and kernel blocks allocated and freed. -/
structure Resources where
  /-- Calls of open that succeeded. -/
  opened : ℕ
  /-- How often close was called. -/
  closed : ℕ
  /-- Blocks that malloc returned. -/
  allocated : List ℕ
  /-- Blocks passed to free. -/
  freed : List ℕ
  deriving DecidableEq

/-- The file is closed once more. -/
def Resources.close (r : Resources) : Resources := {r with closed := r.closed+1}

/-- A block is allocated. -/
def Resources.malloc (r : Resources) (block : ℕ) : Resources :=
  {r with allocated := r.allocated++[block]}

/-- A block is given back. -/
def Resources.free (r : Resources) (block : ℕ) : Resources :=
  {r with freed := r.freed++[block]}

/-- Map text, data and stack into a cleared table, stopping at a failure. -/
def mapImage (M : Machine) (li : LoadInfo) (args : List (List UInt8)) (m : Memory)
    (pt : PageTable) : Memory × PageTable × Bool :=
  match mapRange M m pt (textPg M li) li.tNpg protReadWrite with
  | (m,pt,false) => (m,pt,false)
  | (m,pt,true) =>
    match mapRange M m pt (dataPg M li) (dataNpg li) protReadWrite with
    | (m,pt,false) => (m,pt,false)
    | (m,pt,true) => mapRange M m pt (stackBasePg M args) (stackNpg M args) protReadWrite

/-- The first address above the zeroed data, rounded up as a 32-bit address. -/
def imageBrk (M : Machine) (li : LoadInfo) : ℕ := M.upToPage li.udEnd%2^32

/-- Read the segments into a mapped image, close the file, protect the text, and
fill the zeroed data and the stack. -/
def fillImageRun (M : Machine) (env : Env) (li : LoadInfo) (args : List (List UInt8))
    (argbuf : ℕ) (m : Memory) (space : UserSpace) (r : Resources) : LoadResult × Resources :=
  match readSegment M env li.tFaddr li.tVaddr li.tNpg space.region1Pt m.contents with
  | none => (.kill m space,(r.free argbuf).close)
  | some text =>
    match readSegment M env li.idFaddr li.idVaddr li.idNpg space.region1Pt text with
    | none => (.kill {m with contents := text} space,(r.free argbuf).close)
    | some data =>
      if CanFill M li args (protectText li.tNpg.toNat (textPg M li) space.region1Pt) then
        (.success {m with
            contents := storeStack M space.region1Pt args
              (storeBytes M space.region1Pt (fun _ => 0) li.idEnd (li.udEnd-li.idEnd) data)}
          {space with
            region1Pt := protectText li.tNpg.toNat (textPg M li) space.region1Pt
            userHeapStart := imageBrk M li
            userBrk := imageBrk M li
            userStackLowPage := stackBasePg M args}
          li.entry (stackPtr M args),r.close.free argbuf)
      else
        (.fault {m with contents := data}
          {space with
            region1Pt := protectText li.tNpg.toNat (textPg M li) space.region1Pt},r.close)

/-- Load a program into an address space and record the files and blocks that
are taken and given back on the way; argbuf numbers the allocation of the
argument buffer. -/
def loadProgramRun (M : Machine) (env : Env) (args : List (List UInt8)) (argbuf : ℕ) (m : Memory)
    (space : UserSpace) : LoadResult × Resources :=
  if env.fileOpen=false then (.error,⟨0,0,[],[]⟩)
  else match env.loadInfo with
    | none => (.error,Resources.close ⟨1,0,[],[]⟩)
    | some li =>
      if li.entry<M.vmem1Base then (.error,Resources.close ⟨1,0,[],[]⟩)
      else if LayoutRefused M li args then (.error,Resources.close ⟨1,0,[],[]⟩)
      else if env.malloc argbuf=false then (.error,Resources.close ⟨1,0,[],[]⟩)
      else
        match mapImage M li args (memoryFreePageTableFrames M m space.region1Pt).1
            (memoryFreePageTableFrames M m space.region1Pt).2 with
        | (m,pt,false) =>
          (.kill m {space with region1Pt := pt},
            ((Resources.malloc ⟨1,0,[],[]⟩ argbuf).free argbuf).close)
        | (m,pt,true) =>
          fillImageRun M env li args argbuf m {space with region1Pt := pt}
            (Resources.malloc ⟨1,0,[],[]⟩ argbuf)

/-- LoadProgram: the checks, the tear-down, the image and its bytes. -/
def loadProgram (M : Machine) (env : Env) (args : List (List UInt8)) (argbuf : ℕ) (m : Memory)
    (space : UserSpace) : LoadResult := (loadProgramRun M env args argbuf m space).1

/-- The files and blocks that LoadProgram has taken and given back. -/
def loadLedger (M : Machine) (env : Env) (args : List (List UInt8)) (argbuf : ℕ) (m : Memory)
    (space : UserSpace) : Resources := (loadProgramRun M env args argbuf m space).2

/-- The files and blocks of an Exec that frees its copies behind LoadProgram. -/
def execLedger (blocks : List ℕ) (r : Resources) : Event :=
  .execLedger r.opened r.closed (blocks++r.allocated) (r.freed++blocks)

/-- SysExec behind its check of the caller. -/
def execImage (M : Machine) (env : Env) (filename argvec : ℕ) (uctxt : UserContext)
    (s : Kernel) : Flow :=
  match copyExecArgs env filename argvec with
  | .failed allocated freed =>
    .returns (s.emit (.execLedger 0 0 allocated freed)) uctxt ERROR
  | .copied args blocks =>
    match loadProgram M env args (2+args.length) s.memory (s.space s.currentProcess) with
    | .error =>
      .returns (s.emit (execLedger blocks (loadLedger M env args (2+args.length) s.memory
        (s.space s.currentProcess)))) uctxt ERROR
    | .kill m space =>
      .leaves (processExitCurrent M env ERROR ({s with
        memory := m
        space := Function.update s.space s.currentProcess space}.emit
          (execLedger blocks (loadLedger M env args (2+args.length) s.memory
            (s.space s.currentProcess)))))
    | .fault m space =>
      .leaves ({s with
        memory := m
        space := Function.update s.space s.currentProcess space
        cpu := .faulted}.emit
          (.execLedger (loadLedger M env args (2+args.length) s.memory
              (s.space s.currentProcess)).opened
            (loadLedger M env args (2+args.length) s.memory (s.space s.currentProcess)).closed
            (blocks++(loadLedger M env args (2+args.length) s.memory
              (s.space s.currentProcess)).allocated)
            (loadLedger M env args (2+args.length) s.memory (s.space s.currentProcess)).freed))
    | .success m space pc sp =>
      .returns ({s with
        memory := m
        space := Function.update s.space s.currentProcess space
        userContext := Function.update s.userContext s.currentProcess
          {s.userContext s.currentProcess with pc := pc, sp := sp.toNat}}.emit
          (execLedger blocks (loadLedger M env args (2+args.length) s.memory
            (s.space s.currentProcess)))) uctxt SUCCESS

/-- Replace the image of the current process. -/
def sysExec (M : Machine) (env : Env) (filename argvec : ℕ) (uctxt : UserContext)
    (s : Kernel) : Flow :=
  if s.currentProcess=0 ∨ s.currentProcess=s.idleProcess then .returns s uctxt ERROR
  else execImage M env filename argvec uctxt (noteLoads (execLoads env filename argvec) s)

end Yalnix.ProgramLoading
