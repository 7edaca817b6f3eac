import Mathlib.Algebra.Group.Int.Defs
import Mathlib.Algebra.GroupWithZero.Nat
import Mathlib.Data.Int.Basic
import Mathlib.Data.Nat.Basic
import Mathlib.Logic.Function.Basic

/-!
# The machine and framework the kernel is written against

Constants of the hardware and framework headers, linker symbols and the
numbering of system calls are parameters of the model. Pointers to process
control blocks are natural addresses with zero as the null pointer. Every
result of code outside the repository made during one kernel entry is read
from an oracle record, so that all its possible answers are covered.
-/

namespace Yalnix.Framework

/-- The error result of kernel calls. -/
abbrev ERROR : ℤ := -1

/-- The success result of kernel calls. -/
abbrev SUCCESS : ℤ := 0

/-- The C int that a computation with this mathematical result leaves. -/
def wrap32 (x : ℤ) : ℤ := Int.bmod x (2^32)

/-- A result that a C int can hold is left as it is. -/
theorem wrap32_eq {x : ℤ} (h0 : -2^31≤x) (h : x<2^31) : wrap32 x=x := by
  unfold wrap32
  rw [Int.bmod_eq_of_le]
  · omega
  · omega

/-- Every C int is below 2^31. -/
theorem wrap32_lt (x : ℤ) : wrap32 x<2^31 := by
  have h := @Int.bmod_lt x (2^32) (by decide)
  unfold wrap32
  omega

/-- No C int is below -2^31. -/
theorem wrap32_ge (x : ℤ) : -2^31≤wrap32 x := by
  have h := @Int.le_bmod x (2^32) (by decide)
  unfold wrap32
  omega

/-- A sum that leaves the range of a C int at its upper end becomes negative. -/
theorem wrap32_overflow {x : ℤ} (h0 : 2^31≤x) (h1 : x<2^32) : wrap32 x=x-2^32 := by
  have he : x=x-2^32+((2^32 : ℕ) : ℤ) := by omega
  unfold wrap32
  rw [he,Int.add_bmod_right,Int.bmod_eq_of_le]
  · omega
  · omega
  · omega

/-- Entries of the static table of IPC objects. -/
abbrev IPC_MAX_OBJECTS : ℕ := 128

/-- Address of a process control block; zero is the null pointer. -/
abbrev PcbPtr := ℕ

/-- System calls recognised by the dispatcher. -/
inductive Syscall
  | fork | exec | exit | wait | getPid | brk | delay | ttyRead | ttyWrite
  | pipeInit | pipeRead | pipeWrite | lockInit | acquire | release
  | cvarInit | cvarSignal | cvarBroadcast | cvarWait | reclaim | unsupported
  deriving DecidableEq, Repr

/-- Entries of the trap vector. -/
inductive TrapVector
  | clock | kernel | memory | illegal | math | ttyReceive | ttyTransmit | disk | other
  deriving DecidableEq, Repr

/-- The states of a process, as the header names them. -/
inductive ProcState
  | empty | ready | running | blocked | zombie
  deriving DecidableEq, Repr

/-- The accesses that a page table entry allows. -/
structure Prot where
  /-- Whether loads are allowed. -/
  read : Bool
  /-- Whether stores are allowed. -/
  write : Bool
  /-- Instruction fetches are allowed. -/
  exec : Bool
  deriving DecidableEq, Repr

/-- PROT_NONE: no access is allowed. -/
def protNone : Prot := ⟨false,false,false⟩

/-- Data, heap and stack pages. -/
def protReadWrite : Prot := ⟨true,true,false⟩

/-- The protection of text pages, which are read and executed. -/
def protReadExec : Prot := ⟨true,false,true⟩

/-- An entry of a page table. -/
structure Pte where
  /-- The entry maps its page. -/
  valid : Bool
  /-- The accesses that the entry allows. -/
  prot : Prot
  /-- The physical frame that backs the page. -/
  pfn : ℕ
  deriving DecidableEq, Repr

/-- The entry that calloc and unmapping leave behind. -/
def zeroPte : Pte := ⟨false,protNone,0⟩

/-- A page table, indexed by page number. -/
abbrev PageTable := ℕ → Pte

/-- There is a first register. -/
instance registers_nonzero : @NeZero ℕ Zero.ofOfNat0 8 := ⟨Nat.succ_ne_zero 7⟩

/-- User registers saved by the hardware at a trap. -/
structure UserContext where
  /-- The entry of the interrupt vector that is taken. -/
  vector : TrapVector
  /-- Trap specific code: the call number or the terminal. -/
  code : ℤ
  /-- The address of a memory fault. -/
  addr : ℕ
  /-- The program counter of the user program. -/
  pc : ℕ
  /-- The stack pointer of the user program. -/
  sp : ℕ
  /-- General registers, carrying arguments and the result. -/
  regs : Fin 8 → BitVec 32

/-- Register read as a C int. -/
def UserContext.int (u : UserContext) (i : Fin 8) : ℤ := (u.regs i).toInt

/-- Register read as an address. -/
def UserContext.ptr (u : UserContext) (i : Fin 8) : ℕ := (u.regs i).toNat

/-- Store a result in the first register. -/
def UserContext.setResult (u : UserContext) (rc : ℤ) : UserContext :=
  {u with regs := Function.update u.regs 0 (BitVec.ofInt 32 rc)}

/-- Constants of the hardware, the framework headers and the linker script,
with the facts about them that the kernel relies on. -/
structure Machine where
  /-- Logarithm of the page size. -/
  pageShift : ℕ
  /-- Pages of a region. -/
  maxPtLen : ℕ
  /-- First address of Region 1. -/
  vmem1Base : ℕ
  /-- First page of the kernel stack. -/
  kernelStackBasePage : ℕ
  /-- Pages of a kernel stack. -/
  kernelStackPages : ℕ
  /-- Entries of the frame table. -/
  maxFrames : ℕ
  /-- Entries of the process table. -/
  maxProcs : ℕ
  /-- NUM_TERMINALS, the number of terminals. -/
  numTerminals : ℕ
  /-- TERMINAL_MAX_LINE, the longest line of a terminal. -/
  terminalMaxLine : ℕ
  /-- Initial size of a pipe buffer. -/
  pipeBufferLen : ℕ
  /-- First page of the kernel text. -/
  firstKernelTextPage : ℕ
  /-- First page of the kernel data. -/
  firstKernelDataPage : ℕ
  /-- First page above the kernel image at boot. -/
  origKernelBrkPage : ℕ
  /-- Bytes below the argument block of a new stack. -/
  initialStackFrameSize : ℕ
  /-- Null words behind the argument pointers. -/
  postArgvNullSpace : ℕ
  /-- Entry point of the idle loop. -/
  doIdle : ℕ
  /-- Numbering of the system calls. -/
  syscallOf : ℤ → Syscall
  /-- A page holds a word. -/
  pageShift_word : 2≤pageShift
  /-- The addresses of both regions are C ints. -/
  vmem1Limit_int : vmem1Base+maxPtLen*2^pageShift≤2^31
  /-- Region 1 starts on a page boundary. -/
  vmem1Base_aligned : 2^pageShift ∣ vmem1Base
  /-- Region 1 does not start at the null pointer. -/
  vmem1Base_pos : 0<vmem1Base
  /-- A region has a page. -/
  maxPtLen_pos : 0< maxPtLen
  /-- A terminal line holds a byte. -/
  terminalMaxLine_pos : 0<terminalMaxLine
  /-- A pipe buffer holds a byte. -/
  pipeBufferLen_pos : 0<pipeBufferLen
  /-- The kernel image occupies frame zero. -/
  origKernelBrkPage_pos : 0<origKernelBrkPage

namespace Machine

variable (M : Machine)

/-- PAGESIZE, the number of bytes of a page. -/
def pageSize : ℕ := 2^M.pageShift

/-- First address above Region 1. -/
def vmem1Limit : ℕ := M.vmem1Base+M.maxPtLen*M.pageSize

/-- Round an address up to a page boundary. -/
def upToPage (addr : ℕ) : ℕ := (addr+(M.pageSize-1))/M.pageSize*M.pageSize

/-- Page index of an address relative to Region 1, shifted as a C int. -/
def region1Page (addr : ℕ) : ℤ := ((addr : ℤ)-M.vmem1Base)/M.pageSize

/-- The Region 0 page borrowed for copying frames. -/
def scratchPage : ℕ := M.kernelStackBasePage-1

/-- A page is not empty. -/
theorem pageSize_pos : 0<M.pageSize := Nat.pow_pos (by decide)

/-- A page has at least the bytes of a word. -/
theorem pageSize_word : 4≤M.pageSize := by
  unfold pageSize
  calc 4=2^2 := rfl
    _≤2^M.pageShift := Nat.pow_le_pow_right (by decide) M.pageShift_word

/-- The end of Region 1 is not above the largest C int. -/
theorem vmem1Limit_le : M.vmem1Limit≤2^31 := M.vmem1Limit_int

/-- Region 1 starts on a page boundary. -/
theorem pageSize_dvd_base : M.pageSize ∣ M.vmem1Base := M.vmem1Base_aligned

end Machine

/-- What the loader reports about an executable. -/
structure LoadInfo where
  /-- The address of the first instruction. -/
  entry : ℕ
  /-- The first address of the text segment. -/
  tVaddr : ℕ
  /-- File offset of the text. -/
  tFaddr : ℕ
  /-- The number of pages of the text segment. -/
  tNpg : ℤ
  /-- First initialised data address. -/
  idVaddr : ℕ
  /-- File offset of the initialised data. -/
  idFaddr : ℕ
  /-- The number of pages of initialised data. -/
  idNpg : ℤ
  /-- Pages of zeroed data only. -/
  udNpg : ℤ
  /-- End of the initialised data. -/
  idEnd : ℕ
  /-- End of the zeroed data. -/
  udEnd : ℕ
  /-- Page counts are C ints. -/
  counts_int : ∀ c∈[tNpg,idNpg,udNpg],-2^31≤ c ∧ c<2^31
  /-- Addresses have 32 bits. -/
  addresses_word : ∀ a∈[entry,tVaddr,idVaddr,idEnd,udEnd],a<2^32

/-- Answers of everything outside the kernel sources during one kernel entry. -/
structure Env where
  /-- Whether the numbered allocation of this entry succeeds. -/
  malloc : ℕ → Bool
  /-- Address proposed for a new process control block. -/
  pcbAddr : PcbPtr
  /-- Contents of freshly allocated memory. -/
  junk : ℕ → UInt8
  /-- The identifier that helper_new_pid returns. -/
  newPid : ℤ
  /-- Whether KernelContextSwitch succeeds in copying a context. -/
  cloneOk : Bool
  /-- Whether KernelContextSwitch succeeds in switching contexts. -/
  switchOk : Bool
  /-- Bytes that loads through user addresses return. -/
  mem : ℕ → UInt8
  /-- The C string at a user address, without its terminator. -/
  cString : ℕ → List UInt8
  /-- The null-terminated pointer array at a user address. -/
  ptrArray : ℕ → List ℕ
  /-- The number of bytes that TtyReceive returns. -/
  ttyReceive : ℤ
  /-- Bytes that TtyReceive stores. -/
  ttyData : ℕ → UInt8
  /-- Whether the executable can be opened. -/
  fileOpen : Bool
  /-- What LoadInfo reports, or nothing for a file it rejects. -/
  loadInfo : Option LoadInfo
  /-- Bytes read at a file offset, or nothing for a short read. -/
  fileRead : ℕ → ℕ → Option (ℕ → UInt8)

end Yalnix.Framework
