import Yalnix.MappedFrames
import Yalnix.Switching
import Yalnix.UserContexts

/-!
# The copy made by a fork

A successful fork gives the child frames of its own with the contents of the
parent's pages and of its kernel stack. The copy of a list of pages is
followed frame by frame: frames in use are left alone, and a frame that was
taken is in use from then on. The child waits behind the cloning of its kernel
context until it is scheduled, and then leaves the call with result zero.
-/

namespace Yalnix.ForkCopies

open Framework FrameTable KernelState Scheduling Ipc Terminals ProcessLifetime ProgramLoading
open Syscalls Traps KernelStart Coherence Operations OperationCoherence StepOperations
open CallOperations RunInvariants Traces AddressSpaces FramePartition KernelBreak ScratchPage
open MappedFrames KernelEntries UserContexts Switching

variable {M : Machine} {m m' m₁ : Memory} {pt pt' src : PageTable} {n pfn : ℕ} {pfns pfns' : ℕ → ℕ}

section Frames

/-- Frames in use stay in use with their contents. -/
structure Spared (m m' : Memory) : Prop where
  /-- The frames of the machine. -/
  count : m'.physicalFrameCount=m.physicalFrameCount
  /-- They are still in use. -/
  marked : ∀ f,m.frameAllocated f=true → m'.frameAllocated f=true
  /-- They are not written. -/
  contents : ∀ f,m.frameAllocated f=true → m'.contents f=m.contents f

/-- A memory is spared relative to itself. -/
theorem Spared.refl (m : Memory) : Spared m m := ⟨rfl,fun _ => id,fun _ _ => rfl⟩

/-- One change after the other. -/
theorem Spared.trans (h : Spared m m₁) (h' : Spared m₁ m') : Spared m m' :=
  ⟨h'.count.trans h.count,fun f hf => h'.marked f (h.marked f hf),
    fun f hf => (h'.contents f (h.marked f hf)).trans (h.contents f hf)⟩

/-- A frame that was not in use before. -/
structure Taken (m m' : Memory) (f : ℕ) : Prop where
  /-- The frame was free before. -/
  free : m.frameAllocated f=false
  /-- The frame is one of the machine. -/
  lt : f< m.physicalFrameCount
  /-- It is in use now. -/
  marked : m'.frameAllocated f=true

/-- A frame that was free after a change was free before. -/
theorem Taken.after {f : ℕ} (h : Spared m m₁) (ht : Taken m₁ m' f) : Taken m m' f := by
  refine ⟨?_,h.count ▸ ht.lt,ht.marked⟩
  cases hf : m.frameAllocated f with
  | false => rfl
  | true => exact absurd ((h.marked f hf).symm.trans ht.free) (by simp)

/-- A frame stays in use. -/
theorem Taken.before {f : ℕ} (ht : Taken m m₁ f) (h : Spared m₁ m') : Taken m m' f :=
  ⟨ht.free,ht.lt,h.marked f ht.marked⟩

/-- Frames in use are not those that were taken. -/
theorem Taken.ne {f g : ℕ} (ht : Taken m m' f) (hg : m.frameAllocated g=true) : f≠g := by
  rintro rfl
  rw [ht.free] at hg
  cases hg

/-- A frame that is taken was free, and the others are spared. -/
theorem alloc_taken (h : frameAlloc m=some (pfn,m')) : Spared m m' ∧ Taken m m' pfn := by
  obtain ⟨hfree,hlt,rfl⟩ := frameAlloc_eq h
  refine ⟨⟨rfl,fun f hf => ?_,fun _ _ => rfl⟩,hfree,hlt,Function.update_self ..⟩
  have hne : f≠pfn := by
    rintro rfl
    rw [hfree] at hf
    cases hf
  dsimp only
  rw [Function.update_of_ne hne]
  exact hf

/-- A frame that was free is filled with the contents of another one. -/
theorem fill_spared {f : ℕ} (hs : Spared m m₁) (ht : Taken m m₁ pfn) :
    Spared m (copyThroughScratch M m₁ pfn f) := by
  refine ⟨hs.count,hs.marked,fun g hg => ?_⟩
  dsimp only [copyThroughScratch]
  rw [Function.update_of_ne (ht.ne hg).symm]
  exact hs.contents g hg

end Frames

section Pages

/-- The listed pages of a table have been copied into frames that were taken
for them, each with the contents and the protection of its origin. -/
structure PagesCopied (src : PageTable) (l : List ℕ) (m m' : Memory) (pt pt' : PageTable) :
    Prop where
  /-- Frames in use are left alone. -/
  spared : Spared m m'
  /-- Every mapped page of the parent is mapped in the copy with its own frame. -/
  mapped : ∀ i∈l,(src i).valid=true → (pt' i).valid=true ∧ (pt' i).prot=(src i).prot ∧
    Taken m m' (pt' i).pfn ∧ m'.contents (pt' i).pfn=m.contents (src i).pfn
  /-- No two of them share a frame. -/
  one : ∀ i∈l,∀ j∈l,(src i).valid=true → (src j).valid=true → (pt' i).pfn=(pt' j).pfn → i=j
  /-- All other entries are kept. -/
  others : ∀ i,(i∉l ∨ (src i).valid=false) → pt' i=pt i

/-- A copy of pages whose frames are in use. -/
theorem copyPages_copied {l : List ℕ} (hl : l.Nodup)
    (hsrc : ∀ i∈l,(src i).valid=true → m.frameAllocated (src i).pfn=true)
    (h : copyRegion1Pages M src l m pt=(m',some pt')) : PagesCopied src l m m' pt pt' := by
  induction l generalizing m pt with
  | nil =>
    injection h with hm hp
    injection hp with hp
    subst hm hp
    exact ⟨⟨rfl,fun _ => id,fun _ _ => rfl⟩,fun i hi => absurd hi List.not_mem_nil,
      fun i hi => absurd hi List.not_mem_nil,fun _ _ => rfl⟩
  | cons j l ih =>
    obtain ⟨hj,hl'⟩ := List.nodup_cons.1 hl
    have hsrc' : ∀ i∈l,(src i).valid=true → m.frameAllocated (src i).pfn=true :=
      fun i hi => hsrc i (List.mem_cons_of_mem _ hi)
    unfold copyRegion1Pages at h
    split at h
    · rename_i hv
      split at h
      · cases h
      · rename_i f m₁ ha
        obtain ⟨hs,ht⟩ := alloc_taken ha
        split at h
        · cases h
        · rename_i pt₁ hm
          obtain ⟨h0,_,rfl⟩ := mapPage_eq hm
          have hjm := hsrc j List.mem_cons_self hv
          -- the frame of page j is in use behind the first copy, with the bytes of its origin
          have hfill : Spared m (copyThroughScratch M m₁ f (src j).pfn) := fill_spared hs ht
          have hbytes : (copyThroughScratch M m₁ f (src j).pfn).contents f=
              m.contents (src j).pfn := by
            dsimp only [copyThroughScratch]
            rw [Function.update_self]
            exact hs.contents _ hjm
          have hown : Taken m (copyThroughScratch M m₁ f (src j).pfn) f := ⟨ht.free,ht.lt,ht.marked⟩
          obtain ⟨hsp,hmap,hone,hoth⟩ := ih hl' (fun i hi hvi => hfill.marked _ (hsrc' i hi hvi)) h
          have hentry : pt' j=⟨true,(src j).prot,f⟩ := by
            rw [hoth j (.inl hj)]
            exact Function.update_self ..
          refine ⟨hfill.trans hsp,fun i hi hvi => ?_,fun i hi k hk hvi hvk he => ?_,fun i hi => ?_⟩
          · rcases List.mem_cons.1 hi with rfl|hi
            · rw [hentry]
              exact ⟨rfl,rfl,hown.before hsp,(hsp.contents f hown.marked).trans hbytes⟩
            · obtain ⟨hvp,hpp,htp,hcp⟩ := hmap i hi hvi
              exact ⟨hvp,hpp,htp.after hfill,hcp.trans (hfill.contents _ (hsrc' i hi hvi))⟩
          · rcases List.mem_cons.1 hi with rfl|hil
            · rcases List.mem_cons.1 hk with rfl|hkl
              · rfl
              · rw [hentry] at he
                exact absurd he.symm ((hmap k hkl hvk).2.2.1.ne hown.marked)
            · rcases List.mem_cons.1 hk with rfl|hkl
              · rw [hentry] at he
                exact absurd he ((hmap i hil hvi).2.2.1.ne hown.marked)
              · exact hone i hil k hkl hvi hvk he
          · have hne : i≠j := by
              rintro rfl
              rcases hi with hi|hi
              · exact hi List.mem_cons_self
              · rw [hv] at hi
                cases hi
            rw [hoth i (hi.imp_left (fun hn hm => hn (List.mem_cons_of_mem _ hm)))]
            exact Function.update_of_ne (by simpa using hne) ..
    · rename_i hv
      obtain ⟨hsp,hmap,hone,hoth⟩ := ih hl' hsrc' h
      have hmem : ∀ i∈j::l,(src i).valid=true → i∈l := by
        intro i hi hvi
        rcases List.mem_cons.1 hi with rfl|hi
        · exact absurd hvi hv
        · exact hi
      refine ⟨hsp,fun i hi hvi => hmap i (hmem i hi hvi) hvi,
        fun i hi k hk hvi hvk => hone i (hmem i hi hvi) k (hmem k hk hvk) hvi hvk,
        fun i hi => hoth i (hi.imp_left (fun hn hm => hn (List.mem_cons_of_mem _ hm)))⟩

/-- A copy of a whole table. -/
theorem copyRegion1_copied
    (hsrc : ∀ i<M.maxPtLen,(src i).valid=true → m.frameAllocated (src i).pfn=true)
    (h : processCopyRegion1 M m src=(m',some pt)) :
    PagesCopied src (List.range M.maxPtLen) m m' (fun _ => zeroPte) pt :=
  copyPages_copied List.nodup_range (fun i hi => hsrc i (List.mem_range.1 hi)) h

end Pages

section Stacks

/-- The frames of a kernel stack from slot k on have been taken. -/
structure StackTaken (k n : ℕ) (m m' : Memory) (pfns pfns' : ℕ → ℕ) : Prop where
  /-- Frames in use are left alone. -/
  spared : Spared m m'
  /-- No frame is written. -/
  contents : m'.contents=m.contents
  /-- The new slots hold frames that were free. -/
  taken : ∀ j,k≤j → j<k+n → Taken m m' (pfns' j)
  /-- They are different frames. -/
  one : ∀ i j,k≤ i → i<k+n → k≤j → j<k+n → pfns' i=pfns' j → i=j
  /-- The slots that were filled before are kept. -/
  others : ∀ j<k,pfns' j=pfns j

/-- A kernel stack is allocated. -/
theorem allocStack_taken {k : ℕ} (h : allocKernelStackFrom n k pfns m=(m',some pfns')) :
    StackTaken k n m m' pfns pfns' := by
  induction n generalizing k pfns m with
  | zero =>
    injection h with hm hp
    injection hp with hp
    subst hm hp
    exact ⟨.refl m,rfl,fun j h₁ h₂ => by omega,fun i j h₁ h₂ => by omega,fun _ _ => rfl⟩
  | succ n ih =>
    unfold allocKernelStackFrom at h
    split at h
    · cases h
    · rename_i f m₁ ha
      obtain ⟨hs,ht⟩ := alloc_taken ha
      have hc : m₁.contents=m.contents := by
        obtain ⟨_,_,rfl⟩ := frameAlloc_eq ha
        rfl
      obtain ⟨hsp,hcs,htk,hone,hoth⟩ := ih h
      have hslot : pfns' k=f := by
        rw [hoth k (Nat.lt_succ_self k)]
        exact Function.update_self ..
      refine ⟨hs.trans hsp,hcs.trans hc,fun j h₁ h₂ => ?_,fun i j hi hi' hj hj' he => ?_,
        fun j hj => ?_⟩
      · by_cases hjk : j=k
        · rw [hjk,hslot]
          exact ht.before hsp
        · exact (htk j (by omega) (by omega)).after hs
      · by_cases hik : i=k
        · by_cases hjk : j=k
          · rw [hik,hjk]
          · rw [hik,hslot] at he
            exact absurd he.symm ((htk j (by omega) (by omega)).ne ht.marked)
        · by_cases hjk : j=k
          · rw [hjk,hslot] at he
            exact absurd he ((htk i (by omega) (by omega)).ne ht.marked)
          · exact hone i j (by omega) (by omega) (by omega) (by omega) he
      · rw [hoth j (by omega),Function.update_of_ne (by omega)]

/-- The scratch page is not one of the kernel stack. -/
theorem through_region0 (hM : KernelLayout M) (dst f i : ℕ) :
    (copyThroughScratch M m dst f).kernelRegion0Pt (M.kernelStackBasePage+i)=
      m.kernelRegion0Pt (M.kernelStackBasePage+i) := by
  have hpos := M.origKernelBrkPage_pos
  have hle := hM.brk_le
  dsimp only [copyThroughScratch,memoryMapPage]
  split
  · rfl
  · rw [Option.getD_some,Function.update_of_ne]
    unfold Machine.scratchPage
    omega

/-- The listed pages of the running kernel stack are copied. -/
theorem copyStack_contents (hM : KernelLayout M) {l : List ℕ} (hl : l.Nodup)
    (hone : ∀ i∈l,∀ j∈l,pfns i=pfns j → i=j)
    (hsrc : ∀ i∈l,∀ j∈l,(m.kernelRegion0Pt (M.kernelStackBasePage+i)).pfn≠pfns j) :
    (∀ i∈l,(copyKernelStack M pfns l m).contents (pfns i)=
      m.contents (m.kernelRegion0Pt (M.kernelStackBasePage+i)).pfn) ∧
    ∀ f,(∀ i∈l,f≠pfns i) → (copyKernelStack M pfns l m).contents f=m.contents f := by
  induction l generalizing m with
  | nil => exact ⟨fun i hi => absurd hi List.not_mem_nil,fun _ _ => rfl⟩
  | cons k l ih =>
    obtain ⟨hk,hl'⟩ := List.nodup_cons.1 hl
    have hmem : ∀ {i},i∈l → i∈k::l := fun hi => List.mem_cons_of_mem _ hi
    have hkm : k∈k::l := List.mem_cons_self
    have hfill : ∀ f,f≠pfns k → (copyThroughScratch M m (pfns k)
        (m.kernelRegion0Pt (M.kernelStackBasePage+k)).pfn).contents f=m.contents f :=
      fun f hf => Function.update_of_ne hf ..
    obtain ⟨hin,hout⟩ := ih (m := copyThroughScratch M m (pfns k)
        (m.kernelRegion0Pt (M.kernelStackBasePage+k)).pfn) hl'
      (fun i hi j hj => hone i (hmem hi) j (hmem hj)) (fun i hi j hj => by
        rw [through_region0 hM]
        exact hsrc i (hmem hi) j (hmem hj))
    unfold copyKernelStack
    refine ⟨fun i hi => ?_,fun f hf => ?_⟩
    · rcases List.mem_cons.1 hi with rfl|hi
      · rw [hout (pfns i) (fun j hj he => hk (hone i hkm j (hmem hj) he ▸ hj))]
        exact Function.update_self ..
      · rw [hin i hi,through_region0 hM]
        exact hfill _ (hsrc i (hmem hi) k hkm)
    · rw [hout f (fun i hi => hf i (hmem hi))]
      exact hfill f (hf k hkm)

end Stacks

section Spaces

variable {v v' : UserSpace} {m₂ : Memory}

/-- The address space v' is a copy of v in frames that were free. -/
structure SpaceCopied (M : Machine) (m m' : Memory) (v v' : UserSpace) : Prop where
  /-- The same pages are mapped. -/
  valid : ∀ i<M.maxPtLen,(v'.region1Pt i).valid=(v.region1Pt i).valid
  /-- They have the same protection. -/
  prot : ∀ i<M.maxPtLen,(v.region1Pt i).valid=true → (v'.region1Pt i).prot=(v.region1Pt i).prot
  /-- Each of them has a frame that was free. -/
  taken : ∀ i<M.maxPtLen,(v.region1Pt i).valid=true → Taken m m' (v'.region1Pt i).pfn
  /-- Each has a frame of its own. -/
  one : ∀ i<M.maxPtLen,∀ j<M.maxPtLen,(v.region1Pt i).valid=true → (v.region1Pt j).valid=true →
    (v'.region1Pt i).pfn=(v'.region1Pt j).pfn → i=j
  /-- It holds the bytes of the copied page. -/
  contents : ∀ i<M.maxPtLen,(v.region1Pt i).valid=true →
    m'.contents (v'.region1Pt i).pfn=m.contents (v.region1Pt i).pfn
  /-- The copied pages are as before. -/
  kept : ∀ i<M.maxPtLen,(v.region1Pt i).valid=true →
    m'.contents (v.region1Pt i).pfn=m.contents (v.region1Pt i).pfn
  /-- The copy has the same break. -/
  brk : v'.userBrk=v.userBrk
  /-- The start of the heap. -/
  heap : v'.userHeapStart=v.userHeapStart
  /-- The lowest page of the stack. -/
  low : v'.userStackLowPage=v.userStackLowPage
  /-- The kernel stack has frames that were free. -/
  stackTaken : ∀ j<M.kernelStackPages,Taken m m' (v'.kernelStackPfns j)
  /-- They hold the bytes of the copied kernel stack. -/
  stack : ∀ j<M.kernelStackPages,
    m'.contents (v'.kernelStackPfns j)=m.contents (v.kernelStackPfns j)

/-- What a copy relies on: the pages and the running kernel stack of an address
space have frames that are in use. -/
structure Running (M : Machine) (m : Memory) (v : UserSpace) : Prop where
  /-- The mapped pages are backed by frames in use. -/
  pages : ∀ i<M.maxPtLen,(v.region1Pt i).valid=true → m.frameAllocated (v.region1Pt i).pfn=true
  /-- The kernel stack is backed by frames in use. -/
  stack : ∀ j<M.kernelStackPages,m.frameAllocated (v.kernelStackPfns j)=true
  /-- It is the running one. -/
  region0 : ∀ j<M.kernelStackPages,
    (m.kernelRegion0Pt (M.kernelStackBasePage+j)).pfn=v.kernelStackPfns j

/-- The copy of the pages does not touch the running kernel stack. -/
theorem copied_stackPages (hM : KernelLayout M) (hr : Running M m v)
    (hk : processAllocKernelStack M m=(m₁,some pfns))
    (hp : processCopyRegion1 M m₁ v.region1Pt=(m₂,some pt)) {j : ℕ} (hj : j<M.kernelStackPages) :
    (m₂.kernelRegion0Pt (M.kernelStackBasePage+j)).pfn=v.kernelStackPfns j := by
  have hpos := M.origKernelBrkPage_pos
  have hle := hM.brk_le
  have hkept : Kept m (processAllocKernelStack M m).1 := kept_allocStack
  have hsame : (processCopyRegion1 M m₁ v.region1Pt).1.kernelRegion0Pt (M.kernelStackBasePage+j)=
      m₁.kernelRegion0Pt (M.kernelStackBasePage+j) := by
    refine copyRegion1_elsewhere ?_
    unfold Machine.scratchPage
    omega
  rw [hk] at hkept
  rw [hp] at hsame
  rw [hsame,hkept.region0]
  exact hr.region0 j hj

/-- A kernel stack is allocated, the pages are copied, and the running kernel
stack is copied behind them. -/
theorem fork_spaceCopied (hM : KernelLayout M) (hr : Running M m v)
    (hk : processAllocKernelStack M m=(m₁,some pfns))
    (hp : processCopyRegion1 M m₁ v.region1Pt=(m₂,some pt)) :
    SpaceCopied M m (copyKernelStack M pfns (List.range M.kernelStackPages) m₂) v
      ⟨pt,pfns,v.userBrk,v.userHeapStart,v.userStackLowPage⟩ := by
  have hst : StackTaken 0 M.kernelStackPages m m₁ (fun _ => 0) pfns := allocStack_taken hk
  have hslot : ∀ j∈List.range M.kernelStackPages,Taken m m₁ (pfns j) :=
    fun j hj => hst.taken j (Nat.zero_le j) (by have := List.mem_range.1 hj; omega)
  have hpg := copyRegion1_copied (fun i h₁ hv => hst.spared.marked _ (hr.pages i h₁ hv)) hp
  have hall : Spared m m₂ := hst.spared.trans hpg.spared
  have hregion : ∀ j∈List.range M.kernelStackPages,
      (m₂.kernelRegion0Pt (M.kernelStackBasePage+j)).pfn=v.kernelStackPfns j :=
    fun j hj => copied_stackPages hM hr hk hp (List.mem_range.1 hj)
  obtain ⟨hcopy,hother⟩ := @copyStack_contents M m₂ pfns hM (List.range M.kernelStackPages)
    List.nodup_range
    (fun i h₁ j hj => hst.one i j (Nat.zero_le i) (by have := List.mem_range.1 h₁; omega)
      (Nat.zero_le j) (by have := List.mem_range.1 hj; omega))
    (fun i h₁ j hj => by
      rw [hregion i h₁]
      exact ((hslot j hj).ne (hr.stack i (List.mem_range.1 h₁))).symm)
  have hframes := @copyKernelStack_frames M m₂ pfns (List.range M.kernelStackPages)
  have htaken : ∀ f,Taken m m₂ f →
      Taken m (copyKernelStack M pfns (List.range M.kernelStackPages) m₂) f :=
    fun f ht => ⟨ht.free,ht.lt,by rw [hframes.1]; exact ht.marked⟩
  refine ⟨fun i h₁ => ?_,fun i h₁ hv => ?_,fun i h₁ hv => ?_,fun i h₁ j hj => ?_,
    fun i h₁ hv => ?_,fun i h₁ hv => ?_,rfl,rfl,rfl,fun j hj => ?_,fun j hj => ?_⟩
  · cases hv : (v.region1Pt i).valid with
    | true => exact (hpg.mapped i (List.mem_range.2 h₁) hv).1
    | false =>
      dsimp only
      rw [hpg.others i (.inr hv)]
      rfl
  · exact (hpg.mapped i (List.mem_range.2 h₁) hv).2.1
  · exact htaken _ ((hpg.mapped i (List.mem_range.2 h₁) hv).2.2.1.after hst.spared)
  · exact hpg.one i (List.mem_range.2 h₁) j (List.mem_range.2 hj)
  · obtain ⟨_,_,ht,hbytes⟩ := hpg.mapped i (List.mem_range.2 h₁) hv
    rw [hother _ (fun j hj => ht.ne (hslot j hj).marked)]
    exact hbytes.trans (hst.spared.contents _ (hr.pages i h₁ hv))
  · have hm := hr.pages i h₁ hv
    rw [hother _ (fun j hj => ((hslot j hj).ne hm).symm)]
    exact hall.contents _ hm
  · exact htaken _ ((hslot j (List.mem_range.2 hj)).before hpg.spared)
  · dsimp only
    rw [hcopy j (List.mem_range.2 hj),hregion j (List.mem_range.2 hj)]
    exact hall.contents _ (hr.stack j hj)

end Spaces

section Kernels

variable {s t w : Kernel} {c p : PcbPtr} {u : UserContext} {env : Env} {K : ℕ → Bool} {top : ℕ}
  {g : PcbPtr → Option Entry}

/-- The child c has a copy of the memory of its parent p, and is last among the
children of p and on the ready queue. -/
structure Copied (M : Machine) (p c : PcbPtr) (s t : Kernel) : Prop where
  /-- The child did not exist. -/
  fresh : s.live c=false
  /-- The child exists behind the fork. -/
  live : t.live c=true
  /-- Its memory is a copy. -/
  space : SpaceCopied M s.memory t.memory (s.space p) (t.space c)
  /-- The table, the stack and the bounds of the parent are as before. -/
  parent : t.space p=s.space p
  /-- The child is the last one. -/
  children : t.children p=s.children p++[c]
  /-- It has no children. -/
  childless : t.children c=[]
  /-- It is scheduled last. -/
  ready : t.readyQueue=s.readyQueue++[c]

/-- The memory of the current process, which is not idle. -/
theorem current_running (hm : Mapped M top K s) (hl : s.live s.currentProcess=true)
    (hi : s.currentProcess≠s.idleProcess) : Running M s.memory (s.space s.currentProcess) := by
  refine ⟨fun i h₁ hv => hm.heap.others _ ⟨_,held_page hl h₁ hv⟩,fun j hj => ?_,hm.stack⟩
  refine hm.heap.others _ ⟨.stack s.currentProcess j,?_⟩
  dsimp only [held,stackSlots]
  rw [if_pos ⟨hl,hi⟩,if_pos hj]

/-- A child with a kernel stack and pages whose kernel stack has been copied. -/
theorem spawned_copied (hM : KernelLayout M) (hr : Running M s.memory (s.space s.currentProcess))
    (hfresh : s.live c=false) (hne : c≠s.currentProcess) {m₂ : Memory} (n : ℤ)
    (hk : processAllocKernelStack M s.memory=(m₁,some pfns))
    (hp : processCopyRegion1 M m₁ (s.space s.currentProcess).region1Pt=(m₂,some pt))
    (caller : PcbPtr) (u : UserContext) (e : Event) :
    Copied M s.currentProcess c s (markReady ((kcCopy M c ⟨caller,.fork c⟩
      ((enterChild M s.currentProcess c n pfns pt m₂ s).setUserContext c u)).emit e) c) := by
  have hcopy := fork_spaceCopied hM hr hk hp
  rw [spawn_eq]
  refine ⟨hfresh,Function.update_self ..,?_,Function.update_of_ne hne.symm ..,
    Function.update_self ..,?_,rfl⟩
  · dsimp only [kcCopy,enterChild]
    rw [Function.update_self]
    exact hcopy
  · dsimp only [enterChild]
    rw [Function.update_of_ne hne,Function.update_self]

/-- A fork that returns an identifier has created a child. -/
theorem sysFork_returns (hc : Coherent M s) {caller : PcbPtr} {x : UserContext}
    {rc : ℤ} (h : sysFork M env caller u s=.returns t x rc) (hrc : rc≠ERROR) :
    s.currentProcess≠s.idleProcess ∧ x=u ∧ rc=env.newPid ∧ ∃ c pfns pt m₁ m₂,
      callocPcb env s=some c ∧ processAllocKernelStack M s.memory=(m₁,some pfns) ∧
      processCopyRegion1 M m₁ (s.space s.currentProcess).region1Pt=(m₂,some pt) ∧
      t=markReady ((kcCopy M c ⟨caller,.fork c⟩
        ((enterChild M s.currentProcess c env.newPid pfns pt m₂ s).setUserContext c
          ((s.userContext s.currentProcess).setResult 0))).emit
            (.forked (s.birth s.currentProcess) s.stamp env.newPid)) c := by
  unfold sysFork at h
  split at h
  · injection h with _ _ h
    exact absurd h.symm hrc
  · rename_i hi
    refine ⟨fun he => hi (.inr he),?_⟩
    split at h
    · cases h
    · rcases processCreateChild_cases M env s s.currentProcess with
        ⟨m,he⟩|⟨c,pfns,pt,m₁,m₂,hcp,hk,hn,hp,he⟩
      · rw [he] at h
        injection h with _ _ h
        exact absurd h.symm hrc
      · rw [he] at h
        dsimp only at h
        obtain ⟨h0,hfresh⟩ := callocPcb_fresh hcp
        have hne := dead_ne_current hc hfresh
        split at h
        · unfold sysForkReturn at h
          rw [if_neg (fun hcur => hne hcur.symm)] at h
          injection h with ht hx hr
          have hpid : rc=env.newPid := by
            rw [←hr]
            exact Function.update_self ..
          refine ⟨hx.symm,hpid,c,pfns,pt,m₁,m₂,hcp,hk,hp,?_⟩
          rw [←ht,processMakeReady_eq h0]
          · have hself : (enterChild M s.currentProcess c env.newPid pfns pt m₂ s).userContext c=
                s.userContext s.currentProcess := Function.update_self ..
            have hbirth : (enterChild M s.currentProcess c env.newPid pfns pt m₂ s).birth c=
                s.stamp := Function.update_self ..
            have hparent : (enterChild M s.currentProcess c env.newPid pfns pt m₂ s).birth
                (enterChild M s.currentProcess c env.newPid pfns pt m₂ s).currentProcess=
                  s.birth s.currentProcess := Function.update_of_ne hne.symm ..
            have hnew : (enterChild M s.currentProcess c env.newPid pfns pt m₂ s).pid c=
                env.newPid := Function.update_self ..
            dsimp only [kcCopy,Kernel.setUserContext]
            rw [hself,hbirth,hnew,hparent]
          · intro hidle
            rw [show c=s.idleProcess from hidle,hc.ready.idle_live] at hfresh
            cases hfresh
          · dsimp only [kcCopy,Kernel.setUserContext,Kernel.emit,enterChild]
            rw [Function.update_self]
            decide
          · exact dead_unlinked hc hfresh
        · injection h with _ _ h
          exact absurd h.symm hrc

/-- What a fork leaves behind for its child c: a copy of the memory, the
identifier that is returned, and registers with result zero behind the cloning
of the kernel context. -/
structure Forked (M : Machine) (p c : PcbPtr) (u : UserContext) (rc : ℤ) (s t : Kernel) : Prop
    extends Copied M p c s t where
  /-- The block of the child. -/
  address : c≠0 ∧ c≠p
  /-- The identifier of the child is the result of the parent. -/
  pid : t.pid c=rc
  /-- The kernel stack of the child is a copy that goes on in the fork. -/
  point : t.kernelContext c=⟨p,.fork c⟩
  /-- The registers of the child are those of the parent with result zero. -/
  registers : t.userContext c=u.setResult 0
  /-- The parent goes on. -/
  current : t.currentProcess=s.currentProcess

/-- A successful SysFork has made a child with these pages, links and results. -/
theorem sysFork_forked (hM : KernelLayout M) (hc : Coherent M s) (hm : Mapped M top K s)
    {x : UserContext} {rc : ℤ} (h : sysFork M env s.currentProcess u s=.returns t x rc)
    (hrc : rc≠ERROR) : x=u ∧
      ∃ c,Forked M s.currentProcess c (s.userContext s.currentProcess) rc s t := by
  obtain ⟨hi,rfl,rfl,c,pfns,pt,m₁,m₂,hcp,hk,hp,rfl⟩ := sysFork_returns hc h hrc
  obtain ⟨h0,hfresh⟩ := callocPcb_fresh hcp
  have hne := dead_ne_current hc hfresh
  have hrun := current_running hm hc.ready.current_live hi
  refine ⟨rfl,c,spawned_copied hM hrun hfresh hne _ hk hp _ _ _,⟨h0,hne⟩,?_,?_,?_,?_⟩
  · rw [spawn_eq]
    exact Function.update_self ..
  · rw [spawn_eq]
    exact Function.update_self ..
  · rw [spawn_eq]
    exact Function.update_self ..
  · rw [spawn_eq]
    rfl

end Kernels

section Children

variable {s w : Kernel} {c p : PcbPtr} {env : Env} {g : PcbPtr → Option Entry}

/-- States behind s as long as the process c has not run. -/
inductive Rests (M : Machine) (c : PcbPtr) (s : Kernel) : Kernel → Prop
  /-- The state s itself comes before any step. -/
  | refl : Rests M c s s
  /-- Another process enters the kernel or goes on in it. -/
  | step {w : Kernel} (env : Env) (input : Input) (h : Rests M c s w) (he : input.Enabled w)
      (hs : env.switchOk=true) (hc : w.currentProcess≠c) : Rests M c s (kernelStep M env w input)
  /-- A request of the allocator. -/
  | request {w : Kernel} (k : KernelBrk) (r : ℤ) (h : Rests M c s w) :
      Rests M c s {w with memory := (request M true (w.memory,k) r).1}

/-- The memory does not matter for what is watched. -/
theorem watched_memory (h : Watched M s g) (m : Memory) : Watched M {s with memory := m} g :=
  ⟨settled_memory h.toSettled m,h.blocked,h.held⟩

/-- A child that has not run lives and keeps its stack and its registers. -/
theorem rests_kept (h : Rests M c s w) (hw : ∃ g,Watched M s g) (hl : s.live c=true)
    (hz : s.state c≠.zombie) (hk : s.kernelContext c=⟨p,.fork c⟩) :
    (∃ g,Watched M w g) ∧ w.live c=true ∧ w.state c≠.zombie ∧ w.kernelContext c=⟨p,.fork c⟩ ∧
      w.userContext c=s.userContext c := by
  induction h with
  | refl => exact ⟨hw,hl,hz,hk,rfl⟩
  | step env input _ he hs hc ih =>
    obtain ⟨⟨g,hg⟩,hl,hz,hk,hu⟩ := ih
    obtain ⟨hkept,hregs⟩ := (kernelStep_outcome env hg he).others.old c hc.symm hl
    have hout := kernelStep_outside hg.toSettled hs he hl hz hc
    refine ⟨⟨_,watched_step env hg he hs⟩,hout.live,hout.alive,hkept.trans hk,?_⟩
    rcases hregs with hregs|⟨hwait,_⟩
    · exact hregs.trans hu
    · have hcall := hg.blocked c hl (waiting_blocked hg.toCoherent hl hwait)
      rw [hk] at hcall
      exact hcall.elim
  | request k r _ ih =>
    obtain ⟨⟨g,hg⟩,hl,hz,hk,hu⟩ := ih
    exact ⟨⟨g,watched_memory hg _⟩,hl,hz,hk,hu⟩

/-- The tail of TrapKernel on the stack of another process. -/
theorem trapKernelReturn_other (x : UserContext) (hp : p≠s.currentProcess)
    (h0 : s.currentProcess≠0) :
    trapKernelReturn p x s=returnToUser (s.userContext s.currentProcess) s := by
  unfold trapKernelReturn
  rw [if_neg (fun hn => hp hn.1),if_pos h0]

/-- A child that is scheduled for the first time leaves the call of its parent
with result zero. -/
theorem child_returns (env : Env) (hc : w.currentProcess=c) (h0 : c≠0) (hp : p≠c)
    (hk : w.kernelContext c=⟨p,.fork c⟩) :
    returnValue M env w .resume=some 0 ∧ (kernelStep M env w .resume).cpu=.user ∧
      (kernelStep M env w .resume).currentProcess=c ∧
      (kernelStep M env w .resume).uctxt=w.userContext c := by
  subst hc
  have hcur : p≠(w.setKernelContext w.currentProcess
      ⟨w.currentProcess,.executing⟩).currentProcess := hp
  have hflow : stepFlow M env w .resume=
      .returns (w.setKernelContext w.currentProcess ⟨w.currentProcess,.executing⟩)
        (savedContext (w.setKernelContext w.currentProcess ⟨w.currentProcess,.executing⟩)) 0 := by
    dsimp only [stepFlow]
    unfold resumeFlow
    rw [hk]
    exact if_pos rfl
  rw [resume_step]
  unfold returnValue
  rw [hflow,hk]
  dsimp only [finish]
  rw [trapKernelReturn_other _ hcur h0]
  exact ⟨rfl,rfl,rfl,rfl⟩

end Children

section Runs

variable {s : Kernel} {k : KernelBrk}

/-- What holds of the states in which a process may fork. -/
structure Forkable (M : Machine) (s : Kernel) : Prop where
  /-- Stopped processes keep their registers. -/
  watched : ∃ g,Watched M s g
  /-- Mapped pages have frames that are in use. -/
  mapped : ∃ K,Mapped M M.scratchPage K s

/-- Runs can be watched although the heap grows. -/
theorem growing_watched {heap : ℤ → Prop} {ok : Kernel → Env → Input → Prop}
    (hok : ∀ s env input,ok s env input → env.switchOk=true) (h : GrowingRun M heap ok s k) :
    ∃ g,Watched M s g := by
  induction h with
  | boot b r v hb hr hv hu => exact ⟨_,booted_watched hu⟩
  | step env input _ he hs ih =>
    obtain ⟨g,hg⟩ := ih
    exact ⟨_,watched_step env hg he (hok _ _ _ hs)⟩
  | request r _ hr ih =>
    obtain ⟨g,hg⟩ := ih
    exact ⟨g,watched_memory hg _⟩

/-- Every state of a run in which the heap stays below the scratch page. -/
theorem run_forkable (hM : KernelLayout M) (ho : M.origKernelBrkPage≤M.scratchPage)
    (h : GrowingRun M (fun r => ¬ReachesScratch M r) (fun _ env _ => env.switchOk=true) s k) :
    Forkable M s := by
  have hstack : M.scratchPage≤M.kernelStackBasePage := Nat.sub_le ..
  obtain ⟨_,_,K,_,hm⟩ := run_mapped hM ⟨ho,hstack⟩ (fun r hr => requestedPage_le ho hr)
    (fun s env input hs => ⟨hs,.inr (Nat.le_refl _)⟩) h
  exact ⟨growing_watched (fun _ _ _ => id) h,K,hm⟩

/-- The registers of a trap are saved. -/
theorem entered_coherent (h : Coherent M s) (u : UserContext) :
    Coherent M (s.setUserContext s.currentProcess u) :=
  ⟨h.ready,h.block,h.home,h.owner,h.family,h.table,h.lock,h.saved,h.reader,h.writer⟩

/-- A fork that returns an identifier has made a copy of the process: its child
is new and has the same mapped pages, with the same protections and the same
bytes in frames that were free, the same bounds, and a copy of the kernel stack;
the memory of the parent is as before, and the child comes last among its
children and on the ready queue. The identifier is that of the child. When the
child is scheduled for the first time, it leaves the call with result zero. Every
state of a run in which the heap stays below the scratch page is such that a
fork does this. -/
theorem fork_copies (hM : KernelLayout M) (ho : M.origKernelBrkPage≤M.scratchPage) :
    (∀ s k,GrowingRun M (fun r => ¬ReachesScratch M r) (fun _ env _ => env.switchOk=true) s k →
      Forkable M s) ∧
    ∀ s env u rc,Forkable M s → s.cpu=.user → env.switchOk=true → u.vector=.kernel →
      M.syscallOf u.code=.fork → returnValue M env s (.trap u)=some rc → rc≠ERROR →
      ∃ c,Copied M s.currentProcess c s (kernelStep M env s (.trap u)) ∧
        (kernelStep M env s (.trap u)).pid c=rc ∧
        (kernelStep M env s (.trap u)).cpu=.user ∧
        (kernelStep M env s (.trap u)).currentProcess=s.currentProcess ∧
        (kernelStep M env s (.trap u)).uctxt=u.setResult rc ∧
        ∀ w env',Rests M c (kernelStep M env s (.trap u)) w → w.cpu=.kernel →
          w.currentProcess=c → returnValue M env' w .resume=some 0 ∧
            (kernelStep M env' w .resume).cpu=.user ∧
            (kernelStep M env' w .resume).currentProcess=c ∧
            (kernelStep M env' w .resume).uctxt=u.setResult 0 := by
  refine ⟨fun s k h => run_forkable hM ho h,fun s env u rc h hu hsw hv hcall hret hrc => ?_⟩
  obtain ⟨⟨g,hg⟩,K,hm⟩ := h
  have h0 := hg.ready.ne_null hg.ready.current_live
  have hc := entered_coherent hg.toCoherent u
  have hflow : stepFlow M env s (.trap u)=
      sysFork M env s.currentProcess u (s.setUserContext s.currentProcess u) := by
    dsimp only [stepFlow]
    unfold callFlow
    rw [hcall,saveContext_current u h0]
  have hend := trap_step (s := s) env hv (by rw [hcall]; simp)
  have hwatch : Watched M (kernelStep M env s (.trap u)) (entered s g (.trap u)) :=
    watched_step env hg hu hsw
  unfold returnValue at hret
  rw [hflow] at hret hend
  cases hf : sysFork M env s.currentProcess u (s.setUserContext s.currentProcess u) with
  | leaves t =>
    rw [hf] at hret
    cases hret
  | returns t x r =>
    rw [hf] at hret hend
    injection hret with hr
    subst hr
    obtain ⟨rfl,c,hfork⟩ := sysFork_forked hM hc hm hf hrc
    have hself : (s.setUserContext s.currentProcess x).userContext
        (s.setUserContext s.currentProcess x).currentProcess=x := Function.update_self ..
    rw [hself] at hfork
    have hcur : t.currentProcess=s.currentProcess := hfork.current
    have hne : c≠s.currentProcess := hfork.address.2
    dsimp only [finish] at hend
    rw [trapKernelReturn_own h0 hcur] at hend
    have hregs : (kernelStep M env s (.trap x)).userContext c=x.setResult 0 := by
      rw [hend]
      dsimp only [returnToUser,Kernel.setUserContext]
      rw [Function.update_of_ne hne]
      exact hfork.registers
    refine ⟨c,?_,?_,?_,?_,?_,fun w env' hw hk hwc => ?_⟩
    · rw [hend]
      exact ⟨hfork.fresh,hfork.live,hfork.space,hfork.parent,hfork.children,hfork.childless,
        hfork.ready⟩
    · rw [hend]
      exact hfork.pid
    · rw [hend]
      rfl
    · rw [hend]
      exact hcur
    · rw [hend]
      rfl
    · have hlive : (kernelStep M env s (.trap x)).live c=true := by
        rw [hend]
        exact hfork.live
      have hpoint : (kernelStep M env s (.trap x)).kernelContext c=⟨s.currentProcess,.fork c⟩ := by
        rw [hend]
        exact hfork.point
      have hlast : c∈(kernelStep M env s (.trap x)).readyQueue := by
        rw [hend]
        change c∈t.readyQueue
        rw [hfork.ready]
        exact List.mem_append_right _ List.mem_cons_self
      have hstate := (hwatch.ready.mem c hlast).2.2
      obtain ⟨_,_,_,hkc,hreg⟩ := rests_kept hw ⟨_,hwatch⟩ hlive (by rw [hstate]; decide) hpoint
      rw [←hregs,←hreg]
      exact child_returns env' hwc hfork.address.1 hne.symm hkc

/-- The initial process forks, and the next tick schedules its child. -/
theorem fork_copies_child : ∃ s w k c,
    GrowingRun sampleMachine (fun r => ¬ReachesScratch sampleMachine r)
      (fun _ env _ => env.switchOk=true) s k ∧
    Copied sampleMachine 2 c s (kernelStep sampleMachine (forkInput 3 2).1 s (forkInput 3 2).2) ∧
    Rests sampleMachine c (kernelStep sampleMachine (forkInput 3 2).1 s (forkInput 3 2).2) w ∧
    w.cpu=.kernel ∧ w.currentProcess=c ∧
    returnValue sampleMachine (sampleEnv 0 0) w .resume=some 0 := by
  have hboot : GrowingRun sampleMachine (fun r => ¬ReachesScratch sampleMachine r)
      (fun _ env _ => env.switchOk=true) (kernelStart sampleMachine sampleBoot) sampleVm.brk := by
    refine .boot sampleBoot (sampleRequests []) sampleVm (sampleBoot_heap rfl rfl) ?_
      sampleVm_reached sampleBoot_user
    unfold ReachesScratch
    decide
  have hcopies := fork_copies sampleMachine_layout (by decide)
  obtain ⟨c,hcopy,hpid,hu,_,_,hchild⟩ := hcopies.2 (kernelStart sampleMachine sampleBoot)
    (forkInput 3 2).1 (sampleContext .kernel 1 0 0 0) 2 (hcopies.1 _ _ hboot) sampleBoot_user rfl
    rfl (by decide) (by decide +kernel) (by decide)
  have hlast : (kernelStep sampleMachine (forkInput 3 2).1 (kernelStart sampleMachine sampleBoot)
      (forkInput 3 2).2).readyQueue=[3] := by decide +kernel
  have hc : c=3 := by
    have hready := hcopy.ready
    have hfirst : (kernelStart sampleMachine sampleBoot).readyQueue=[] := by decide +kernel
    rw [hfirst] at hready
    have hlist : [3]=[c] := hlast.symm.trans hready
    injection hlist with hc
    exact hc.symm
  subst hc
  have htick : (kernelStep sampleMachine (sampleEnv 0 0) forked tickInput.2).cpu=.kernel ∧
      (kernelStep sampleMachine (sampleEnv 0 0) forked tickInput.2).currentProcess=3 ∧
      forked.currentProcess=2 := by decide +kernel
  have hrest : Rests sampleMachine 3 forked
      (kernelStep sampleMachine (sampleEnv 0 0) forked tickInput.2) := by
    refine .step (sampleEnv 0 0) tickInput.2 .refl hu rfl ?_
    rw [htick.2.2]
    decide
  exact ⟨_,_,_,3,hboot,hcopy,hrest,htick.1,htick.2.1,(hchild _ _ hrest htick.1 htick.2.1).1⟩

end Runs

end Yalnix.ForkCopies
