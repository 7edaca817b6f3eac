import Yalnix.FramePartition
import Yalnix.UserBreak
import Yalnix.ForkCopies

/-!
# Frames that are written

Taking frames, giving them back and mapping them writes nothing. A fork writes
frames that were free. An image is written through the table of the process
that loads it, so that only frames of that table are written.
-/

namespace Yalnix.PageContents

open Framework FrameTable KernelState Scheduling Ipc Terminals ProcessLifetime ProgramLoading
open Syscalls Traps Coherence Operations OperationCoherence AddressSpaces

variable {M : Machine} {env : Env} {m m' m₁ : Memory} {pt pt' src : PageTable} {page : ℤ}
  {n f : ℕ} {prot : Prot} {pfns pfns' : ℕ → ℕ} {v v' : UserSpace} {q : Prop}

section Loops

/-- Taking a frame writes none. -/
theorem frameAlloc_contents {pfn : ℕ} (h : frameAlloc m=some (pfn,m')) :
    m'.contents=m.contents := by
  obtain ⟨_,_,rfl⟩ := frameAlloc_eq h
  rfl

/-- A frame is given back. -/
theorem frameFree_contents (m : Memory) (pfn : ℕ) : (frameFree m pfn).contents=m.contents := by
  unfold frameFree
  split <;> rfl

/-- Entries of a table are freed. -/
theorem freeEntries_contents (l : List ℕ) (m : Memory) (pt : PageTable) :
    (freePageTableEntries M l m pt).1.contents=m.contents := by
  induction l generalizing m pt with
  | nil => rfl
  | cons i rest ih =>
    unfold freePageTableEntries
    split
    · exact (ih _ _).trans (frameFree_contents m _)
    · exact ih m pt

/-- Slots of a kernel stack are freed. -/
theorem freeSlots_contents (l : List ℕ) (pfns : ℕ → ℕ) (m : Memory) :
    (freeKernelStackSlots l pfns m).1.contents=m.contents := by
  induction l generalizing m pfns with
  | nil => rfl
  | cons i rest ih =>
    unfold freeKernelStackSlots
    split
    · exact (ih _ _).trans (frameFree_contents m _)
    · exact ih _ m

/-- A partial kernel stack is undone. -/
theorem undoStack_contents (pfns : ℕ → ℕ) (n : ℕ) (m : Memory) :
    (undoKernelStack pfns n m).contents=m.contents := by
  induction n generalizing m with
  | zero => rfl
  | succ n ih => exact (ih _).trans (frameFree_contents m _)

/-- A kernel stack is allocated or undone. -/
theorem allocStack_contents (n k : ℕ) (pfns : ℕ → ℕ) (m : Memory) :
    (allocKernelStackFrom n k pfns m).1.contents=m.contents := by
  induction n generalizing k pfns m with
  | zero => rfl
  | succ n ih =>
    unfold allocKernelStackFrom
    split
    · exact undoStack_contents pfns k m
    · rename_i ha
      exact (ih _ _ _).trans (frameAlloc_contents ha)

/-- Mapping a range writes no frame. -/
theorem mapRangeFrom_contents (prot : Prot) (n : ℕ) (page : ℤ) (m : Memory) (pt : PageTable) :
    (mapRangeFrom M prot n page m pt).1.contents=m.contents := by
  induction n generalizing page m pt with
  | zero => rfl
  | succ n ih =>
    unfold mapRangeFrom
    split
    · rfl
    · rename_i ha
      split
      · exact (frameFree_contents _ _).trans (frameAlloc_contents ha)
      · exact (ih _ _ _).trans (frameAlloc_contents ha)

/-- A growing stack writes no frame. -/
theorem growStackPages_contents (n : ℕ) (page : ℤ) (m : Memory) (pt : PageTable) :
    (growStackPages M n page m pt).1.contents=m.contents := by
  induction n generalizing page m pt with
  | zero => rfl
  | succ n ih =>
    unfold growStackPages
    split
    · rfl
    · rename_i ha
      split
      · exact (frameFree_contents _ _).trans (frameAlloc_contents ha)
      · exact (ih _ _ _).trans (frameAlloc_contents ha)

/-- Undoing a growth writes no frame. -/
theorem undoPages_contents (page : ℤ) (n : ℕ) (m : Memory) (pt : PageTable) :
    (undoPages M page n m pt).1.contents=m.contents := by
  induction n generalizing m pt with
  | zero => rfl
  | succ n ih => exact (ih _ _).trans (frameFree_contents m _)

/-- A growing heap writes no frame. -/
theorem growPages_contents (page : ℤ) (n k : ℕ) (m : Memory) (pt : PageTable) :
    (growPages M page n k m pt).1.contents=m.contents := by
  induction n generalizing k m pt with
  | zero => rfl
  | succ n ih =>
    unfold growPages
    split
    · exact undoPages_contents page k m pt
    · rename_i ha
      split
      · exact (undoPages_contents page k _ pt).trans
          ((frameFree_contents _ _).trans (frameAlloc_contents ha))
      · exact (ih _ _ _).trans (frameAlloc_contents ha)

/-- A shrinking heap writes no frame. -/
theorem shrinkPages_contents (n : ℕ) (page : ℤ) (m : Memory) (pt : PageTable) :
    (shrinkPages M n page m pt).1.contents=m.contents := by
  induction n generalizing page m pt with
  | zero => rfl
  | succ n ih =>
    unfold shrinkPages
    split
    · exact (ih _ _ _).trans (frameFree_contents m _)
    · exact ih _ m pt

/-- A moved break writes no frame. -/
theorem moveBrk_contents (M : Machine) (m : Memory) (v : UserSpace) (addr : ℕ) :
    (moveBrk M m v addr).1.contents=m.contents := by
  unfold moveBrk
  split
  · rfl
  · dsimp only
    split
    · rename_i m₁ pt₁ hg
      have hc := growPages_contents (M := M) (M.region1Page (M.upToPage v.userBrk))
        (M.region1Page (M.upToPage addr)-M.region1Page (M.upToPage v.userBrk)).toNat 0 m v.region1Pt
      rw [hg] at hc
      exact hc
    · rename_i m₁ pt₁ hg
      have hc := growPages_contents (M := M) (M.region1Page (M.upToPage v.userBrk))
        (M.region1Page (M.upToPage addr)-M.region1Page (M.upToPage v.userBrk)).toNat 0 m v.region1Pt
      rw [hg] at hc
      exact (shrinkPages_contents _ _ _ _).trans hc

/-- ProcessGrowStack writes no frame. -/
theorem growStack_contents (M : Machine) (m : Memory) (v : UserSpace) (addr : ℕ) :
    (growStack M m v addr).1.contents=m.contents := by
  unfold growStack
  split
  · rfl
  · split
    · rfl
    · have hc := growStackPages_contents (M := M) (v.userStackLowPage-M.region1Page addr).toNat
        (v.userStackLowPage-1) m v.region1Pt
      split
      · rename_i m₁ pt₁ hg
        rw [hg] at hc
        exact hc
      · rename_i m₁ pt₁ hg
        rw [hg] at hc
        exact hc

/-- Mapping an image writes nothing. -/
theorem mapImage_contents {li : LoadInfo} {args : List (List UInt8)} {ok : Bool}
    (h : mapImage M li args m pt=(m',pt',ok)) : m'.contents=m.contents := by
  have htext := mapRangeFrom_contents (M := M) protReadWrite li.tNpg.toNat (textPg M li) m pt
  unfold mapImage at h
  split at h
  · rename_i m₁ pt₁ h₁
    unfold mapRange at h₁
    rw [h₁] at htext
    cases h
    exact htext
  · rename_i m₁ pt₁ h₁
    unfold mapRange at h₁
    rw [h₁] at htext
    have hdata := mapRangeFrom_contents (M := M) protReadWrite (dataNpg li).toNat (dataPg M li) m₁
      pt₁
    split at h
    · rename_i m₂ pt₂ h₂
      unfold mapRange at h₂
      rw [h₂] at hdata
      cases h
      exact hdata.trans htext
    · rename_i m₂ pt₂ h₂
      unfold mapRange at h₂ h
      rw [h₂] at hdata
      have hstack := mapRangeFrom_contents (M := M) protReadWrite (stackNpg M args).toNat
        (stackBasePg M args) m₂ pt₂
      rw [h] at hstack
      exact hstack.trans (hdata.trans htext)

end Loops

section Stores

variable {src' : ℕ → UInt8} {a : ℤ} {c : ℕ → ℕ → UInt8}

/-- A table does not lead to a frame. -/
def Misses (M : Machine) (pt : PageTable) (f : ℕ) : Prop := ∀ i<M.maxPtLen,(pt i).pfn≠f

/-- A byte stored through a table that misses a frame does not reach it. -/
theorem storeByte_misses (h : Misses M pt f) (a : ℤ) (b : UInt8) :
    storeByte M pt c a b f=c f := by
  unfold storeByte
  split
  · rfl
  · rename_i ha
    refine Function.update_of_ne (Ne.symm (h _ ?_)) _ _
    obtain ⟨k,hk⟩ := M.pageSize_dvd_base
    have hp := M.pageSize_pos
    have hlt : a.toNat<M.vmem1Base+M.maxPtLen*M.pageSize := by
      unfold Machine.vmem1Limit at ha
      omega
    have hdiv : a.toNat/M.pageSize<k+M.maxPtLen := by
      rw [Nat.div_lt_iff_lt_mul hp,Nat.add_mul,Nat.mul_comm k,←hk]
      exact hlt
    have hbase : M.vmem1Base/M.pageSize=k := by
      rw [hk,Nat.mul_div_cancel_left k hp]
    rw [hbase]
    have := M.maxPtLen_pos
    omega

/-- Bytes stored through a table that misses a frame do not reach it. -/
theorem storeBytes_misses (h : Misses M pt f) (src' : ℕ → UInt8) (a : ℤ) (n : ℕ) :
    storeBytes M pt src' a n c f=c f := by
  induction n with
  | zero => rfl
  | succ n ih => exact (storeByte_misses h _ _).trans ih

/-- Arguments stored through a table that misses a frame do not reach it. -/
theorem storeArgs_misses (h : Misses M pt f) (args : List (List UInt8)) (cpp cp : ℤ) :
    storeArgs M pt args cpp cp c f=c f := by
  induction args generalizing cpp cp c with
  | nil => exact (storeBytes_misses h _ _ _).trans (storeBytes_misses h _ _ _)
  | cons arg rest ih =>
    exact (ih _ _).trans ((storeBytes_misses h _ _ _).trans (storeBytes_misses h _ _ _))

/-- A stack filled through a table that misses a frame does not reach it. -/
theorem storeStack_misses (h : Misses M pt f) (args : List (List UInt8)) :
    storeStack M pt args c f=c f :=
  (storeArgs_misses h _ _ _).trans ((storeBytes_misses h _ _ _).trans (storeBytes_misses h _ _ _))

/-- A freed and mapped image is not yet written. -/
theorem loading_contents {args : List (List UInt8)} {li : LoadInfo} {ok : Bool}
    (h : Loading M env args m v li m₁ pt ok) : m₁.contents=m.contents :=
  (mapImage_contents h.image).trans (freeEntries_contents _ _ _)

/-- A segment read through a table that misses a frame does not reach it. -/
theorem readSegment_misses {faddr vaddr : ℕ} {npg : ℤ} {c' : ℕ → ℕ → UInt8}
    (h : readSegment M env faddr vaddr npg pt c=some c') (hf : Misses M pt f) : c' f=c f := by
  obtain ⟨bytes,hread⟩ := readSegment_some h
  rw [hread.stored]
  exact storeBytes_misses hf _ _ _

/-- Whatever comes of the filling of an image, its stores go through the pages
of the image. -/
theorem fillImage_misses {args : List (List UInt8)} {li : LoadInfo} {argbuf : ℕ} {r : Resources}
    {m₁ : Memory} {w : UserSpace} (hf : Misses M w.region1Pt f) :
    (∀ m' v' pc sp,(fillImageRun M env li args argbuf m₁ w r).1=.success m' v' pc sp →
      m'.contents f=m₁.contents f) ∧
    (∀ m' v',(fillImageRun M env li args argbuf m₁ w r).1=.kill m' v' →
      m'.contents f=m₁.contents f) ∧
    (∀ m' v',(fillImageRun M env li args argbuf m₁ w r).1=.fault m' v' →
      m'.contents f=m₁.contents f) := by
  unfold fillImageRun
  cases htext : readSegment M env li.tFaddr li.tVaddr li.tNpg w.region1Pt m₁.contents with
  | none =>
    refine ⟨fun m' v' pc sp h => (by cases h),fun m' v' h => ?_,fun m' v' h => (by cases h)⟩
    injection h with hm _
    rw [hm]
  | some c =>
    have hc := readSegment_misses htext hf
    dsimp only
    cases hdata : readSegment M env li.idFaddr li.idVaddr li.idNpg w.region1Pt c with
    | none =>
      refine ⟨fun m' v' pc sp h => (by cases h),fun m' v' h => ?_,fun m' v' h => (by cases h)⟩
      injection h with hm _
      rw [←hm]
      exact hc
    | some c' =>
      have hc' := (readSegment_misses hdata hf).trans hc
      dsimp only
      split
      · refine ⟨fun m' v' pc sp h => ?_,fun m' v' h => (by cases h),fun m' v' h => (by cases h)⟩
        injection h with hm _ _ _
        rw [←hm]
        exact (storeStack_misses hf _).trans ((storeBytes_misses hf _ _ _).trans hc')
      · refine ⟨fun m' v' pc sp h => (by cases h),fun m' v' h => (by cases h),fun m' v' h => ?_⟩
        injection h with hm _
        rw [←hm]
        exact hc'

/-- The protection of text moves no frame. -/
theorem protectText_misses {page : ℤ} (h : Misses M (protectText n page pt) f) :
    Misses M pt f := by
  intro i hi
  have hne := h i hi
  rwa [(protectText_valid i).2] at hne

/-- A program is written through the new table. -/
theorem loaded_misses {args : List (List UInt8)} {pc : ℕ} {sp : ℤ}
    (h : loadProgram M env args n m v=.success m' v' pc sp) (hf : Misses M v'.region1Pt f) :
    m'.contents f=m.contents f := by
  obtain ⟨li,m₁,pt₁,ok,hload,heq⟩ := loadProgram_past (by rw [h]; simp)
  rw [h] at heq
  cases ok with
  | false => cases heq
  | true =>
    rw [if_pos rfl] at heq
    obtain ⟨text,data,hfill⟩ := fillImage_success heq.symm
    rw [hfill.space] at hf
    have hpt : Misses M pt₁ f := protectText_misses hf
    rw [(fillImage_misses (w := {v with region1Pt := pt₁}) hpt).1 _ _ _ _ heq.symm,
      loading_contents hload]

/-- So is one that could not be completed. -/
theorem killed_misses {args : List (List UInt8)}
    (h : loadProgram M env args n m v=.kill m' v') (hf : Misses M v'.region1Pt f) :
    m'.contents f=m.contents f := by
  obtain ⟨li,m₁,pt₁,ok,hload,heq⟩ := loadProgram_past (by rw [h]; simp)
  rw [h] at heq
  cases ok with
  | false =>
    injection heq with hm hv
    rw [hm,loading_contents hload]
  | true =>
    rw [if_pos rfl] at heq
    rw [(fillImage_kill heq.symm).2] at hf
    rw [(fillImage_misses (w := {v with region1Pt := pt₁}) hf).2.1 _ _ heq.symm,
      loading_contents hload]

/-- And so is one whose filling stopped the kernel. -/
theorem faulted_misses {args : List (List UInt8)}
    (h : loadProgram M env args n m v=.fault m' v') (hf : Misses M v'.region1Pt f) :
    m'.contents f=m.contents f := by
  obtain ⟨li,m₁,pt₁,ok,hload,heq⟩ := loadProgram_past (by rw [h]; simp)
  rw [h] at heq
  cases ok with
  | false => cases heq
  | true =>
    rw [if_pos rfl] at heq
    rw [(fillImage_fault heq.symm).2.1] at hf
    have hpt : Misses M pt₁ f := protectText_misses hf
    rw [(fillImage_misses (w := {v with region1Pt := pt₁}) hpt).2.2 _ _ heq.symm,
      loading_contents hload]

/-- Changes of a live address space. -/
theorem spaceStep_misses (h : SpaceStep M env q m v m' v') (hf : Misses M v'.region1Pt f) :
    m'.contents f=m.contents f := by
  cases h with
  | brk addr => exact congrFun (moveBrk_contents M m v addr) f
  | grow addr hg => exact congrFun (growStack_contents M m v addr) f
  | exec hi hl => exact loaded_misses hl hf

/-- The end of an address space. -/
theorem spaceEnd_misses (h : SpaceEnd M env q m v m' v') (hf : Misses M v'.region1Pt f) :
    m'.contents f=m.contents f := by
  cases h with
  | kept => rfl
  | grow addr hg => exact congrFun (growStack_contents M m v addr) f
  | exec hi hl => exact killed_misses hl hf
  | fault hi hl => exact faulted_misses hl hf

end Stores

end Yalnix.PageContents
