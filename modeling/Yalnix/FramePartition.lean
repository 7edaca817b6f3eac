import Mathlib.Data.Sum.Basic
import Yalnix.Placement
import Yalnix.TableLoops

/-!
# Ownership of physical frames

The frames marked in the frame table are in one slot each: a frame reserved at
boot, a mapped page of a process, or a page of a kernel stack. Every loop over
page tables and kernel stacks is studied beside arbitrary other slots, with
each point at which the frames can run out.
-/

namespace Yalnix.FramePartition

open Framework FrameTable KernelState Scheduling Ipc Terminals ProcessLifetime ProgramLoading
open Syscalls Traps KernelStart Coherence Operations OperationCoherence CallOperations
open RunInvariants Traces AddressSpaces Placement TableLoops

variable {M : Machine} {m m' : Memory} {pt pt' src : PageTable} {page : ℤ} {n pfn : ℕ} {prot : Prot}
  {σ : Type*} {rest slot : σ → Option ℕ} {pfns : ℕ → ℕ}

section Slots

/-- The marked frames exist and are in one slot each. -/
structure Accounted (m : Memory) (slot : σ → Option ℕ) : Prop where
  /-- Marked is what is in a slot. -/
  filed : Filed (fun f => m.frameAllocated f=true) slot
  /-- Every marked frame is one of the machine. -/
  bounded : ∀ f,m.frameAllocated f=true → f< m.physicalFrameCount

/-- Page tables and contents do not matter. -/
theorem Accounted.sameFrames (h : Accounted m slot) (hf : m'.frameAllocated=m.frameAllocated)
    (hn : m'.physicalFrameCount=m.physicalFrameCount) : Accounted m' slot := by
  refine ⟨?_,fun f hm => ?_⟩
  · rw [hf]
    exact h.filed
  · rw [hf] at hm
    rw [hn]
    exact h.bounded f hm

variable [DecidableEq σ] {x : σ} {f : ℕ}

/-- A frame is taken for an empty slot. -/
theorem Accounted.alloc (h : Accounted m slot) (ha : frameAlloc m=some (pfn,m'))
    (hx : slot x=none) : Accounted m' (Function.update slot x (some pfn)) := by
  obtain ⟨hfree,hlt,rfl⟩ := frameAlloc_eq ha
  have hm : ∀ c,Function.update m.frameAllocated pfn true c=true ↔
      m.frameAllocated c=true ∨ c=pfn := by
    intro c
    by_cases hc : c=pfn
    · rw [hc,Function.update_self]
      exact ⟨fun _ => .inr rfl,fun _ => rfl⟩
    · rw [Function.update_of_ne hc]
      exact ⟨.inl,fun ho => ho.resolve_right hc⟩
  refine ⟨h.filed.fill hx (by rw [hfree]; decide) hm,fun c hc => ?_⟩
  rcases (hm c).1 hc with hc|hc
  · exact h.bounded c hc
  · rw [hc]
    exact hlt

/-- The frame of a slot is given back. -/
theorem Accounted.free (h : Accounted m slot) (hx : slot x=some f) :
    Accounted (frameFree m f) (Function.update slot x none) := by
  have hmarked : m.frameAllocated f=true := (h.filed.held f).2 ⟨x,hx⟩
  unfold frameFree
  rw [if_neg (by have := h.bounded f hmarked; omega)]
  have hm : ∀ c,Function.update m.frameAllocated f false c=true ↔
      m.frameAllocated c=true ∧ c≠f := by
    intro c
    by_cases hc : c=f
    · rw [hc,Function.update_self]
      exact ⟨fun ho => (by cases ho),fun ho => absurd rfl ho.2⟩
    · rw [Function.update_of_ne hc]
      exact ⟨fun ho => ⟨ho,hc⟩,And.left⟩
  exact ⟨h.filed.clear hx hm,fun c hc => h.bounded c ((hm c).1 hc).1⟩

end Slots

section Loops

variable [DecidableEq σ]

/-- The frames of the mapped pages of a table. -/
def tableSlots (M : Machine) (pt : PageTable) (i : ℕ) : Option ℕ :=
  if i<M.maxPtLen ∧ (pt i).valid=true then some (pt i).pfn else none

/-- The first n frames of a kernel stack. -/
def stackSlots (n : ℕ) (pfns : ℕ → ℕ) (i : ℕ) : Option ℕ := if i<n then some (pfns i) else none

/-- A page that is not mapped has no frame. -/
theorem tableSlots_invalid {i : ℕ} (h : (pt i).valid=false) : tableSlots M pt i=none := by
  unfold tableSlots
  rw [if_neg (by rw [h]; simp)]

/-- A table without mapped pages has no frames. -/
theorem tableSlots_empty (h : ∀ i<M.maxPtLen,(pt i).valid=false) :
    tableSlots M pt=fun _ => none := by
  funext i
  unfold tableSlots
  rw [if_neg]
  rintro ⟨hi,hv⟩
  rw [h i hi] at hv
  cases hv

/-- An empty table has no frames. -/
theorem tableSlots_zero : tableSlots M (fun _ => zeroPte)=fun _ => none :=
  tableSlots_empty (fun _ _ => rfl)

/-- Tables with the same mapped pages and frames. -/
theorem tableSlots_congr (h : ∀ i,(pt' i).valid=(pt i).valid ∧ (pt' i).pfn=(pt i).pfn) :
    tableSlots M pt'=tableSlots M pt := by
  funext i
  unfold tableSlots
  rw [(h i).1,(h i).2]

/-- A page is mapped to a new frame. -/
theorem Accounted.mapPage (h : Accounted m (Sum.elim rest (tableSlots M pt)))
    (ha : frameAlloc m=some (pfn,m')) (hm : memoryMapPage M pt page pfn prot=some pt')
    (hv : ∀ i : ℕ,(i : ℤ)=page → (pt i).valid=false) :
    Accounted m' (Sum.elim rest (tableSlots M pt')) := by
  obtain ⟨h0,h1,rfl⟩ := mapPage_eq hm
  have ht : tableSlots M (Function.update pt page.toNat ⟨true,prot,pfn⟩)=
      Function.update (tableSlots M pt) page.toNat (some pfn) := by
    funext i
    by_cases hi : i=page.toNat
    · unfold tableSlots
      rw [hi,Function.update_self,Function.update_self,if_pos ⟨by omega,rfl⟩]
    · rw [Function.update_of_ne hi]
      unfold tableSlots
      rw [Function.update_of_ne hi]
  rw [ht,←Sum.update_elim_inr]
  exact h.alloc ha (tableSlots_invalid (hv _ (by omega)))

/-- A mapped page is unmapped and its frame given back. -/
theorem Accounted.unmapPage (h : Accounted m (Sum.elim rest (tableSlots M pt))) (h0 : 0≤page)
    (h1 : page<M.maxPtLen) (hv : (pt page.toNat).valid=true) :
    Accounted (frameFree m (pt page.toNat).pfn)
      (Sum.elim rest (tableSlots M (memoryUnmapPage M pt page))) := by
  have ht : tableSlots M (memoryUnmapPage M pt page)=
      Function.update (tableSlots M pt) page.toNat none := by
    rw [unmapPage_eq h0 h1]
    funext i
    by_cases hi : i=page.toNat
    · rw [hi,Function.update_self]
      exact tableSlots_invalid (by rw [Function.update_self]; rfl)
    · rw [Function.update_of_ne hi]
      unfold tableSlots
      rw [Function.update_of_ne hi]
  rw [ht,←Sum.update_elim_inr]
  refine h.free ?_
  rw [Sum.elim_inr]
  unfold tableSlots
  rw [if_pos ⟨by omega,hv⟩]

/-- Loops over a table account for its frames. -/
theorem accounted_rule : TableRule M (fun _ => True) True True
    (fun m pt => Accounted m (Sum.elim rest (tableSlots M pt))) where
  map h ha hm hv := h.mapPage ha hm (hv trivial)
  unmap h ho := by
    obtain ⟨h0,h1,_,hv⟩ := ho trivial
    exact h.unmapPage h0 h1 hv
  store _ h := h.sameFrames rfl rfl
  protect h _ _ := by
    rw [tableSlots_congr protectText_valid]
    exact h

/-- All pages of a table are unmapped. -/
theorem Accounted.freeTable (h : Accounted m (Sum.elim rest (tableSlots M pt))) :
    Accounted (memoryFreePageTableFrames M m pt).1
      (Sum.elim rest (tableSlots M (memoryFreePageTableFrames M m pt).2)) :=
  accounted_rule.freeTable (fun _ _ => trivial) h

omit [DecidableEq σ] in
/-- Slots without a frame may be added. -/
theorem Accounted.extend (h : Accounted m slot) :
    Accounted m (Sum.elim slot (fun _ : ℕ => none)) := by
  refine ⟨h.filed.move .inl (fun y b => ?_),h.bounded⟩
  constructor
  · intro hy
    rcases y with y|k
    · exact ⟨y,hy,rfl⟩
    · cases hy
  · rintro ⟨x,hx,rfl⟩
    exact hx

omit [DecidableEq σ] in
/-- Slots without a frame may be dropped. -/
theorem Accounted.drop (h : Accounted m (Sum.elim slot (fun _ : ℕ => none))) :
    Accounted m slot := by
  refine ⟨⟨fun b => ?_,fun b x y hx hy => ?_⟩,h.bounded⟩
  · rw [h.filed.held b]
    constructor
    · rintro ⟨y|k,hy⟩
      · exact ⟨y,hy⟩
      · cases hy
    · rintro ⟨x,hx⟩
      exact ⟨.inl x,hx⟩
  · have he := h.filed.unique b (.inl x) (.inl y) hx hy
    injection he

/-- The pages of a table are copied into frames of their own, or none is kept. -/
theorem Accounted.copyPages {l : List ℕ} (h : Accounted m (Sum.elim rest (tableSlots M pt)))
    (hl : l.Nodup) (hv : ∀ i∈l,(pt i).valid=false) :
    match copyRegion1Pages M src l m pt with
    | (m',some pt') => Accounted m' (Sum.elim rest (tableSlots M pt'))
    | (m',none) => Accounted m' rest := by
  have hfree : ∀ {m pt},Accounted m (Sum.elim rest (tableSlots M pt)) →
      Accounted (memoryFreePageTableFrames M m pt).1 rest := by
    intro m pt h
    have hf := h.freeTable
    rw [tableSlots_empty (fun i hi => freed_invalid hi)] at hf
    exact hf.drop
  induction l generalizing m pt with
  | nil => exact h.sameFrames rfl rfl
  | cons j l ih =>
    obtain ⟨hj,hl'⟩ := List.nodup_cons.1 hl
    unfold copyRegion1Pages
    by_cases hjv : (src j).valid=true
    · rw [if_pos hjv]
      cases ha : frameAlloc m with
      | none => exact hfree h
      | some x =>
        obtain ⟨f,m₁⟩ := x
        dsimp only
        cases hm : memoryMapPage M pt j f (src j).prot with
        | none =>
          dsimp only
          rw [frameFree_alloc ha]
          exact hfree h
        | some pt₁ =>
          dsimp only
          have hn := h.mapPage ha hm (fun i hi => by
            have hij : i=j := by omega
            rw [hij]
            exact hv j List.mem_cons_self)
          refine ih (hn.sameFrames rfl rfl) hl' (fun i hi => ?_)
          have hij : i≠j := fun he => hj (he ▸ hi)
          obtain ⟨h0,_,rfl⟩ := mapPage_eq hm
          rw [update_page h0,if_neg (by omega)]
          exact hv i (List.mem_cons_of_mem _ hi)
    · rw [if_neg hjv]
      exact ih h hl' (fun i hi => hv i (List.mem_cons_of_mem _ hi))

/-- The frames of a partial kernel stack are given back. -/
theorem Accounted.undoStack (h : Accounted m (Sum.elim rest (stackSlots n pfns))) :
    Accounted (undoKernelStack pfns n m) rest := by
  induction n generalizing m with
  | zero => exact h.drop
  | succ n ih =>
    unfold undoKernelStack
    have hs : stackSlots n pfns=Function.update (stackSlots (n+1) pfns) n none := by
      funext i
      by_cases hi : i=n
      · rw [hi,Function.update_self]
        exact if_neg (Nat.lt_irrefl n)
      · rw [Function.update_of_ne hi]
        unfold stackSlots
        by_cases hlt : i<n
        · rw [if_pos hlt,if_pos (by omega)]
        · rw [if_neg hlt,if_neg (by omega)]
    refine ih ?_
    rw [hs,←Sum.update_elim_inr]
    exact h.free (if_pos (Nat.lt_succ_self n))

/-- A kernel stack is completed, or none of it is kept. -/
theorem Accounted.allocStack {k : ℕ} (h : Accounted m (Sum.elim rest (stackSlots k pfns))) :
    match allocKernelStackFrom n k pfns m with
    | (m',some pfns') => Accounted m' (Sum.elim rest (stackSlots (k+n) pfns'))
    | (m',none) => Accounted m' rest := by
  induction n generalizing k pfns m with
  | zero => exact h
  | succ n ih =>
    unfold allocKernelStackFrom
    cases ha : frameAlloc m with
    | none => exact h.undoStack
    | some x =>
      obtain ⟨f,m₁⟩ := x
      dsimp only
      have hs : stackSlots (k+1) (Function.update pfns k f)=
          Function.update (stackSlots k pfns) k (some f) := by
        funext i
        by_cases hi : i=k
        · rw [hi,Function.update_self]
          unfold stackSlots
          rw [if_pos (Nat.lt_succ_self k),Function.update_self]
        · rw [Function.update_of_ne hi]
          unfold stackSlots
          rw [Function.update_of_ne hi]
          by_cases hlt : i<k
          · rw [if_pos hlt,if_pos (by omega)]
          · rw [if_neg hlt,if_neg (by omega)]
      have hn : Accounted m₁ (Sum.elim rest (stackSlots (k+1) (Function.update pfns k f))) := by
        rw [hs,←Sum.update_elim_inr]
        exact h.alloc ha (if_neg (Nat.lt_irrefl k))
      have hk : k+1+n=k+(n+1) := by omega
      rw [←hk]
      exact ih hn

/-- The listed frames of a kernel stack are given back. -/
theorem Accounted.freeStackSlots {l : List ℕ}
    (h : Accounted m (Sum.elim rest (fun i => if i∈l then some (pfns i) else none)))
    (hl : l.Nodup) (h0 : ∀ i∈l,pfns i≠0) : Accounted (freeKernelStackSlots l pfns m).1 rest := by
  induction l generalizing pfns m with
  | nil =>
    have he : (fun i => if i∈([] : List ℕ) then some (pfns i) else none)=fun _ => none := by
      funext i
      exact if_neg List.not_mem_nil
    rw [he] at h
    exact h.drop
  | cons j l ih =>
    obtain ⟨hj,hl'⟩ := List.nodup_cons.1 hl
    unfold freeKernelStackSlots
    rw [if_pos (h0 j List.mem_cons_self)]
    have hs : (fun i => if i∈l then some (Function.update pfns j 0 i) else none)=
        Function.update (fun i => if i∈j::l then some (pfns i) else none) j none := by
      funext i
      by_cases hi : i=j
      · rw [hi,if_neg hj,Function.update_self]
      · rw [Function.update_of_ne hi,Function.update_of_ne hi]
        by_cases hm : i∈l
        · rw [if_pos hm,if_pos (List.mem_cons_of_mem _ hm)]
        · rw [if_neg hm,if_neg (by rw [List.mem_cons]; exact fun ho => ho.elim hi hm)]
    refine ih ?_ hl' (fun i hi => ?_)
    · rw [hs,←Sum.update_elim_inr]
      exact h.free (if_pos List.mem_cons_self)
    · have hij : i≠j := fun he => hj (he ▸ hi)
      rw [Function.update_of_ne hij]
      exact h0 i (List.mem_cons_of_mem _ hi)

/-- A kernel stack is given back. Frame zero belongs to the kernel image, so
that no frame of the stack is taken as absent. -/
theorem Accounted.freeStack {x : σ}
    (h : Accounted m (Sum.elim rest (stackSlots M.kernelStackPages pfns))) (h0 : rest x=some 0) :
    Accounted (processFreeKernelStack M m pfns).1 rest := by
  have hs : stackSlots M.kernelStackPages pfns=
      fun i => if i∈List.range M.kernelStackPages then some (pfns i) else none := by
    funext i
    by_cases hi : i<M.kernelStackPages
    · rw [if_pos (List.mem_range.2 hi)]
      exact if_pos hi
    · rw [if_neg (fun hm => hi (List.mem_range.1 hm))]
      exact if_neg hi
  have hne : ∀ i∈List.range M.kernelStackPages,pfns i≠0 := by
    intro i hi he
    have hslot : stackSlots M.kernelStackPages pfns i=some 0 := by
      rw [hs]
      dsimp only
      rw [if_pos hi,he]
    have hsame := h.filed.unique 0 (.inl x) (.inr i) h0 hslot
    cases hsame
  rw [hs] at h
  exact h.freeStackSlots List.nodup_range hne

end Loops

section Spaces

variable [DecidableEq σ] {v v' : UserSpace} {env : Env} {args : List (List UInt8)} {li : LoadInfo}
  {addr : ℕ} {q : Prop} {ok : Bool}

/-- An image that was mapped accounts for its frames. -/
theorem Accounted.load {m₁ : Memory} {pt₁ : PageTable}
    (h : Accounted m (Sum.elim rest (tableSlots M v.region1Pt))) (hli : LoadInfoOk M env)
    (hl : Loading M env args m v li m₁ pt₁ ok) :
    Accounted m₁ (Sum.elim rest (tableSlots M pt₁)) :=
  accounted_rule.load (fun _ _ => trivial) h (fun _ => hli) hl

/-- Every change of a live address space accounts for its frames. -/
theorem Accounted.spaceStep (h : Accounted m (Sum.elim rest (tableSlots M v.region1Pt)))
    (hv : LayoutOk M v) (hli : LoadInfoOk M env) (hs : SpaceStep M env q m v m' v') :
    Accounted m' (Sum.elim rest (tableSlots M v'.region1Pt)) :=
  accounted_rule.spaceStep (fun _ _ => trivial) h (fun _ => layout_heapInside hv) (fun _ => hv)
    (fun _ => hli) hs

/-- So does what is left of an address space. -/
theorem Accounted.spaceEnd (h : Accounted m (Sum.elim rest (tableSlots M v.region1Pt)))
    (hv : LayoutOk M v) (hli : LoadInfoOk M env) (hs : SpaceEnd M env q m v m' v') :
    Accounted m' (Sum.elim rest (tableSlots M v'.region1Pt)) :=
  accounted_rule.spaceEnd (fun _ _ => trivial) h (fun _ => hv) (fun _ => hli) hs

/-- Brk keeps the kernel stack. -/
theorem moveBrk_stack (M : Machine) (m : Memory) (v : UserSpace) (addr : ℕ) :
    (moveBrk M m v addr).2.1.kernelStackPfns=v.kernelStackPfns := by
  unfold Syscalls.moveBrk
  split
  · rfl
  · dsimp only
    split
    · rfl
    · rfl

/-- Stack growth keeps the kernel stack. -/
theorem growStack_stack (M : Machine) (m : Memory) (v : UserSpace) (addr : ℕ) :
    (growStack M m v addr).2.1.kernelStackPfns=v.kernelStackPfns := by
  unfold Syscalls.growStack
  split
  · rfl
  · split
    · rfl
    · split
      · rfl
      · rfl

/-- No change of a live address space affects the kernel stack. -/
theorem spaceStep_stack (hs : SpaceStep M env q m v m' v') :
    v'.kernelStackPfns=v.kernelStackPfns := by
  cases hs with
  | brk addr => exact moveBrk_stack M m v addr
  | grow addr hg => exact growStack_stack M m v addr
  | exec hi hl =>
    obtain ⟨li,m₁,pt₁,c,_,_,rfl⟩ := loadProgram_success hl
    rfl

/-- Nor does an ending one. -/
theorem spaceEnd_stack (hs : SpaceEnd M env q m v m' v') :
    v'.kernelStackPfns=v.kernelStackPfns := by
  cases hs with
  | kept => rfl
  | grow addr hg => exact growStack_stack M m v addr
  | exec hi hl =>
    obtain ⟨li,m₁,pt₁,ok,c,_,_,rfl⟩ := loadProgram_kill hl
    rfl
  | fault hi hl =>
    obtain ⟨li,m₁,pt₁,c,_,_,rfl,_⟩ := loadProgram_fault hl
    rfl

end Spaces

section Processes

variable {R live : ℕ → Bool} {idle p c : PcbPtr} {space : PcbPtr → UserSpace} {v v' : UserSpace}

/-- Where a frame can belong. -/
inductive Place
  /-- To the kernel since boot. -/
  | reserved (f : ℕ)
  /-- To a page of a process. -/
  | page (p : PcbPtr) (i : ℕ)
  /-- To the kernel stack of a process. -/
  | stack (p : PcbPtr) (i : ℕ)
  deriving DecidableEq

/-- The frame in a place. Idle runs on the boot stack, which is reserved. -/
def held (M : Machine) (R live : ℕ → Bool) (idle : PcbPtr) (space : PcbPtr → UserSpace) :
    Place → Option ℕ
  | .reserved f => if R f=true then some f else none
  | .page p i => if live p=true then tableSlots M (space p).region1Pt i else none
  | .stack p i =>
    if live p=true ∧ p≠idle then stackSlots M.kernelStackPages (space p).kernelStackPfns i else none

/-- The pages of a process change. -/
theorem Accounted.respace (h : Accounted m (held M R live idle space))
    (hp : ∀ rest : Place → Option ℕ,Accounted m (Sum.elim rest (tableSlots M (space p).region1Pt)) →
      Accounted m' (Sum.elim rest (tableSlots M v.region1Pt)))
    (hl : live p=true) (hk : v.kernelStackPfns=(space p).kernelStackPfns) :
    Accounted m' (held M R live idle (Function.update space p v)) := by
  have hinj : Function.Injective (Place.page p) := by
    intro i j hij
    injection hij
  have hfoc : Accounted m (Sum.elim (outside (Place.page p) (held M R live idle space))
      (tableSlots M (space p).region1Pt)) := by
    have hg : held M R live idle space∘Place.page p=tableSlots M (space p).region1Pt := by
      funext i
      exact if_pos hl
    rw [←hg]
    exact ⟨h.filed.focus hinj,h.bounded⟩
  have hn := hp _ hfoc
  refine ⟨hn.filed.unfocus (fun i => ?_) (fun x hx => ?_),hn.bounded⟩
  · dsimp only [held]
    rw [if_pos hl,Function.update_self]
  · cases x with
    | reserved f => rfl
    | page q i =>
      have hq : q≠p := by
        rintro rfl
        exact hx i rfl
      dsimp only [held]
      rw [Function.update_of_ne hq]
    | stack q i =>
      dsimp only [held]
      by_cases hq : q=p
      · rw [hq,Function.update_self,hk]
      · rw [Function.update_of_ne hq]

/-- A process is born with a kernel stack and pages. -/
theorem Accounted.birth
    (h : Accounted m (Sum.elim (Sum.elim (held M R live idle space)
      (fun i => if c≠idle then stackSlots M.kernelStackPages v.kernelStackPfns i else none))
      (tableSlots M v.region1Pt))) (hl : live c=false) :
    Accounted m (held M R (Function.update live c true) idle (Function.update space c v)) := by
  refine ⟨h.filed.move (Sum.elim (Sum.elim id (Place.stack c)) (Place.page c)) (fun x b => ?_),
    h.bounded⟩
  constructor
  · intro hx
    cases x with
    | reserved f => exact ⟨.inl (.inl (.reserved f)),hx,rfl⟩
    | page q i =>
      dsimp only [held] at hx
      by_cases hq : q=c
      · rw [hq,Function.update_self,Function.update_self,if_pos rfl] at hx
        exact ⟨.inr i,hx,by rw [hq]; rfl⟩
      · rw [Function.update_of_ne hq,Function.update_of_ne hq] at hx
        exact ⟨.inl (.inl (.page q i)),hx,rfl⟩
    | stack q i =>
      dsimp only [held] at hx
      by_cases hq : q=c
      · rw [hq,Function.update_self,Function.update_self,if_congr (and_iff_right rfl) rfl rfl] at hx
        exact ⟨.inl (.inr i),hx,by rw [hq]; rfl⟩
      · rw [Function.update_of_ne hq,Function.update_of_ne hq] at hx
        exact ⟨.inl (.inl (.stack q i)),hx,rfl⟩
  · have hdead : ∀ {q : PcbPtr},live q=true → q≠c := by
      rintro q hq rfl
      rw [hl] at hq
      cases hq
    rintro ⟨(y|i)|i,hy,rfl⟩
    · cases y with
      | reserved f => exact hy
      | page q i =>
        dsimp only [Sum.elim_inl,held,id] at hy ⊢
        split at hy
        · rename_i hq
          rw [Function.update_of_ne (hdead hq),Function.update_of_ne (hdead hq),if_pos hq]
          exact hy
        · cases hy
      | stack q i =>
        dsimp only [Sum.elim_inl,held,id] at hy ⊢
        split at hy
        · rename_i hq
          rw [Function.update_of_ne (hdead hq.1),Function.update_of_ne (hdead hq.1),if_pos hq]
          exact hy
        · cases hy
    · dsimp only [Sum.elim_inl,Sum.elim_inr,held] at hy ⊢
      rw [Function.update_self,Function.update_self,if_congr (and_iff_right rfl) rfl rfl]
      exact hy
    · dsimp only [Sum.elim_inr,held] at hy ⊢
      rw [Function.update_self,Function.update_self,if_pos rfl]
      exact hy

/-- A process other than idle is destroyed. -/
theorem Accounted.death (h : Accounted m (held M R live idle space)) (h0 : R 0=true)
    (hl : live c=true) (hi : c≠idle) :
    Accounted (processFreeKernelStack M (memoryFreePageTableFrames M m (space c).region1Pt).1
      (space c).kernelStackPfns).1 (held M R (Function.update live c false) idle space) := by
  have hpages : Accounted (memoryFreePageTableFrames M m (space c).region1Pt).1
      (held M R live idle (Function.update space c {space c with
        region1Pt := (memoryFreePageTableFrames M m (space c).region1Pt).2})) :=
    h.respace (fun rest hr => hr.freeTable) hl rfl
  have hinj : Function.Injective (Place.stack c) := by
    intro i j hij
    injection hij
  have hfoc := hpages.filed.focus hinj
  have hg : held M R live idle (Function.update space c {space c with
        region1Pt := (memoryFreePageTableFrames M m (space c).region1Pt).2})∘Place.stack c=
      stackSlots M.kernelStackPages (space c).kernelStackPfns := by
    funext i
    dsimp only [Function.comp_apply,held]
    rw [if_pos ⟨hl,hi⟩,Function.update_self]
  rw [hg] at hfoc
  have hfreed := Accounted.freeStack (x := Place.reserved 0) ⟨hfoc,hpages.bounded⟩ (by
    unfold outside
    rw [if_neg (fun hk => by obtain ⟨k,hk⟩ := hk; cases hk)]
    exact if_pos h0)
  have hext := hfreed.extend
  refine ⟨hext.filed.unfocus (fun i => ?_) (fun x hx => ?_),hext.bounded⟩
  · dsimp only [held]
    rw [Function.update_self]
    exact if_neg (fun hf => by cases hf.1)
  · cases x with
    | reserved f => rfl
    | page q i =>
      dsimp only [held]
      by_cases hq : q=c
      · rw [hq,Function.update_self,Function.update_self,if_neg (by decide),if_pos hl]
        dsimp only
        rw [tableSlots_empty (fun i hi => freed_invalid hi)]
      · rw [Function.update_of_ne hq,Function.update_of_ne hq]
    | stack q i =>
      have hq : q≠c := by
        rintro rfl
        exact hx i rfl
      dsimp only [held]
      rw [Function.update_of_ne hq,Function.update_of_ne hq]

end Processes

section Forks

variable [DecidableEq σ]

/-- A kernel stack is allocated, or none of it is kept. -/
theorem Accounted.kernelStack (h : Accounted m rest) :
    match processAllocKernelStack M m with
    | (m',some pfns) => Accounted m' (Sum.elim rest (stackSlots M.kernelStackPages pfns))
    | (m',none) => Accounted m' rest := by
  have hs : (fun _ : ℕ => (none : Option ℕ))=stackSlots 0 (fun _ => 0) := rfl
  have h₀ := h.extend
  rw [hs] at h₀
  have ha := h₀.allocStack (n := M.kernelStackPages)
  rw [Nat.zero_add] at ha
  exact ha

/-- The pages of a process are copied, or no copy is kept. -/
theorem Accounted.copyRegion1 (M : Machine) (src : PageTable) (h : Accounted m rest) :
    match processCopyRegion1 M m src with
    | (m',some pt') => Accounted m' (Sum.elim rest (tableSlots M pt'))
    | (m',none) => Accounted m' rest := by
  have h₀ := h.extend
  rw [←tableSlots_zero (M := M)] at h₀
  exact h₀.copyPages List.nodup_range (fun _ _ => rfl)

/-- Copying a kernel stack takes no frame. -/
theorem copyKernelStack_frames {l : List ℕ} :
    (copyKernelStack M pfns l m).frameAllocated=m.frameAllocated ∧
      (copyKernelStack M pfns l m).physicalFrameCount=m.physicalFrameCount := by
  induction l generalizing m with
  | nil => exact ⟨rfl,rfl⟩
  | cons i l ih =>
    unfold copyKernelStack
    rw [ih.1,ih.2]
    exact ⟨rfl,rfl⟩

/-- A child that could not be created has left no frame behind. -/
theorem Accounted.forkFails {env : Env} {s : Kernel} {x : σ} (h : Accounted s.memory rest)
    (h0 : rest x=some 0)
    (hf : processCreateChild M env s.currentProcess s=({s with memory := m},none)) :
    Accounted m rest := by
  have hmem : (processCreateChild M env s.currentProcess s).1.memory=m := by rw [hf]
  rw [←hmem]
  unfold processCreateChild createChildRun
  have hk := h.kernelStack (M := M)
  cases hc : callocPcb env s with
  | none => exact h
  | some c =>
    dsimp only
    cases hks : processAllocKernelStack M s.memory with
    | mk m₁ o =>
      rw [hks] at hk
      cases o with
      | none => exact hk
      | some pfns =>
        dsimp only at hk ⊢
        split
        · exact hk.freeStack h0
        · rename_i hn
          have hcp := hk.copyRegion1 M (s.space s.currentProcess).region1Pt
          cases hcr : processCopyRegion1 M m₁ (s.space s.currentProcess).region1Pt with
          | mk m₂ o₂ =>
            rw [hcr] at hcp
            cases o₂ with
            | none => exact hcp.freeStack h0
            | some pt =>
              unfold processCreateChild createChildRun at hf
              rw [hc] at hf
              dsimp only at hf
              rw [hks] at hf
              dsimp only at hf
              rw [if_neg hn,hcr] at hf
              injection hf with _ hf
              cases hf

end Forks

section Runs

variable {allow : Label → Prop} {s t : Kernel} {R : ℕ → Bool}

/-- The frames of a state are accounted for. -/
abbrev Owned (M : Machine) (R : ℕ → Bool) (s : Kernel) : Prop :=
  Accounted s.memory (held M R s.live s.idleProcess s.space)

/-- The frames of a new process. -/
theorem owned_child {c : PcbPtr} {m₁ : Memory} (h : Owned M R s) (hl : s.live c=false)
    (hi : c≠s.idleProcess) (brk start : ℕ) (low : ℤ)
    (hk : processAllocKernelStack M s.memory=(m₁,some pfns))
    (hp : processCopyRegion1 M m₁ src=(m,some pt)) :
    Accounted m (held M R (Function.update s.live c true) s.idleProcess
      (Function.update s.space c ⟨pt,pfns,brk,start,low⟩)) := by
  have hs := h.kernelStack (M := M)
  rw [hk] at hs
  have hcopy := hs.copyRegion1 M src
  rw [hp] at hcopy
  refine Accounted.birth ?_ hl
  have he : (fun i => if c≠s.idleProcess then stackSlots M.kernelStackPages pfns i else none)=
      stackSlots M.kernelStackPages pfns := by
    funext i
    exact if_pos hi
  rw [he]
  exact hcopy

/-- The frames behind a change of the current address space. -/
theorem owned_respace {env : Env} {v : UserSpace} (hc : Coherent M s) (h : Owned M R s)
    (hs : Spaces M s) (hz : s.state s.currentProcess≠.zombie) (hli : LoadInfoOk M env)
    (hst : SpaceStep M env (s.currentProcess=s.idleProcess) s.memory (s.space s.currentProcess)
      m v) :
    Accounted m (held M R s.live s.idleProcess (Function.update s.space s.currentProcess v)) := by
  have hl := hc.ready.current_live
  by_cases hi : s.currentProcess=s.idleProcess
  · have hidle := hs.idle
    rw [←hi] at hidle
    obtain ⟨rfl,rfl⟩ := idle_spaceStep hi hidle hst
    rw [Function.update_eq_self]
    exact h
  · exact h.respace (fun rest hr => hr.spaceStep (hs.layout _ hl hi hz) hli hst) hl
      (spaceStep_stack hst)

/-- The frames behind the end of the current address space. -/
theorem owned_end {env : Env} {v : UserSpace} (hc : Coherent M s) (h : Owned M R s)
    (hs : Spaces M s) (hz : s.state s.currentProcess≠.zombie) (hli : LoadInfoOk M env)
    (hst : SpaceEnd M env (s.currentProcess=s.idleProcess) s.memory (s.space s.currentProcess)
      m v) :
    Accounted m (held M R s.live s.idleProcess (Function.update s.space s.currentProcess v)) := by
  have hl := hc.ready.current_live
  by_cases hi : s.currentProcess=s.idleProcess
  · have hidle := hs.idle
    rw [←hi] at hidle
    obtain ⟨rfl,rfl⟩ := idle_spaceEnd hi hidle hst
    rw [Function.update_eq_self]
    exact h
  · exact h.respace (fun rest hr => hr.spaceEnd (hs.layout _ hl hi hz) hli hst) hl
      (spaceEnd_stack hst)

/-- A block that is not in use is not idle. -/
theorem fresh_ne_idle {c : PcbPtr} (hc : Coherent M s) (hl : s.live c=false) : c≠s.idleProcess := by
  rintro rfl
  rw [hc.ready.idle_live] at hl
  cases hl

/-- The frames behind a fork whose child was destroyed again. -/
theorem owned_undone {env : Env} {c : PcbPtr} {m₁ : Memory} {u : UserContext} (h0 : R 0=true)
    (hc : Coherent M s) (h : Owned M R s) (hcp : callocPcb env s=some c)
    (hk : processAllocKernelStack M s.memory=(m₁,some pfns))
    (hp : processCopyRegion1 M m₁ (s.space s.currentProcess).region1Pt=(m,some pt)) :
    Owned M R (processDestroy M c
      ((enterChild M s.currentProcess c env.newPid pfns pt m s).setUserContext c u)) := by
  obtain ⟨hc0,hl⟩ := callocPcb_fresh hcp
  have hi : c≠s.idleProcess := fresh_ne_idle hc hl
  have hd := (owned_child h hl hi (s.space s.currentProcess).userBrk
    (s.space s.currentProcess).userHeapStart (s.space s.currentProcess).userStackLowPage
    hk hp).death h0 (Function.update_self ..) hi
  rw [destroyed_child hc hc0 hl]
  dsimp only [Owned,releaseProcess,Kernel.setUserContext,enterChild]
  rw [if_neg hi]
  exact hd

/-- The frames behind a fork. -/
theorem owned_spawn {env : Env} {c caller : PcbPtr} {m₁ : Memory} {u : UserContext} {e : Event}
    (hc : Coherent M s) (h : Owned M R s) (hcp : callocPcb env s=some c)
    (hk : processAllocKernelStack M s.memory=(m₁,some pfns))
    (hp : processCopyRegion1 M m₁ (s.space s.currentProcess).region1Pt=(m,some pt)) :
    Owned M R (markReady ((kcCopy M c ⟨caller,.fork c⟩
      ((enterChild M s.currentProcess c env.newPid pfns pt m s).setUserContext c
        u)).emit e) c) := by
  obtain ⟨hc0,hl⟩ := callocPcb_fresh hcp
  rw [spawn_eq]
  exact (owned_child h hl (fresh_ne_idle hc hl) _ _ _ hk hp).sameFrames copyKernelStack_frames.1
    copyKernelStack_frames.2

/-- The frames behind the collection of a child. -/
theorem owned_collect {statusPtr : ℕ} {c : PcbPtr} (h0 : R 0=true) (hc : Coherent M s)
    (h : Owned M R s) (ha : Active s) (hch : c∈s.children s.currentProcess)
    (hz : s.state c=.zombie) : Owned M R (collectChild M statusPtr c s) := by
  obtain ⟨hl,_⟩ := hc.family.child_parent _ c hc.ready.current_live hch
  have hi : c≠s.idleProcess := by
    rintro rfl
    rw [hc.ready.idle_running] at hz
    cases hz
  rw [collectChild_eq hc ha statusPtr hch hz]
  dsimp only [Owned,releaseProcess]
  rw [if_neg hi]
  exact h.death h0 hl hi

/-- Every operation accounts for its frames. -/
theorem op_owned {b : Bool} (hallow : ∀ env,allow (.space env) → LoadInfoOk M env)
    (h0 : R 0=true) (hc : Coherent M s) (hs : (s.cpu=.user ∨ s.cpu=.kernel) → Spaces M s)
    (h : Owned M R s) (hop : Op M allow b s t) : Owned M R t := by
  cases hop with
  | stop cpu env m v ha hu hk hz hv ho =>
    exact owned_end hc h (hs ha.running) ha.toRunnable.not_zombie (hallow _ ho) hv
  | dispatch env hsw =>
    have he := dispatchNext_eq hc hsw
    rw [he]
    exact h.sameFrames rfl rfl
  | forkFails env m ha hf => exact h.forkFails (x := Place.reserved 0) (if_pos h0) hf
  | forkUndone env c pfns pt m₁ m u ha hcp hk hp => exact owned_undone h0 hc h hcp hk hp
  | spawn env caller c pfns pt m₁ m u hb hcp hk hn hp => exact owned_spawn hc h hcp hk hp
  | respace env m v hst ha ho =>
    exact owned_respace hc h (hs ha.running) ha.toRunnable.not_zombie (hallow _ ho) hst
  | zombie status k env m v hk hb hch hl hp hv ho hn =>
    exact owned_end hc h (hs hb.running) hb.toRunnable.not_zombie (hallow _ ho) hv
  | zombieWake status k env m v hk hb hch hl hp hw hv ho hn =>
    exact owned_end hc h (hs hb.running) hb.toRunnable.not_zombie (hallow _ ho) hv
  | collect statusPtr c ha hch hz => exact owned_collect h0 hc h ha hch hz
  | _ => exact h

/-- Before any process exists only the reserved frames are marked. -/
theorem empty_owned (b : Boot M) (idle : PcbPtr) :
    Accounted (emptyKernel M b).memory
      (held M (reserved M b) (fun _ => false) idle (fun _ => zeroSpace)) := by
  have hheld : ∀ x f,held M (reserved M b) (fun _ => false) idle (fun _ => zeroSpace) x=some f ↔
      x=.reserved f ∧ reserved M b f=true := by
    intro x f
    cases x with
    | reserved g =>
      dsimp only [held]
      constructor
      · intro hg
        split at hg
        · rename_i hr
          injection hg with hg
          exact ⟨by rw [hg],hg ▸ hr⟩
        · cases hg
      · rintro ⟨hg,hr⟩
        injection hg with hg
        rw [hg,if_pos hr]
    | page p i => exact ⟨fun hf => (by cases hf),fun hf => (by cases hf.1)⟩
    | stack p i =>
      dsimp only [held]
      rw [if_neg (fun hf => by cases hf.1)]
      exact ⟨fun hf => (by cases hf),fun hf => (by cases hf.1)⟩
  refine ⟨⟨fun f => ?_,fun f x y hx hy => ?_⟩,fun f hf => ?_⟩
  · constructor
    · intro hf
      exact ⟨.reserved f,(hheld _ _).2 ⟨rfl,hf⟩⟩
    · rintro ⟨x,hx⟩
      exact ((hheld x f).1 hx).2
  · rw [((hheld x f).1 hx).1,((hheld y f).1 hy).1]
  · have hr : reserved M b f=true := hf
    exact (of_decide_eq_true hr).1

/-- A boot that got a frame has reserved frame zero. -/
theorem reserved_zero {b : Boot M} (h : frameAlloc (emptyKernel M b).memory=some (pfn,m)) :
    reserved M b 0=true := by
  obtain ⟨_,hlt,_⟩ := frameAlloc_eq h
  have hlt : pfn<b.frames := hlt
  have himg := b.brk_image
  have hpos := M.origKernelBrkPage_pos
  exact decide_eq_true ⟨by omega,.inl (by omega)⟩

variable {b : Boot M} {p q : PcbPtr} {m₁ m₂ : Memory}

/-- The frames behind the creation of idle, which gets a stack page. -/
theorem idle_owned (hs : frameAlloc (emptyKernel M b).memory=some (pfn,m₁)) :
    Owned M (reserved M b) (idleKernel M b p pfn m₁) := by
  have hpos := M.maxPtLen_pos
  have hpage : memoryMapPage M (fun _ => zeroPte) ((M.maxPtLen-1 : ℕ) : ℤ) pfn protReadWrite=
      some (Function.update (fun _ => zeroPte) (M.maxPtLen-1) ⟨true,protReadWrite,pfn⟩) := by
    unfold memoryMapPage
    rw [if_neg (by omega)]
    rfl
  have hempty : Accounted (emptyKernel M b).memory (Sum.elim (Sum.elim
      (held M (reserved M b) (fun _ => false) p (fun _ => zeroSpace)) (fun _ : ℕ => none))
      (tableSlots M (fun _ => zeroPte))) := by
    rw [tableSlots_zero]
    exact (empty_owned b p).extend.extend
  have hnone : (fun i => if p≠p then stackSlots M.kernelStackPages
      (fun i => if i<2 then M.kernelStackBasePage+i else 0) i else none)=
      fun _ : ℕ => (none : Option ℕ) := by
    funext i
    exact if_neg (fun hne => hne rfl)
  have hmapped := hempty.mapPage hs hpage (fun _ _ => rfl)
  rw [←hnone] at hmapped
  exact Accounted.birth hmapped rfl

/-- The frames behind the creation of the initial process, which gets a kernel
stack. -/
theorem init_owned (hne : q≠p) (hs : frameAlloc (emptyKernel M b).memory=some (pfn,m₁))
    (hk : processAllocKernelStack M m₁=(m₂,some pfns)) :
    Owned M (reserved M b) (enterInit M b q pfns m₂ (idleKernel M b p pfn m₁)) := by
  have hl : (idleKernel M b p pfn m₁).live q=false := by
    dsimp only [idleKernel,enterIdle,emptyKernel]
    rw [Function.update_of_ne hne]
  have hstack := (idle_owned (p := p) hs).kernelStack (M := M)
  rw [show (idleKernel M b p pfn m₁).memory=m₁ from rfl,hk] at hstack
  have hext := hstack.extend
  have hsome : stackSlots M.kernelStackPages pfns=
      fun i => if q≠p then stackSlots M.kernelStackPages pfns i else none := by
    funext i
    exact (if_pos hne).symm
  rw [←tableSlots_zero (M := M),hsome] at hext
  exact Accounted.birth (v := {zeroSpace with
    kernelStackPfns := pfns, userStackLowPage := M.maxPtLen}) hext hl

/-- The frames behind the switch to the initial process. -/
theorem switched_owned {v : UserSpace} (hf : BootFacts M b p q pfn pfns m₁ m₂ m v) :
    Owned M (reserved M b) (switchedKernel M b p q pfn pfns m₁ m₂) :=
  (init_owned hf.ne hf.stack hf.kernelStack).sameFrames copyKernelStack_frames.1
    copyKernelStack_frames.2

/-- The frames behind a successful boot. -/
theorem booted_owned {v : UserSpace} {u : UserContext} (hli : LoadInfoOk M b.initEnv)
    (hf : BootFacts M b p q pfn pfns m₁ m₂ m v) :
    Owned M (reserved M b) (bootedKernel M b p q pfn pfns m₁ m₂ m v u) := by
  obtain ⟨pc,sp,hprog⟩ := hf.program
  obtain ⟨li,m₃,pt₃,c,hload,rfl,rfl⟩ := loadProgram_success hprog
  refine (switched_owned hf).respace (fun rest hr => ?_) (Function.update_self ..) rfl
  dsimp only
  rw [tableSlots_congr protectText_valid]
  exact (hr.load hli hload).sameFrames rfl rfl

/-- The owner of a frame: the kernel since boot, a mapped page of a process
that is not destroyed, or the kernel stack of such a process other than idle. -/
def Owns (M : Machine) (b : Boot M) (s : Kernel) : Place → ℕ → Prop
  | .reserved g,f => g=f ∧ reserved M b f=true
  | .page p i,f => s.live p=true ∧ i<M.maxPtLen ∧ ((s.space p).region1Pt i).valid=true ∧
      ((s.space p).region1Pt i).pfn=f
  | .stack p i,f => s.live p=true ∧ p≠s.idleProcess ∧ i<M.kernelStackPages ∧
      (s.space p).kernelStackPfns i=f

/-- Owners are the places that hold the frame. -/
theorem owns_iff {x : Place} {f : ℕ} :
    Owns M b s x f ↔ held M (reserved M b) s.live s.idleProcess s.space x=some f := by
  cases x with
  | reserved g =>
    dsimp only [Owns,held]
    constructor
    · rintro ⟨rfl,hr⟩
      exact if_pos hr
    · intro hg
      split at hg
      · rename_i hr
        injection hg with hg
        exact ⟨hg,hg ▸ hr⟩
      · cases hg
  | page p i =>
    dsimp only [Owns,held,tableSlots]
    constructor
    · rintro ⟨hl,hi,hv,hf⟩
      rw [if_pos hl,if_pos ⟨hi,hv⟩,hf]
    · intro hg
      split at hg
      · rename_i hl
        split at hg
        · rename_i hv
          injection hg with hg
          exact ⟨hl,hv.1,hv.2,hg⟩
        · cases hg
      · cases hg
  | stack p i =>
    dsimp only [Owns,held,stackSlots]
    constructor
    · rintro ⟨hl,hp,hi,hf⟩
      rw [if_pos ⟨hl,hp⟩,if_pos hi,hf]
    · intro hg
      split at hg
      · rename_i hl
        split at hg
        · rename_i hi
          injection hg with hg
          exact ⟨hl.1,hl.2,hi,hg⟩
        · cases hg
      · cases hg

/-- In every state of every run behind a boot the marked frames are the owned
ones, and each has one owner. -/
theorem run_partition (b : Boot M)
    (h : Run M (fun b' => b'=b ∧ LoadInfoOk M b.initEnv)
      (fun _ env _ => env.switchOk=true ∧ LoadInfoOk M env) s) :
    (∀ f,s.memory.frameAllocated f=true ↔ ∃ x,Owns M b s x f) ∧
      ∀ f x y,Owns M b s x f → Owns M b s y f → x=y := by
  obtain ⟨_,_,_,ho⟩ := run_invariant (layout_allowed M)
    (P := fun s => reserved M b 0=true ∧ ((s.cpu=.user ∨ s.cpu=.kernel) → Spaces M s) ∧
      Owned M (reserved M b) s)
    (fun b' p q pfn pfns m₁ m₂ m v u hb hf => by
      obtain ⟨rfl,hli⟩ := hb
      exact ⟨reserved_zero hf.stack,fun _ => booted_spaces hli hf,booted_owned hli hf⟩)
    (fun c s t hc hp hop => ⟨hp.1,op_spaces (fun env he => he env rfl) hc hp.2.1 hop,
      op_owned (fun env he => he env rfl) hp.1 hc hp.2.1 hp.2.2 hop⟩) h
  refine ⟨fun f => ?_,fun f x y hx hy => ?_⟩
  · rw [ho.filed.held f]
    constructor
    · rintro ⟨x,hx⟩
      exact ⟨x,owns_iff.2 hx⟩
    · rintro ⟨x,hx⟩
      exact ⟨x,owns_iff.1 hx⟩
  · exact ho.filed.unique f x y (owns_iff.1 hx) (owns_iff.1 hy)

/-- A child of a process with a grown heap, and its parent, own different
frames. -/
theorem run_partition_fork : ∃ s,Run sampleMachine
      (fun b => b=sampleBoot ∧ LoadInfoOk sampleMachine sampleBoot.initEnv)
      (fun _ env _ => env.switchOk=true ∧ LoadInfoOk sampleMachine env) s ∧
    (∃ f,Owns sampleMachine sampleBoot s (.page 3 10) f) ∧
    ∀ f,Owns sampleMachine sampleBoot s (.page 3 10) f →
      ¬Owns sampleMachine sampleBoot s (.page 2 10) f := by
  have hb : sampleBoot=sampleBoot ∧ LoadInfoOk sampleMachine sampleBoot.initEnv :=
    ⟨rfl,(imageTest_sound (kernelStart sampleMachine sampleBoot) _ .resume (by decide)).2⟩
  obtain ⟨s,hr,hq⟩ := replay_exists
    (fun b => b=sampleBoot ∧ LoadInfoOk sampleMachine sampleBoot.initEnv)
    (imageTest_sound (M := sampleMachine)) hb sampleBoot_user
    [callInput 6 0x118000 0 0,forkInput 3 2,tickInput,resumeInput]
    (fun s => s.live 3=true ∧ ((s.space 3).region1Pt 10).valid=true) (by decide +kernel)
  simp only [decide_eq_true_eq] at hq
  have hown : Owns sampleMachine sampleBoot s (.page 3 10) ((s.space 3).region1Pt 10).pfn :=
    ⟨hq.1,by decide,hq.2,rfl⟩
  refine ⟨s,hr,⟨_,hown⟩,fun f h₁ h₂ => ?_⟩
  have he := (run_partition sampleBoot hr).2 f _ _ h₁ h₂
  cases he

end Runs

end Yalnix.FramePartition
