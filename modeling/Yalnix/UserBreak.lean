import Yalnix.FrameZero

/-!
# The user break

SysBrk moves the break by whole pages or changes nothing. It succeeds exactly
when the request stays between the heap start and the stack and enough frames
are free; a growth that fails at some page gives back what it took, in the
page table as in the frame table.
-/

namespace Yalnix.UserBreak

open Framework FrameTable KernelState Scheduling Ipc Terminals ProcessLifetime ProgramLoading
open Syscalls Traps KernelStart Coherence Operations OperationCoherence CallOperations
open RunInvariants Traces AddressSpaces TableLoops FramePartition ScratchPage MappedFrames

variable {M : Machine} {m m' m₀ : Memory} {pt pt' pt₀ : PageTable} {page : ℤ} {n k f : ℕ}

section Counts

/-- The frames that are in use. -/
def allocatedFrames (m : Memory) : Finset ℕ :=
  (Finset.range m.physicalFrameCount).filter (fun f => m.frameAllocated f=true)

/-- Every frame is in use or free. -/
theorem allocated_free (m : Memory) :
    (allocatedFrames m).card+(freeFrames m).card=m.physicalFrameCount := by
  have hfree : freeFrames m=
      (Finset.range m.physicalFrameCount).filter (fun f => ¬m.frameAllocated f=true) := by
    unfold freeFrames
    congr 1
    funext f
    exact propext (Bool.not_eq_true _).symm.to_iff
  rw [hfree]
  unfold allocatedFrames
  rw [Finset.card_filter_add_card_filter_not,Finset.card_range]

/-- A frame in use that is given back is one more free frame. -/
theorem frameFree_count (ha : m.frameAllocated f=true) (hf : f< m.physicalFrameCount) :
    (freeFrames (frameFree m f)).card=(freeFrames m).card+1 := by
  have hnot : f∉freeFrames m := by
    intro hmem
    rw [(Finset.mem_filter.1 hmem).2] at ha
    cases ha
  have he : freeFrames (frameFree m f)=insert f (freeFrames m) := by
    ext g
    unfold frameFree freeFrames
    rw [if_neg (by omega),Finset.mem_insert,Finset.mem_filter,Finset.mem_filter,
      Finset.mem_range]
    dsimp only
    by_cases hg : g=f
    · rw [hg,Function.update_self]
      exact ⟨fun _ => .inl rfl,fun _ => ⟨hf,rfl⟩⟩
    · rw [Function.update_of_ne hg]
      exact ⟨.inr,fun hx => hx.resolve_left hg⟩
  rw [he,Finset.card_insert_of_notMem hnot]

end Counts

section Loops

/-- A growth succeeds when there is a frame for each page, and uses that many. -/
theorem growPages_enough (h0 : 0≤page) (h1 : page+k+n≤M.maxPtLen) :
    ((growPages M page n k m pt).2.2=true ↔ n≤(freeFrames m).card) ∧
      ((growPages M page n k m pt).2.2=true →
        (freeFrames (growPages M page n k m pt).1).card+n=(freeFrames m).card) := by
  induction n generalizing k m pt with
  | zero =>
    unfold growPages
    exact ⟨⟨fun _ => Nat.zero_le _,fun _ => rfl⟩,fun _ => rfl⟩
  | succ n ih =>
    unfold growPages
    by_cases hf : (freeFrames m).card=0
    · rw [frameAlloc_none hf]
      dsimp only
      exact ⟨⟨fun hx => (by cases hx),fun hx => (by omega)⟩,fun hx => (by cases hx)⟩
    · obtain ⟨f,m₁,ha,hc⟩ := frameAlloc_some (Nat.pos_of_ne_zero hf)
      rw [ha]
      have hmap : memoryMapPage M pt (page+k) f protReadWrite=
          some (Function.update pt (page+k).toNat ⟨true,protReadWrite,f⟩) := by
        unfold memoryMapPage
        exact if_neg (by omega)
      dsimp only
      rw [hmap]
      dsimp only
      obtain ⟨hiff,hcount⟩ := @ih m₁
        (Function.update pt (page+k).toNat ⟨true,protReadWrite,f⟩) (k+1) (by push_cast; omega)
      refine ⟨hiff.trans (by omega),fun hx => ?_⟩
      have := hcount hx
      omega

/-- A growth that fails restores the memory and the table it began with. -/
theorem growPages_restores (hu : undoPages M page k m pt=(m₀,pt₀))
    (hz : ∀ i : ℕ,page+k≤ i → i<page+k+n → pt i=zeroPte)
    (h : growPages M page n k m pt=(m',pt',false)) : m'=m₀ ∧ pt'=pt₀ := by
  induction n generalizing k m pt with
  | zero =>
    unfold growPages at h
    injection h with _ h
    injection h with _ h
    cases h
  | succ n ih =>
    unfold growPages at h
    split at h
    · rw [hu] at h
      injection h with hm h
      injection h with hp _
      exact ⟨hm.symm,hp.symm⟩
    · rename_i f m₁ ha
      split at h
      · rw [frameFree_alloc ha,hu] at h
        injection h with hm h
        injection h with hp _
        exact ⟨hm.symm,hp.symm⟩
      · rename_i pt₁ hmap
        obtain ⟨h0,h1,rfl⟩ := mapPage_eq hmap
        refine ih ?_ (fun i h₁ h₂ => ?_) h
        · have hzero : pt (page+k).toNat=zeroPte := hz _ (by omega) (by omega)
          unfold undoPages
          rw [unmapPage_eq h0 h1,Function.update_self,Function.update_idem]
          dsimp only
          rw [frameFree_alloc ha,Function.update_eq_self_iff.2 hzero.symm,hu]
        · push_cast at h₁ h₂
          rw [update_page h0,if_neg (by omega)]
          exact hz i (by omega) (by omega)

/-- A shrinking of mapped pages gives back a frame for each page. -/
theorem shrinkPages_count {D F : ℕ → Prop} (h : Backing D F m pt) (h0 : 0≤page)
    (h1 : page+n≤M.maxPtLen)
    (hv : ∀ i : ℕ,page≤ i → i<page+n → D i ∧ (pt i).valid=true) :
    (freeFrames (shrinkPages M n page m pt).1).card=(freeFrames m).card+n := by
  induction n generalizing page m pt with
  | zero => rfl
  | succ n ih =>
    obtain ⟨hd,hval⟩ := hv page.toNat (by omega) (by omega)
    have hmark := h.marked _ hd hval
    unfold shrinkPages
    rw [if_pos hval,ih (h.unmapPage h0 (by omega) hd hval) (by omega) (by omega)
      (fun i h₁ h₂ => ?_),frameFree_count hmark (h.bounded _ hmark)]
    · omega
    · rw [unmapPage_eq h0 (by omega),update_page h0,if_neg (by omega)]
      exact hv i (by omega) (by omega)

end Loops

section Break

variable {v : UserSpace} {s : Kernel} {addr : ℕ}

/-- Entries that are not valid are zero, as calloc and MemoryUnmapPage leave
them. -/
def ZeroUnmapped (M : Machine) (pt : PageTable) : Prop :=
  ∀ i<M.maxPtLen,(pt i).valid=false → pt i=zeroPte

/-- The first page behind the break. -/
def breakPage (M : Machine) (v : UserSpace) : ℤ := M.region1Page v.userBrk

/-- The first page behind a requested break. -/
def newPage (M : Machine) (addr : ℕ) : ℤ := M.region1Page (M.upToPage addr)

/-- A request between the heap start and the stack for whose new pages there
are enough frames. -/
def BrkFits (M : Machine) (m : Memory) (v : UserSpace) (addr : ℕ) : Prop :=
  v.userHeapStart≠0 ∧ v.userHeapStart≤addr ∧ addr< M.vmem1Limit ∧
    newPage M addr<v.userStackLowPage ∧
    (newPage M addr-breakPage M v).toNat≤(freeFrames m).card

instance (M : Machine) (m : Memory) (v : UserSpace) (addr : ℕ) : Decidable (BrkFits M m v addr) :=
  inferInstanceAs (Decidable (_ ∧ _))

/-- The pages between the old break and a requested one. -/
def Moved (M : Machine) (v : UserSpace) (addr i : ℕ) : Prop :=
  (breakPage M v≤ i ∧ i<newPage M addr) ∨ (newPage M addr≤ i ∧ i<breakPage M v)

/-- The mapped pages have frames of their own, in use and on this machine. -/
abbrev OwnFrames (M : Machine) (m : Memory) (pt : PageTable) : Prop :=
  Backing (InTable M) (fun _ => False) m pt

/-- What a successful Brk did. -/
structure BrkMoved (M : Machine) (m : Memory) (v : UserSpace) (addr : ℕ) (m' : Memory)
    (v' : UserSpace) : Prop where
  /-- The break is the requested one, rounded up. -/
  brk : v'.userBrk=M.upToPage addr
  /-- Exactly the pages between the old and the new break changed validity. -/
  changed : ∀ i<M.maxPtLen,(v'.region1Pt i).valid≠(v.region1Pt i).valid ↔ Moved M v addr i
  /-- The other entries are as they were. -/
  others : ∀ i,¬Moved M v addr i → v'.region1Pt i=v.region1Pt i
  /-- As many frames are in use more or less. A shrinking relies on the pages
  having frames of their own. -/
  count : (newPage M addr<breakPage M v → OwnFrames M m v.region1Pt) →
    ((allocatedFrames m').card : ℤ)=(allocatedFrames m).card+(newPage M addr-breakPage M v)
  /-- Nothing else of the address space changed. -/
  rest : v'={v with region1Pt := v'.region1Pt, userBrk := v'.userBrk}
  /-- The machine and its Region 0 are as they were. -/
  kept : Kept m m'

/-- The pages of an accepted request are in the region. -/
theorem accepted_pages (h : LayoutOk M v) (hb : ¬BrkRefused M v addr) :
    M.region1Page (M.upToPage v.userBrk)=breakPage M v ∧ 0≤breakPage M v ∧ 0≤newPage M addr ∧
      newPage M addr<v.userStackLowPage ∧ v.userStackLowPage≤M.maxPtLen ∧
      breakPage M v<v.userStackLowPage ∧ M.region1Page v.userHeapStart≤newPage M addr := by
  have h0 := h.start
  have hle := h.heap_le
  have hz := h.redZone
  have hl := h.limit
  unfold BrkRefused at hb
  have hheap : M.region1Page v.userHeapStart≤newPage M addr :=
    region1Page_mono (by have := (upToPage_spec M addr).2; omega)
  unfold newPage at hheap ⊢
  unfold breakPage
  exact ⟨by rw [upToPage_of_dvd h.aligned],by omega,by omega,by omega,hl,hz,hheap⟩

/-- A request succeeds exactly when it fits. -/
theorem moveBrk_fits (h : LayoutOk M v) :
    (moveBrk M m v addr).2.2=true ↔ BrkFits M m v addr := by
  by_cases hb : BrkRefused M v addr
  · unfold moveBrk
    rw [if_pos hb]
    refine ⟨fun hx => (by cases hx),fun hx => ?_⟩
    unfold BrkRefused at hb
    unfold BrkFits newPage at hx
    omega
  · obtain ⟨hold,h0,h1,h2,h3,h4,hle⟩ := accepted_pages h hb
    have hnew : M.region1Page (M.upToPage addr)=newPage M addr := rfl
    have hbrk : M.region1Page v.userBrk=breakPage M v := rfl
    have henough := @growPages_enough M m v.region1Pt (breakPage M v)
      (newPage M addr-breakPage M v).toNat 0 h0 (by omega)
    have hiff : (moveBrk M m v addr).2.2=true ↔
        (growPages M (breakPage M v) (newPage M addr-breakPage M v).toNat 0 m
          v.region1Pt).2.2=true := by
      unfold moveBrk
      rw [if_neg hb,hold,hnew]
      dsimp only
      split
      · rename_i hg
        rw [hg]
      · rename_i hg
        rw [hg]
    rw [hiff,henough.1]
    unfold BrkRefused at hb
    unfold BrkFits
    omega

/-- A request that fails changes nothing. -/
theorem moveBrk_refused (h : LayoutOk M v) (hz : ZeroUnmapped M v.region1Pt)
    (hf : (moveBrk M m v addr).2.2=false) : moveBrk M m v addr=(m,v,false) := by
  by_cases hb : BrkRefused M v addr
  · unfold moveBrk
    rw [if_pos hb]
  · obtain ⟨hold,h0,h1,h2,h3,h4,hle⟩ := accepted_pages h hb
    have hnew : M.region1Page (M.upToPage addr)=newPage M addr := rfl
    have hbrk : M.region1Page v.userBrk=breakPage M v := rfl
    unfold moveBrk at hf ⊢
    rw [if_neg hb,hold,hnew] at hf ⊢
    dsimp only at hf ⊢
    split
    · rename_i m₁ pt₁ hg
      obtain ⟨rfl,rfl⟩ := growPages_restores rfl (fun i h₁ h₂ => hz i (by omega)
        (h.unmapped i (by rw [hbrk]; omega) (by omega))) hg
      rfl
    · rename_i hg
      rw [hg] at hf
      cases hf

/-- What a request that succeeds changes. -/
theorem moveBrk_moved (h : LayoutOk M v) (ht : (moveBrk M m v addr).2.2=true) :
    BrkMoved M m v addr (moveBrk M m v addr).1 (moveBrk M m v addr).2.1 := by
  by_cases hb : BrkRefused M v addr
  · unfold moveBrk at ht
    rw [if_pos hb] at ht
    cases ht
  · obtain ⟨hold,h0,h1,h2,h3,h4,hle⟩ := accepted_pages h hb
    have hnew : M.region1Page (M.upToPage addr)=newPage M addr := rfl
    have hbrk : M.region1Page v.userBrk=breakPage M v := rfl
    obtain ⟨_,hcount⟩ := @growPages_enough M m v.region1Pt (breakPage M v)
      (newPage M addr-breakPage M v).toNat 0 h0 (by omega)
    have hkept : Kept m (growPages M (breakPage M v) (newPage M addr-breakPage M v).toNat 0 m
      v.region1Pt).1 := kept_growPages
    unfold moveBrk at ht ⊢
    rw [if_neg hb,hold,hnew] at ht ⊢
    dsimp only at ht ⊢
    split
    · rename_i hg
      rw [hg] at ht
      cases ht
    · rename_i m₁ pt₁ hg
      rw [hg] at hcount hkept
      have hgr := growPages_table hg h0 (by omega)
      obtain ⟨hsin,hsout⟩ := shrinkPages_table (M := M) m₁ pt₁ (newPage M addr)
        (breakPage M v-newPage M addr).toNat h1 (by omega)
      have hin : ∀ i : ℕ,newPage M addr≤ i → i<breakPage M v →
          pt₁ i=v.region1Pt i ∧ (v.region1Pt i).valid=true := fun i h₁ h₂ =>
        ⟨hgr.outside i (by omega),(h.heap i (by omega) (by rw [hbrk]; omega)).1⟩
      refine ⟨rfl,fun i hi => ⟨fun hne => ?_,fun hmv => ?_⟩,fun i hi => ?_,fun hown => ?_,rfl,
        hkept.trans kept_shrinkPages⟩
      · by_contra hi
        unfold Moved at hi
        dsimp only at hne
        rw [hsout i (by omega),hgr.outside i (by omega)] at hne
        exact hne rfl
      · dsimp only
        rcases hmv with hup|hdown
        · rw [hsout i (by omega),(hgr.mapped rfl i (by omega) (by omega)).1,
            h.unmapped i (by rw [hbrk]; omega) (by omega)]
          decide
        · rw [hsin i hdown.1 (by omega),(hin i hdown.1 hdown.2).2]
          decide
      · unfold Moved at hi
        dsimp only
        rw [hsout i (by omega),hgr.outside i (by omega)]
      · dsimp only at hcount ⊢
        have hall := allocated_free m
        have hall' := allocated_free
          (shrinkPages M (breakPage M v-newPage M addr).toNat (newPage M addr) m₁ pt₁).1
        rw [kept_shrinkPages.count,hkept.count] at hall'
        have hgrown := hcount rfl
        by_cases hlt : newPage M addr<breakPage M v
        · have hnone : (newPage M addr-breakPage M v).toNat=0 := by omega
          rw [hnone] at hg
          unfold growPages at hg
          injection hg with hm hg
          injection hg with hp _
          subst hm hp
          have hback := shrinkPages_count (M := M) (n := (breakPage M v-newPage M addr).toNat)
            (hown hlt)
            h1 (by omega) (fun i h₁ h₂ => ⟨by unfold InTable; omega,
              (hin i (by omega) (by omega)).2⟩)
          omega
        · have hnone : (breakPage M v-newPage M addr).toNat=0 := by omega
          rw [hnone] at hall' ⊢
          unfold shrinkPages at hall' ⊢
          dsimp only at hall' ⊢
          omega

/-- What SysBrk promises about the break, the pages and the frames. -/
structure BrkExact (M : Machine) (s : Kernel) (addr : ℕ) (t : Kernel) (rc : ℤ) : Prop where
  /-- It succeeds exactly when the request fits. -/
  fits : rc=SUCCESS ↔ BrkFits M s.memory (s.space s.currentProcess) addr
  /-- A success moves the break and nothing else. -/
  moved : rc=SUCCESS → BrkMoved M s.memory (s.space s.currentProcess) addr t.memory
      (t.space s.currentProcess) ∧
    t={s with
      memory := t.memory
      space := Function.update s.space s.currentProcess (t.space s.currentProcess)}
  /-- A failure changes nothing. -/
  failed : rc≠SUCCESS → rc=ERROR ∧ t=s

/-- SysBrk moves the break of a process with the layout, or changes nothing. -/
theorem sysBrk_layout (h0 : s.currentProcess≠0) (h : LayoutOk M (s.space s.currentProcess))
    (hz : ZeroUnmapped M (s.space s.currentProcess).region1Pt) (addr : ℕ) (u : UserContext) :
    ∃ t rc,sysBrk M addr u s=.returns t u rc ∧ BrkExact M s addr t rc := by
  refine ⟨_,_,if_neg h0,?_,fun hrc => ?_,fun hrc => ?_⟩
  · rw [←moveBrk_fits h]
    split
    · rename_i ht
      exact ⟨fun _ => ht,fun _ => rfl⟩
    · rename_i ht
      exact ⟨fun hx => (by cases hx),fun hx => absurd hx ht⟩
  · split at hrc
    · rename_i ht
      dsimp only
      rw [Function.update_self]
      exact ⟨moveBrk_moved h ht,rfl⟩
    · cases hrc
  · split at hrc
    · exact absurd rfl hrc
    · rename_i ht
      rw [if_neg ht,moveBrk_refused h hz (Bool.of_not_eq_true ht)]
      dsimp only
      rw [Function.update_eq_self]
      exact ⟨rfl,rfl⟩

/-- A break request of the idle process changes nothing. -/
theorem sysBrk_idle (h0 : s.currentProcess≠0)
    (h : (s.space s.currentProcess).userHeapStart=0) (addr : ℕ) (u : UserContext) :
    ∃ t rc,sysBrk M addr u s=.returns t u rc ∧ BrkExact M s addr t rc := by
  refine ⟨_,_,if_neg h0,?_,fun hrc => ?_,fun hrc => ?_⟩
  · rw [moveBrk_idle h]
    exact ⟨fun hx => (by cases hx),fun hx => absurd h hx.1⟩
  · rw [moveBrk_idle h] at hrc
    cases hrc
  · rw [moveBrk_idle h]
    dsimp only
    rw [Function.update_eq_self]
    exact ⟨rfl,rfl⟩

end Break

section Zeroed

variable {src : PageTable} {v v' : UserSpace} {env : Env} {args : List (List UInt8)} {li : LoadInfo}
  {q ok : Prop} {prot : Prot} {pfn addr : ℕ}

/-- Mapping a page other than zero keeps page zero unmapped. -/
theorem ZeroUnmapped.map (h : ZeroUnmapped M pt) (hm : memoryMapPage M pt page pfn prot=some pt') :
    ZeroUnmapped M pt' := by
  obtain ⟨h0,_,rfl⟩ := mapPage_eq hm
  intro i hi hv
  rw [update_page h0] at hv ⊢
  split at hv
  · cases hv
  · rename_i hip
    rw [if_neg hip]
    exact h i hi hv

/-- Unmapping a page keeps page zero unmapped. -/
theorem ZeroUnmapped.unmap (h : ZeroUnmapped M pt) (page : ℤ) :
    ZeroUnmapped M (memoryUnmapPage M pt page) := by
  by_cases hr : page<0 ∨ (M.maxPtLen : ℤ)≤page
  · unfold memoryUnmapPage
    rw [if_pos hr]
    exact h
  · intro i hi hv
    rw [unmapPage_eq (by omega) (by omega),update_page (by omega)] at hv ⊢
    split
    · rfl
    · rename_i hip
      rw [if_neg hip] at hv
      exact h i hi hv

/-- The copy of a table without page zero has no page zero. -/
theorem ZeroUnmapped.copyPages {l : List ℕ} (h : ZeroUnmapped M pt)
    (hc : copyRegion1Pages M src l m pt=(m',some pt')) : ZeroUnmapped M pt' := by
  induction l generalizing m pt with
  | nil =>
    unfold copyRegion1Pages at hc
    injection hc with _ hc
    injection hc with hc
    exact hc ▸ h
  | cons j l ih =>
    unfold copyRegion1Pages at hc
    split at hc
    · split at hc
      · cases hc
      · split at hc
        · cases hc
        · rename_i hm
          exact ih (h.map hm) hc
    · exact ih h hc

/-- Text that is mapped is protected. -/
theorem ZeroUnmapped.protect (h : ZeroUnmapped M pt) (h0 : 0≤page)
    (hv : ∀ i : ℕ,page≤ i → i<page+n → (pt i).valid=true) :
    ZeroUnmapped M (protectText n page pt) := by
  intro i hi hn
  by_cases hin : page≤ i ∧ i<page+n
  · rw [(protectText_valid i).1,hv i hin.1 hin.2] at hn
    cases hn
  · rw [protectText_table h0 hin] at hn ⊢
    exact h i hi hn

/-- Loops over a table clear what they unmap. -/
theorem zeroUnmapped_rule :
    TableRule M (fun _ => True) False False (fun _ pt => ZeroUnmapped M pt) where
  map h _ hm _ := h.map hm
  unmap h _ := h.unmap _
  store _ h := h
  protect h h0 hv := h.protect h0 hv

/-- Every change of an address space. -/
theorem ZeroUnmapped.spaceStep (h : ZeroUnmapped M v.region1Pt)
    (hs : SpaceStep M env q m v m' v') : ZeroUnmapped M v'.region1Pt :=
  zeroUnmapped_rule.spaceStep (fun _ _ => trivial) h False.elim False.elim False.elim hs

/-- What is left of an address space. -/
theorem ZeroUnmapped.spaceEnd (h : ZeroUnmapped M v.region1Pt)
    (hs : SpaceEnd M env q m v m' v') : ZeroUnmapped M v'.region1Pt :=
  zeroUnmapped_rule.spaceEnd (fun _ _ => trivial) h False.elim False.elim hs

end Zeroed

section States

variable {s t : Kernel} {v : UserSpace} {allow : Label → Prop} {p c : PcbPtr}

/-- The tables of the processes that are not destroyed are zero where they are
not valid. -/
def Zeroed (M : Machine) (s : Kernel) : Prop :=
  ∀ p,s.live p=true → ZeroUnmapped M (s.space p).region1Pt

/-- The current address space changes. -/
theorem Zeroed.respace (h : Zeroed M s) (hz : ZeroUnmapped M v.region1Pt)
    (hs : t.space=Function.update s.space p v) (hl : t.live=s.live) : Zeroed M t := by
  intro q hq
  rw [hl] at hq
  rw [hs]
  by_cases hqp : q=p
  · rw [hqp,Function.update_self]
    exact hz
  · rw [Function.update_of_ne hqp]
    exact h q hq

/-- The property stays where processes are destroyed. -/
theorem Zeroed.mono (h : Zeroed M s)
    (hs : ∀ q,t.live q=true → s.live q=true ∧ t.space q=s.space q) : Zeroed M t := by
  intro q hq
  obtain ⟨hl,he⟩ := hs q hq
  rw [he]
  exact h q hl

/-- Every operation keeps the tables zero where they are not valid. -/
theorem op_zeroed {b : Bool} (hc : Coherent M s) (h : Zeroed M s) (hop : Op M allow b s t) :
    Zeroed M t := by
  have hl := hc.ready.current_live
  cases hop with
  | stop cpu env m v ha hu hk hz hv ho => exact h.respace ((h _ hl).spaceEnd hv) rfl rfl
  | respace env m v hst ha ho => exact h.respace ((h _ hl).spaceStep hst) rfl rfl
  | zombie status k env m v hk hb hch hp hl' hv ho hn =>
    exact h.respace ((h _ hl).spaceEnd hv) rfl rfl
  | zombieWake status k env m v hk hb hch hl' hp hw hv ho hn =>
    exact h.respace ((h _ hl).spaceEnd hv) rfl rfl
  | dispatch env hsw =>
    have he := dispatchNext_eq hc hsw
    refine h.mono (fun q hq => ?_)
    rw [he] at hq ⊢
    exact ⟨hq,rfl⟩
  | forkUndone env c pfns pt m₁ m u ha hcp hk hp =>
    obtain ⟨hc0,hlc⟩ := callocPcb_fresh hcp
    rw [destroyed_child hc hc0 hlc]
    refine h.mono (fun q hq => ?_)
    dsimp only [releaseProcess,Kernel.setUserContext,enterChild] at hq ⊢
    rw [Function.update_idem] at hq
    by_cases hqc : q=c
    · rw [hqc,Function.update_self] at hq
      cases hq
    · rw [Function.update_of_ne hqc] at hq ⊢
      exact ⟨hq,rfl⟩
  | spawn env caller c pfns pt m₁ m u hb hcp hk hn hp =>
    have hzero : ZeroUnmapped M (fun _ => zeroPte) := fun _ _ _ => rfl
    rw [spawn_eq]
    intro q hq
    dsimp only [enterChild] at hq ⊢
    by_cases hqc : q=c
    · rw [hqc,Function.update_self]
      exact hzero.copyPages hp
    · rw [Function.update_of_ne hqc] at hq ⊢
      exact h q hq
  | collect statusPtr c ha hch hz =>
    obtain ⟨hlc,_⟩ := hc.family.child_parent _ c hl hch
    rw [collectChild_eq hc ha statusPtr hch hz]
    refine h.mono (fun q hq => ?_)
    dsimp only [releaseProcess] at hq ⊢
    by_cases hqc : q=c
    · rw [hqc,Function.update_self] at hq
      cases hq
    · rw [Function.update_of_ne hqc] at hq
      exact ⟨hq,rfl⟩
  | _ => exact h

/-- The tables behind a boot. -/
theorem booted_zeroed {b : Boot M} {p q : PcbPtr} {pfn : ℕ} {pfns : ℕ → ℕ} {m₁ m₂ m : Memory}
    {v : UserSpace} {u : UserContext} (hf : BootFacts M b p q pfn pfns m₁ m₂ m v) :
    Zeroed M (bootedKernel M b p q pfn pfns m₁ m₂ m v u) := by
  obtain ⟨pc,sp,hprog⟩ := hf.program
  have hzero : ZeroUnmapped M (fun _ => zeroPte) := fun _ _ _ => rfl
  have hinit : (switchedKernel M b p q pfn pfns m₁ m₂).space q=
      {zeroSpace with kernelStackPfns := pfns, userStackLowPage := M.maxPtLen} :=
    Function.update_self ..
  have hidle : (switchedKernel M b p q pfn pfns m₁ m₂).space p={zeroSpace with
      region1Pt := Function.update zeroSpace.region1Pt (M.maxPtLen-1) ⟨true,protReadWrite,pfn⟩
      kernelStackPfns := fun i => if i<2 then M.kernelStackBasePage+i else 0} :=
    (Function.update_of_ne hf.ne.symm ..).trans (Function.update_self ..)
  intro x hx
  rcases booted_live.1 hx with rfl|rfl
  · dsimp only [bootedKernel,returnToUser]
    rw [Function.update_self]
    rw [hinit] at hprog
    have hstep : SpaceStep M b.initEnv False _ _ m v := .exec (fun hq => hq) hprog
    exact ZeroUnmapped.spaceStep hzero hstep
  · dsimp only [bootedKernel,returnToUser]
    rw [Function.update_of_ne hf.ne.symm,hidle]
    intro i hi hv
    dsimp only at hv ⊢
    by_cases hl : i=M.maxPtLen-1
    · rw [hl,Function.update_self] at hv
      cases hv
    · rw [Function.update_of_ne hl]
      rfl

/-- The pages of a process have frames of their own where frames are owned. -/
theorem owned_frames {R : ℕ → Bool} (h : Owned M R s) (hl : s.live p=true) :
    OwnFrames M s.memory (s.space p).region1Pt := by
  have hheld : ∀ i,i<M.maxPtLen → ((s.space p).region1Pt i).valid=true →
      held M R s.live s.idleProcess s.space (.page p i)=some ((s.space p).region1Pt i).pfn :=
    fun i hi hv => held_page hl hi hv
  refine ⟨h.bounded,fun _ hf => hf.elim,fun i hi hv => ?_,fun _ _ _ hf => hf,
    fun i j hi hj hvi hvj he => ?_⟩
  · exact (h.filed.held _).2 ⟨_,hheld i hi hv⟩
  · have hpage := h.filed.unique _ _ _ (hheld i hi hvi) (he ▸ hheld j hj hvj)
    injection hpage

/-- Brk is exact and atomic: for a process with the layout and in every state
of every run, SysBrk succeeds exactly when the request stays between heap start
and stack and enough frames are free, a success changes the pages between the
two breaks and as many frames, and a failure changes nothing. -/
theorem brk_exact (M : Machine) :
    (∀ s addr u,s.currentProcess≠0 → LayoutOk M (s.space s.currentProcess) →
      ZeroUnmapped M (s.space s.currentProcess).region1Pt →
      ∃ t rc,sysBrk M addr u s=.returns t u rc ∧ BrkExact M s addr t rc) ∧
      ∀ s addr u,Run M (fun b => LoadInfoOk M b.initEnv)
        (fun _ env _ => env.switchOk=true ∧ LoadInfoOk M env) s → s.cpu=.user →
        OwnFrames M s.memory (s.space s.currentProcess).region1Pt ∧
          ∃ t rc,sysBrk M addr u s=.returns t u rc ∧ BrkExact M s addr t rc := by
  refine ⟨fun s addr u h0 h hz => sysBrk_layout h0 h hz addr u,fun s addr u h hu => ?_⟩
  obtain ⟨hset,⟨R,hR,hown⟩,hsp,hz⟩ := run_invariant (layout_allowed M)
    (P := fun s => (∃ R : ℕ → Bool,R 0=true ∧ Owned M R s) ∧
      ((s.cpu=.user ∨ s.cpu=.kernel) → Spaces M s) ∧ Zeroed M s)
    (fun b p q pfn pfns m₁ m₂ m v u hb hf => ⟨⟨_,reserved_zero hf.stack,booted_owned hb hf⟩,
      fun _ => booted_spaces hb hf,booted_zeroed hf⟩)
    (fun c s t hc hp hop => by
      obtain ⟨⟨R,hR,ho⟩,hsp,hz⟩ := hp
      exact ⟨⟨R,hR,op_owned (fun env he => he env rfl) hR hc hsp ho hop⟩,
        op_spaces (fun env he => he env rfl) hc hsp hop,op_zeroed hc hz hop⟩) h
  have hlive := hset.ready.current_live
  have h0 := hset.ready.ne_null hlive
  refine ⟨owned_frames hown hlive,?_⟩
  by_cases hi : s.currentProcess=s.idleProcess
  · have hidle := (hsp (.inl hu)).idle
    rw [←hi] at hidle
    exact sysBrk_idle h0 hidle.1 addr u
  · exact sysBrk_layout h0 ((hsp (.inl hu)).layout _ hlive hi
      (hset.user hu).toRunnable.not_zombie) (hz _ hlive) addr u

/-- The break of the initial process is moved by two pages, which takes two
frames. -/
theorem brk_exact_sample : ∀ u,∃ t,sysBrk sampleMachine 0x10c000 u
    (kernelStart sampleMachine sampleBoot)=
        .returns t u SUCCESS ∧
      (t.space 2).userBrk=0x10c000 ∧
      ((allocatedFrames t.memory).card : ℤ)=
        (allocatedFrames (kernelStart sampleMachine sampleBoot).memory).card+2 := by
  intro u
  have hb : LoadInfoOk sampleMachine sampleBoot.initEnv :=
    (imageTest_sound (kernelStart sampleMachine sampleBoot) _ .resume (by decide)).2
  obtain ⟨hown,t,rc,he,hx⟩ := (brk_exact sampleMachine).2 (kernelStart sampleMachine sampleBoot)
    0x10c000 u (.boot sampleBoot hb sampleBoot_user) sampleBoot_user
  have hfits : BrkFits sampleMachine (kernelStart sampleMachine sampleBoot).memory
      ((kernelStart sampleMachine sampleBoot).space
        (kernelStart sampleMachine sampleBoot).currentProcess) 0x10c000 := by decide +kernel
  have hcur : (kernelStart sampleMachine sampleBoot).currentProcess=2 := by decide +kernel
  have hrc := hx.fits.2 hfits
  obtain ⟨hm,_⟩ := hx.moved hrc
  have hpages : newPage sampleMachine 0x10c000-breakPage sampleMachine
      ((kernelStart sampleMachine sampleBoot).space
        (kernelStart sampleMachine sampleBoot).currentProcess)=2 := by decide +kernel
  have hcount := hm.count (fun _ => hown)
  rw [hpages] at hcount
  rw [hrc] at he
  refine ⟨t,he,?_,hcount⟩
  rw [←hcur,hm.brk]
  decide

end States

end Yalnix.UserBreak
