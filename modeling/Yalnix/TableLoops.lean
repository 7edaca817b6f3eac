import Yalnix.AddressSpaces

/-!
# Loops over page tables

Every loop over a page table takes frames and maps pages to them, or unmaps
pages and gives their frames back. What both changes keep, with the frames that
are given back where they matter, is kept by every loop, by Brk, by stack growth
and by LoadProgram, wherever the frames run out.
-/

namespace Yalnix.TableLoops

open Framework FrameTable KernelState Scheduling Ipc Terminals ProcessLifetime ProgramLoading
open Syscalls Traps Coherence Operations AddressSpaces

variable {M : Machine} {m m' : Memory} {pt pt' : PageTable} {page : ℤ} {n : ℕ} {prot : Prot}
  {D : ℕ → Prop} {fresh tied : Prop} {P : Memory → PageTable → Prop}

/-- A property of the frames and a table that is kept where a page is mapped and
where one is unmapped. It may depend on maps of pages that were not mapped
(fresh), and on unmapped pages that were mapped ones of a part D (tied). -/
structure TableRule (M : Machine) (D : ℕ → Prop) (fresh tied : Prop)
    (P : Memory → PageTable → Prop) : Prop where
  /-- A page is mapped to a new frame. -/
  map : ∀ {m m' : Memory} {pt pt' : PageTable} {page : ℤ} {pfn : ℕ} {prot : Prot},P m pt →
    frameAlloc m=some (pfn,m') → memoryMapPage M pt page pfn prot=some pt' →
    (fresh → ∀ i : ℕ,(i : ℤ)=page → (pt i).valid=false) → P m' pt'
  /-- A page is unmapped and its frame given back. -/
  unmap : ∀ {m : Memory} {pt : PageTable} {page : ℤ},P m pt →
    (tied → 0≤page ∧ page<M.maxPtLen ∧ D page.toNat ∧ (pt page.toNat).valid=true) →
    P (frameFree m (pt page.toNat).pfn) (memoryUnmapPage M pt page)
  /-- The property does not depend on the contents of the frames. -/
  store : ∀ {m : Memory} {pt : PageTable} (c : ℕ → ℕ → UInt8),P m pt → P {m with contents := c} pt
  /-- Text that is mapped is protected. -/
  protect : ∀ {m : Memory} {pt : PageTable} {page : ℤ} {n : ℕ},P m pt → 0≤page →
    (∀ i : ℕ,page≤ i → i<page+n → (pt i).valid=true) → P m (protectText n page pt)

section Loops

/-- Pages of the part that are mapped. -/
def AllMapped (M : Machine) (D : ℕ → Prop) (pt : PageTable) (page : ℤ) (n : ℕ) : Prop :=
  ∀ j : ℕ,j<n → 0≤page+j ∧ page+j<M.maxPtLen ∧ D (page+j).toNat ∧ (pt (page+j).toNat).valid=true

/-- The listed pages are unmapped. -/
theorem TableRule.freeEntries (hr : TableRule M D fresh tied P) {l : List ℕ} (h : P m pt)
    (hl : tied → ∀ i∈l,i<M.maxPtLen ∧ D i) :
    P (freePageTableEntries M l m pt).1 (freePageTableEntries M l m pt).2 := by
  induction l generalizing m pt with
  | nil => exact h
  | cons j l ih =>
    have hl' : tied → ∀ i∈l,i<M.maxPtLen ∧ D i :=
      fun ht i hi => hl ht i (List.mem_cons_of_mem _ hi)
    unfold freePageTableEntries
    split
    · rename_i hv
      have hn : P (frameFree m (pt (j : ℤ).toNat).pfn) (memoryUnmapPage M pt j) := by
        refine hr.unmap h (fun ht => ?_)
        obtain ⟨hj,hd⟩ := hl ht j List.mem_cons_self
        exact ⟨Int.natCast_nonneg j,by omega,hd,hv⟩
      exact ih hn hl'
    · exact ih h hl'

/-- All pages of a table are unmapped. -/
theorem TableRule.freeTable (hr : TableRule M D fresh tied P) (hD : ∀ i<M.maxPtLen,D i)
    (h : P m pt) : P (memoryFreePageTableFrames M m pt).1 (memoryFreePageTableFrames M m pt).2 :=
  hr.freeEntries h (fun _ i hi => ⟨List.mem_range.1 hi,hD i (List.mem_range.1 hi)⟩)

/-- A range of pages is mapped as far as there are frames. -/
theorem TableRule.mapRangeFrom (hr : TableRule M D fresh tied P) (prot : Prot) (page : ℤ) (n : ℕ)
    (h : P m pt) (hv : fresh → ∀ i : ℕ,page≤ i → i<page+n → (pt i).valid=false) :
    P (mapRangeFrom M prot n page m pt).1 (mapRangeFrom M prot n page m pt).2.1 := by
  induction n generalizing page m pt with
  | zero => exact h
  | succ n ih =>
    unfold FrameTable.mapRangeFrom
    split
    · exact h
    · rename_i f m₁ ha
      split
      · dsimp only
        rw [frameFree_alloc ha]
        exact h
      · rename_i pt₁ hm
        refine ih _ (hr.map h ha hm (fun hf i hi => hv hf i (by omega) (by omega)))
          (fun hf i h₁ h₂ => ?_)
        obtain ⟨h0,_,rfl⟩ := mapPage_eq hm
        rw [update_page h0,if_neg (by omega)]
        exact hv hf i (by omega) (by omega)

/-- A stack grows downwards as far as there are frames. -/
theorem TableRule.growStackPages (hr : TableRule M D fresh tied P) (page : ℤ) (n : ℕ)
    (h : P m pt) (hv : fresh → ∀ i : ℕ,page-n< i → i≤page → (pt i).valid=false) :
    P (growStackPages M n page m pt).1 (growStackPages M n page m pt).2.1 := by
  induction n generalizing page m pt with
  | zero => exact h
  | succ n ih =>
    unfold FrameTable.growStackPages
    split
    · exact h
    · rename_i f m₁ ha
      split
      · dsimp only
        rw [frameFree_alloc ha]
        exact h
      · rename_i pt₁ hm
        refine ih _ (hr.map h ha hm (fun hf i hi => hv hf i (by omega) (by omega)))
          (fun hf i h₁ h₂ => ?_)
        obtain ⟨h0,_,rfl⟩ := mapPage_eq hm
        rw [update_page h0,if_neg (by omega)]
        exact hv hf i (by omega) (by omega)

/-- A growth of mapped pages is undone. -/
theorem TableRule.undoPages (hr : TableRule M D fresh tied P) (h : P m pt)
    (hv : tied → AllMapped M D pt page n) :
    P (undoPages M page n m pt).1 (undoPages M page n m pt).2 := by
  induction n generalizing m pt with
  | zero => exact h
  | succ n ih =>
    unfold FrameTable.undoPages
    refine ih (hr.unmap h (fun ht => hv ht n (Nat.lt_succ_self n))) (fun ht j hj => ?_)
    obtain ⟨h0,h1,_,_⟩ := hv ht n (Nat.lt_succ_self n)
    obtain ⟨hj0,hj1,hdj,hvj⟩ := hv ht j (by omega)
    refine ⟨hj0,hj1,hdj,?_⟩
    rw [unmapPage_eq h0 h1,update_page h0,if_neg (by omega)]
    exact hvj

/-- A heap grows, or its growth is undone. -/
theorem TableRule.growPages (hr : TableRule M D fresh tied P) (page : ℤ) (n k : ℕ) (h : P m pt)
    (hd : tied → ∀ i : ℕ,page≤ i → i<page+k+n → i<M.maxPtLen → D i)
    (hv : tied → AllMapped M D pt page k)
    (hf : fresh → ∀ i : ℕ,page+k≤ i → i<page+k+n → (pt i).valid=false) :
    P (growPages M page n k m pt).1 (growPages M page n k m pt).2.1 := by
  induction n generalizing k m pt with
  | zero => exact h
  | succ n ih =>
    unfold FrameTable.growPages
    split
    · exact hr.undoPages h hv
    · rename_i f m₁ ha
      split
      · dsimp only
        rw [frameFree_alloc ha]
        exact hr.undoPages h hv
      · rename_i pt₁ hm
        have hn := hr.map h ha hm (fun hfr i hi => hf hfr i (by omega) (by omega))
        obtain ⟨hp0,hp1,rfl⟩ := mapPage_eq hm
        refine ih _ hn (fun ht i h₁ h₂ hi => hd ht i h₁ (by omega) hi) (fun ht j hj => ?_)
          (fun hfr i h₁ h₂ => ?_)
        · by_cases hk : j=k
          · rw [hk,Function.update_self]
            exact ⟨hp0,hp1,hd ht _ (by omega) (by omega) (by omega),rfl⟩
          · obtain ⟨hj0,hj1,hdj,hvj⟩ := hv ht j (by omega)
            refine ⟨hj0,hj1,hdj,?_⟩
            rw [Function.update_of_ne (by omega)]
            exact hvj
        · rw [update_page hp0,if_neg (by omega)]
          exact hf hfr i (by omega) (by omega)

/-- The whole loop of a break. -/
theorem TableRule.growHeap (hr : TableRule M D fresh tied P) (page : ℤ) (n : ℕ) (h : P m pt)
    (hd : tied → ∀ i : ℕ,page≤ i → i<page+n → i<M.maxPtLen → D i)
    (hf : fresh → ∀ i : ℕ,page≤ i → i<page+n → (pt i).valid=false) :
    P (FrameTable.growPages M page n 0 m pt).1 (FrameTable.growPages M page n 0 m pt).2.1 :=
  hr.growPages page n 0 h (fun ht i h₁ h₂ hi => hd ht i h₁ (by omega) hi)
    (fun _ j hj => absurd hj (Nat.not_lt_zero j))
    (fun hfr i h₁ h₂ => hf hfr i (by omega) (by omega))

/-- A property that unmapping keeps is kept where a heap shrinks. -/
theorem TableRule.shrinkPages (hr : TableRule M D fresh tied P) (h : P m pt)
    (hd : tied → ∀ i : ℕ,i<n → 0≤page+i ∧ page+i<M.maxPtLen ∧ D (page+i).toNat) :
    P (shrinkPages M n page m pt).1 (shrinkPages M n page m pt).2 := by
  induction n generalizing page m pt with
  | zero => exact h
  | succ n ih =>
    have hd' : tied → ∀ i : ℕ,i<n → 0≤page+1+i ∧ page+1+i<M.maxPtLen ∧ D (page+1+i).toNat := by
      intro ht i hi
      have hs := hd ht (i+1) (by omega)
      rwa [show page+((i+1 : ℕ) : ℤ)=page+1+i by omega] at hs
    unfold FrameTable.shrinkPages
    split
    · rename_i hv
      refine ih (hr.unmap h (fun ht => ?_)) hd'
      obtain ⟨h0,h1,hd0⟩ := hd ht 0 (by omega)
      rw [Int.natCast_zero,Int.add_zero] at h0 h1 hd0
      exact ⟨h0,h1,hd0,hv⟩
    · exact ih h hd'

end Loops

section Spaces

variable {v v' : UserSpace} {env : Env} {args : List (List UInt8)} {li : LoadInfo} {q : Prop}

/-- A heap that has pages is inside the region. -/
def HeapInside (M : Machine) (v : UserSpace) : Prop :=
  M.region1Page (M.upToPage v.userHeapStart)<M.region1Page (M.upToPage v.userBrk) →
    0≤M.region1Page (M.upToPage v.userHeapStart) ∧ M.region1Page (M.upToPage v.userBrk)≤M.maxPtLen

/-- So is the heap of a process with a layout. -/
theorem layout_heapInside (h : LayoutOk M v) : HeapInside M v := by
  have h0 := h.start
  have hz := h.redZone
  have hl := h.limit
  have hold : M.region1Page (M.upToPage v.userBrk)=M.region1Page v.userBrk := by
    rw [upToPage_of_dvd h.aligned]
  have hup : M.region1Page v.userHeapStart≤M.region1Page (M.upToPage v.userHeapStart) :=
    region1Page_mono (upToPage_spec M v.userHeapStart).2
  exact fun _ => ⟨by omega,by omega⟩

/-- A property that mapping and unmapping keep is kept by a moved break. -/
theorem TableRule.moveBrk (hr : TableRule M D fresh tied P) (hD : ∀ i<M.maxPtLen,D i)
    (h : P m v.region1Pt) (hb : tied → HeapInside M v) (hl : fresh → LayoutOk M v) (addr : ℕ) :
    P (moveBrk M m v addr).1 (moveBrk M m v addr).2.1.region1Pt := by
  unfold Syscalls.moveBrk
  split
  · exact h
  · rename_i href
    unfold BrkRefused at href
    have hle : M.region1Page (M.upToPage v.userHeapStart)≤M.region1Page (M.upToPage addr) :=
      region1Page_mono (upToPage_mono (by omega))
    dsimp only
    have hgr := hr.growHeap (M.region1Page (M.upToPage v.userBrk))
      (M.region1Page (M.upToPage addr)-M.region1Page (M.upToPage v.userBrk)).toNat h
      (fun _ i _ _ hi => hD i (by omega)) (fun hf i h₁ h₂ => by
        have hv := hl hf
        rw [upToPage_of_dvd hv.aligned] at h₁ h₂
        exact hv.unmapped i (by omega) (by omega))
    split
    · rename_i m₁ pt₁ hg
      rw [hg] at hgr
      exact hgr
    · rename_i m₁ pt₁ hg
      rw [hg] at hgr
      refine hr.shrinkPages hgr (fun ht i hi => ?_)
      have hp := hb ht (by omega)
      exact ⟨by omega,by omega,hD _ (by omega)⟩

/-- A property that mapping keeps is kept where a stack grows. -/
theorem TableRule.growStack (hr : TableRule M D fresh tied P) (h : P m v.region1Pt)
    (hl : fresh → LayoutOk M v) (addr : ℕ) :
    P (growStack M m v addr).1 (growStack M m v addr).2.1.region1Pt := by
  unfold Syscalls.growStack
  split
  · exact h
  · split
    · exact h
    · rename_i hp
      have hgr := hr.growStackPages (v.userStackLowPage-1)
        (v.userStackLowPage-M.region1Page addr).toNat h (fun hf i h₁ h₂ => by
          have hv := hl hf
          rw [upToPage_of_dvd hv.aligned] at hp
          exact hv.unmapped i (by omega) (by omega))
      split
      · rename_i m₁ pt₁ hg
        rw [hg] at hgr
        exact hgr
      · rename_i m₁ pt₁ hg
        rw [hg] at hgr
        exact hgr

/-- An image is mapped, or a part of it. -/
theorem TableRule.mapImage (hr : TableRule M D fresh tied P) (h : P m pt)
    (hf : fresh → SaneLayout M li args ∧ ∀ i<M.maxPtLen,(pt i).valid=false) :
    P (mapImage M li args m pt).1 (mapImage M li args m pt).2.1 := by
  have hs := stackNpg_nonneg M args
  have hbase : stackBasePg M args=M.maxPtLen-stackNpg M args := rfl
  unfold ProgramLoading.mapImage mapRange
  have htext := hr.mapRangeFrom protReadWrite (textPg M li) li.tNpg.toNat h (fun hfr i h₁ h₂ => by
    obtain ⟨⟨h0,ht,htd,hid,hud,hd,hds,_⟩,hv⟩ := hf hfr
    exact hv i (by omega))
  cases ht : FrameTable.mapRangeFrom M protReadWrite li.tNpg.toNat (textPg M li) m pt with
  | mk m₁ r =>
    obtain ⟨pt₁,ok₁⟩ := r
    rw [ht] at htext
    cases ok₁ with
    | false => exact htext
    | true =>
      dsimp only
      have hv₁ : fresh → ∀ i<M.maxPtLen,textPg M li+li.tNpg≤ i → (pt₁ i).valid=false := by
        intro hfr i hi hti
        obtain ⟨⟨h0,ht',htd,hid,hud,hd,hds,_⟩,hv⟩ := hf hfr
        rw [(mapRangeFrom_table ht).2 i (by omega)]
        exact hv i hi
      have hdata := hr.mapRangeFrom protReadWrite (dataPg M li) (dataNpg li).toNat htext
        (fun hfr i h₁ h₂ => by
          obtain ⟨⟨h0,ht',htd,hid,hud,hd,hds,_⟩,_⟩ := hf hfr
          exact hv₁ hfr i (by omega) (by omega))
      cases hdm : FrameTable.mapRangeFrom M protReadWrite (dataNpg li).toNat (dataPg M li)
          m₁ pt₁ with
      | mk m₂ r₂ =>
        obtain ⟨pt₂,ok₂⟩ := r₂
        rw [hdm] at hdata
        cases ok₂ with
        | false => exact hdata
        | true =>
          refine hr.mapRangeFrom _ _ _ hdata (fun hfr i h₁ h₂ => ?_)
          obtain ⟨⟨h0,ht',htd,hid,hud,hd,hds,_⟩,_⟩ := hf hfr
          rw [(mapRangeFrom_table hdm).2 i (by omega)]
          exact hv₁ hfr i (by omega) (by omega)

/-- LoadProgram frees a table and maps an image into it. -/
theorem TableRule.load {m₁ : Memory} {pt₁ : PageTable} {ok : Bool}
    (hr : TableRule M D fresh tied P) (hD : ∀ i<M.maxPtLen,D i) (h : P m v.region1Pt)
    (hi : fresh → LoadInfoOk M env) (hl : Loading M env args m v li m₁ pt₁ ok) : P m₁ pt₁ := by
  have hm := hr.mapImage (hr.freeTable hD h)
    (fun hf => ⟨(hi hf).layout hl.info hl.accepted,fun i hi => freed_invalid hi⟩)
  rw [hl.image] at hm
  exact hm

/-- The text of an image that has been mapped is protected. -/
theorem TableRule.protectLoaded {m₁ : Memory} {pt₁ : PageTable}
    (hr : TableRule M D fresh tied P) (hl : Loading M env args m v li m₁ pt₁ true)
    (h : P m₁ pt₁) : P m₁ (protectText li.tNpg.toNat (textPg M li) pt₁) := by
  have hacc := hl.accepted
  unfold LayoutRefused at hacc
  exact hr.protect h (by omega) (fun i h₁ h₂ => (mapImage_mapped hl.image (.inl ⟨h₁,h₂⟩)).1)

/-- Every change of a live address space. -/
theorem TableRule.spaceStep (hr : TableRule M D fresh tied P) (hD : ∀ i<M.maxPtLen,D i)
    (h : P m v.region1Pt) (hb : tied → HeapInside M v) (hl : fresh → LayoutOk M v)
    (hi : fresh → LoadInfoOk M env) (hs : SpaceStep M env q m v m' v') : P m' v'.region1Pt := by
  cases hs with
  | brk addr => exact hr.moveBrk hD h hb hl addr
  | grow addr hg => exact hr.growStack h hl addr
  | exec hq hp =>
    obtain ⟨li,m₁,pt₁,c,hload,rfl,rfl⟩ := loadProgram_success hp
    exact hr.store c (hr.protectLoaded hload (hr.load hD h hi hload))

/-- What is left of an address space. -/
theorem TableRule.spaceEnd (hr : TableRule M D fresh tied P) (hD : ∀ i<M.maxPtLen,D i)
    (h : P m v.region1Pt) (hl : fresh → LayoutOk M v) (hi : fresh → LoadInfoOk M env)
    (hs : SpaceEnd M env q m v m' v') : P m' v'.region1Pt := by
  cases hs with
  | kept => exact h
  | grow addr hg => exact hr.growStack h hl addr
  | exec hq hp =>
    obtain ⟨li,m₁,pt₁,ok,c,hload,rfl,rfl⟩ := loadProgram_kill hp
    exact hr.store c (hr.load hD h hi hload)
  | fault hq hp =>
    obtain ⟨li,m₁,pt₁,c,hload,rfl,rfl,_⟩ := loadProgram_fault hp
    exact hr.store c (hr.protectLoaded hload (hr.load hD h hi hload))

end Spaces

end Yalnix.TableLoops
