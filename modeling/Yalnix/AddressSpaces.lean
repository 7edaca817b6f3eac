import Yalnix.Traces

/-!
# Address spaces of processes

What the loops over page tables do to validity and protection, page by page,
and the layout that every process keeps: the heap reaches from its start to
the break, the stack reaches from its lowest page to the end of the region,
all of their pages are mapped for loads and stores, and no page between the
break and the stack is mapped.
-/

namespace Yalnix.AddressSpaces

open Framework FrameTable KernelState Scheduling Ipc Terminals ProcessLifetime ProgramLoading
open Syscalls Traps KernelStart Coherence Operations OperationCoherence CallOperations
open RunInvariants Traces

variable {M : Machine} {m m' : Memory} {pt pt' src : PageTable} {page : ℤ} {n pfn : ℕ} {prot : Prot}
  {ok : Bool}

section Tables

/-- What taking a frame does. -/
theorem frameAlloc_eq (h : frameAlloc m=some (pfn,m')) :
    m.frameAllocated pfn=false ∧ pfn< m.physicalFrameCount ∧
      m'={m with frameAllocated := Function.update m.frameAllocated pfn true} := by
  unfold frameAlloc at h
  split at h
  · rename_i f hf
    injection h with h
    injection h with hp hm
    subst hp
    have hfree := List.find?_some hf
    have hmem := List.mem_range.1 (List.mem_of_find?_eq_some hf)
    exact ⟨by simpa using hfree,hmem,hm.symm⟩
  · cases h

/-- A frame taken and given back. -/
theorem frameFree_alloc (h : frameAlloc m=some (pfn,m')) : frameFree m' pfn=m := by
  obtain ⟨hfree,hlt,rfl⟩ := frameAlloc_eq h
  unfold frameFree
  rw [if_neg (by dsimp only; omega)]
  have he : Function.update (Function.update m.frameAllocated pfn true) pfn false=
      m.frameAllocated := by
    rw [Function.update_idem,Function.update_eq_self_iff]
    exact hfree.symm
  dsimp only
  rw [he]

/-- A page that could be mapped. -/
theorem mapPage_eq (h : memoryMapPage M pt page pfn prot=some pt') :
    0≤page ∧ page<M.maxPtLen ∧ pt'=Function.update pt page.toNat ⟨true,prot,pfn⟩ := by
  unfold memoryMapPage at h
  split at h
  · cases h
  · rename_i hr
    injection h with h
    exact ⟨by omega,by omega,h.symm⟩

/-- A page of the region is unmapped. -/
theorem unmapPage_eq (h0 : 0≤page) (h1 : page<M.maxPtLen) :
    memoryUnmapPage M pt page=Function.update pt page.toNat zeroPte := by
  unfold memoryUnmapPage
  exact if_neg (by omega)

/-- The entry of a page is replaced. -/
theorem update_page {e : Pte} {i : ℕ} (h0 : 0≤page) :
    Function.update pt page.toNat e i=if (i : ℤ)=page then e else pt i := by
  by_cases hi : (i : ℤ)=page
  · have hn : i=page.toNat := by omega
    rw [if_pos hi,hn,Function.update_self]
  · have hn : i≠page.toNat := by omega
    rw [if_neg hi,Function.update_of_ne hn]

/-- Freeing keeps only valid entries that are not listed. -/
theorem freeEntries_valid {l : List ℕ} {i : ℕ}
    (h : ((freePageTableEntries M l m pt).2 i).valid=true) :
    (pt i).valid=true ∧ (i<M.maxPtLen → i∉l) := by
  induction l generalizing m pt with
  | nil => exact ⟨h,fun _ => List.not_mem_nil⟩
  | cons j rest ih =>
    unfold freePageTableEntries at h
    split at h
    · obtain ⟨hv,hn⟩ := ih h
      by_cases hj : j<M.maxPtLen
      · rw [unmapPage_eq (by omega) (by omega),update_page (by omega)] at hv
        split at hv
        · cases hv
        · rename_i hij
          refine ⟨hv,fun hi hm => ?_⟩
          rcases List.mem_cons.1 hm with rfl|hm
          · exact hij rfl
          · exact hn hi hm
      · unfold memoryUnmapPage at hv
        rw [if_pos (by omega)] at hv
        refine ⟨hv,fun hi hm => ?_⟩
        rcases List.mem_cons.1 hm with rfl|hm
        · exact hj hi
        · exact hn hi hm
    · rename_i hnv
      obtain ⟨hv,hn⟩ := ih h
      refine ⟨hv,fun hi hm => ?_⟩
      rcases List.mem_cons.1 hm with rfl|hm
      · exact hnv hv
      · exact hn hi hm

/-- A freed table maps nothing. -/
theorem freed_invalid {i : ℕ} (hi : i<M.maxPtLen) :
    ((memoryFreePageTableFrames M m pt).2 i).valid=false := by
  by_contra hv
  exact (freeEntries_valid (Bool.of_not_eq_false hv)).2 hi (List.mem_range.2 hi)

/-- Mapping a range maps its pages and no other. -/
theorem mapRangeFrom_table (h : mapRangeFrom M prot n page m pt=(m',pt',ok)) :
    (ok=true → ∀ i : ℕ,page≤ i → i<page+n → (pt' i).valid=true ∧ (pt' i).prot=prot) ∧
      ∀ i : ℕ,¬(page≤ i ∧ i<page+n) → pt' i=pt i := by
  induction n generalizing page m pt with
  | zero =>
    unfold mapRangeFrom at h
    injection h with _ h
    injection h with h _
    rw [h]
    exact ⟨fun _ i h₁ h₂ => by omega,fun _ _ => rfl⟩
  | succ n ih =>
    unfold mapRangeFrom at h
    split at h
    · injection h with _ h
      injection h with h hok
      rw [←h,←hok]
      exact ⟨fun hf => (by cases hf),fun _ _ => rfl⟩
    · split at h
      · injection h with _ h
        injection h with h hok
        rw [←h,←hok]
        exact ⟨fun hf => (by cases hf),fun _ _ => rfl⟩
      · rename_i pt₁ hmap
        obtain ⟨h0,h1,he⟩ := mapPage_eq hmap
        obtain ⟨hin,hout⟩ := ih h
        refine ⟨fun hok i h₁ h₂ => ?_,fun i hi => ?_⟩
        · by_cases hip : (i : ℤ)=page
          · rw [hout i (by omega),he,update_page h0,if_pos hip]
            exact ⟨rfl,rfl⟩
          · exact hin hok i (by omega) (by omega)
        · rw [hout i (by omega),he,update_page h0,if_neg (by omega)]

/-- A range that could be mapped is in the region. -/
theorem mapRangeFrom_inside (h : mapRangeFrom M prot n page m pt=(m',pt',true)) (hn : 0<n) :
    0≤page ∧ page+n≤M.maxPtLen := by
  induction n generalizing page m pt with
  | zero => omega
  | succ n ih =>
    unfold mapRangeFrom at h
    split at h
    · injection h with _ h
      injection h with _ h
      cases h
    · split at h
      · injection h with _ h
        injection h with _ h
        cases h
      · rename_i hm
        obtain ⟨h0,h1,_⟩ := mapPage_eq hm
        refine ⟨h0,?_⟩
        rcases Nat.eq_zero_or_pos n with rfl|hpos
        · push_cast
          omega
        · have hend := (ih h hpos).2
          push_cast
          omega

/-- Growing a stack maps the pages below it and no other. -/
theorem growStackPages_table (h : growStackPages M n page m pt=(m',pt',ok)) :
    (ok=true → ∀ i : ℕ,page-n< i → i≤page → (pt' i).valid=true ∧ (pt' i).prot=protReadWrite) ∧
      ∀ i : ℕ,¬(page-n< i ∧ i≤page) → pt' i=pt i := by
  induction n generalizing page m pt with
  | zero =>
    unfold growStackPages at h
    injection h with _ h
    injection h with h _
    rw [h]
    exact ⟨fun _ i h₁ h₂ => by omega,fun _ _ => rfl⟩
  | succ n ih =>
    unfold growStackPages at h
    split at h
    · injection h with _ h
      injection h with h hok
      rw [←h,←hok]
      exact ⟨fun hf => (by cases hf),fun _ _ => rfl⟩
    · split at h
      · injection h with _ h
        injection h with h hok
        rw [←h,←hok]
        exact ⟨fun hf => (by cases hf),fun _ _ => rfl⟩
      · rename_i pt₁ hmap
        obtain ⟨h0,h1,he⟩ := mapPage_eq hmap
        obtain ⟨hin,hout⟩ := ih h
        refine ⟨fun hok i h₁ h₂ => ?_,fun i hi => ?_⟩
        · by_cases hip : (i : ℤ)=page
          · rw [hout i (by omega),he,update_page h0,if_pos hip]
            exact ⟨rfl,rfl⟩
          · exact hin hok i (by omega) (by omega)
        · rw [hout i (by omega),he,update_page h0,if_neg (by omega)]

/-- Undoing a growth unmaps its pages and no other. -/
theorem undoPages_table (h0 : 0≤page) (h1 : page+n≤M.maxPtLen) (i : ℕ) :
    (undoPages M page n m pt).2 i=if page≤ i ∧ i<page+n then zeroPte else pt i := by
  induction n generalizing m pt with
  | zero =>
    unfold undoPages
    exact (if_neg (by omega)).symm
  | succ n ih =>
    unfold undoPages
    rw [ih (by omega),unmapPage_eq (by omega) (by omega),update_page (by omega)]
    by_cases hi : page≤ i ∧ i<page+n
    · rw [if_pos hi,if_pos (by omega)]
    · rw [if_neg hi]
      by_cases hip : (i : ℤ)=page+n
      · rw [if_pos hip,if_pos (by omega)]
      · rw [if_neg hip,if_neg (by omega)]

/-- A heap of k pages above a page was to grow by n more. -/
structure Grown (page : ℤ) (k n : ℕ) (pt pt' : PageTable) (ok : Bool) : Prop where
  /-- The new pages are mapped. -/
  mapped : ok=true → ∀ i : ℕ,page+k≤ i → i<page+k+n →
    (pt' i).valid=true ∧ (pt' i).prot=protReadWrite
  /-- The other pages are as they were. -/
  others : ok=true → ∀ i : ℕ,¬(page+k≤ i ∧ i<page+k+n) → pt' i=pt i
  /-- A failure unmaps the heap. -/
  undone : ok=false → ∀ i : ℕ,page≤ i → i<page+k+n → (page+k≤ i → (pt i).valid=false) →
    (pt' i).valid=false
  /-- Pages outside are never touched. -/
  outside : ∀ i : ℕ,¬(page≤ i ∧ i<page+k+n) → pt' i=pt i

/-- A failed growth has been undone. -/
theorem grown_undone {k : ℕ} (h0 : 0≤page) (h1 : page+k≤M.maxPtLen) (n : ℕ) :
    Grown page k n pt (undoPages M page k m pt).2 false := by
  refine ⟨fun hf => (by cases hf),fun hf => (by cases hf),fun _ i h₁ h₂ hv => ?_,fun i hi => ?_⟩
  · rw [undoPages_table h0 h1]
    split
    · rfl
    · exact hv (by omega)
  · rw [undoPages_table h0 h1,if_neg (by omega)]

/-- Growing a heap maps its pages; a failure leaves them unmapped. -/
theorem growPages_table {k : ℕ} (h : growPages M page n k m pt=(m',pt',ok)) (h0 : 0≤page)
    (h1 : page+k≤M.maxPtLen) : Grown page k n pt pt' ok := by
  induction n generalizing k m pt with
  | zero =>
    unfold growPages at h
    injection h with _ h
    injection h with h hok
    rw [←h,←hok]
    exact ⟨fun _ i h₁ h₂ => by omega,fun _ _ _ => rfl,fun hf => (by cases hf),fun _ _ => rfl⟩
  | succ n ih =>
    unfold growPages at h
    split at h
    · injection h with _ h
      injection h with h hok
      rw [←h,←hok]
      exact grown_undone h0 h1 _
    · split at h
      · injection h with _ h
        injection h with h hok
        rw [←h,←hok]
        exact grown_undone h0 h1 _
      · rename_i pt₁ hmap
        obtain ⟨hp0,hp1,he⟩ := mapPage_eq hmap
        have hg := ih h (by omega)
        refine ⟨fun ht i h₁ h₂ => ?_,fun ht i hi => ?_,fun hf i h₁ h₂ hv => ?_,fun i hi => ?_⟩
        · by_cases hip : (i : ℤ)=page+k
          · rw [hg.others ht i (by omega),he,update_page hp0,if_pos hip]
            exact ⟨rfl,rfl⟩
          · exact hg.mapped ht i (by omega) (by omega)
        · rw [hg.others ht i (by omega),he,update_page hp0,if_neg (by omega)]
        · refine hg.undone hf i h₁ (by omega) (fun hk => ?_)
          rw [he,update_page hp0,if_neg (by omega)]
          exact hv (by omega)
        · rw [hg.outside i (by omega),he,update_page hp0,if_neg (by omega)]

/-- Shrinking a heap unmaps its pages and no other. -/
theorem shrinkPages_table (m : Memory) (pt : PageTable) (page : ℤ) (n : ℕ) (h0 : 0≤page)
    (h1 : page+n≤M.maxPtLen) :
    (∀ i : ℕ,page≤ i → i<page+n → ((shrinkPages M n page m pt).2 i).valid=false) ∧
      ∀ i : ℕ,¬(page≤ i ∧ i<page+n) → (shrinkPages M n page m pt).2 i=pt i := by
  induction n generalizing page m pt with
  | zero => exact ⟨fun i h₁ h₂ => by omega,fun _ _ => rfl⟩
  | succ n ih =>
    unfold shrinkPages
    split
    · rename_i hv
      obtain ⟨hin,hout⟩ := ih (frameFree m (pt page.toNat).pfn) (memoryUnmapPage M pt page)
        (page+1) (by omega) (by omega)
      have he : memoryUnmapPage M pt page=Function.update pt page.toNat zeroPte :=
        unmapPage_eq h0 (by omega)
      refine ⟨fun i h₁ h₂ => ?_,fun i hi => ?_⟩
      · by_cases hip : (i : ℤ)=page
        · rw [hout i (by omega),he,update_page h0,if_pos hip]
          rfl
        · exact hin i (by omega) (by omega)
      · rw [hout i (by omega),he,update_page h0,if_neg (by omega)]
    · rename_i hv
      obtain ⟨hin,hout⟩ := ih m pt (page+1) (by omega) (by omega)
      refine ⟨fun i h₁ h₂ => ?_,fun i hi => ?_⟩
      · by_cases hip : (i : ℤ)=page
        · have hi : i=page.toNat := by omega
          rw [hout i (by omega),hi]
          exact Bool.of_not_eq_true hv
        · exact hin i (by omega) (by omega)
      · exact hout i (by omega)

/-- A copied table has the valid entries and the protections of its source. -/
theorem copyPages_table {l : List ℕ} (h : copyRegion1Pages M src l m pt=(m',some pt'))
    (hl : l.Nodup) :
    (∀ i∈l,(src i).valid=true → (pt' i).valid=true ∧ (pt' i).prot=(src i).prot) ∧
      ∀ i,(i∈l → (src i).valid=false) → pt' i=pt i := by
  induction l generalizing m pt with
  | nil =>
    unfold copyRegion1Pages at h
    injection h with _ h
    injection h with h
    rw [h]
    exact ⟨fun i hi => (by cases hi),fun _ _ => rfl⟩
  | cons j rest ih =>
    obtain ⟨hj,hrest⟩ := List.nodup_cons.1 hl
    unfold copyRegion1Pages at h
    split at h
    · rename_i hv
      split at h
      · cases h
      · split at h
        · cases h
        · rename_i pt₁ hmap
          obtain ⟨h0,h1,he⟩ := mapPage_eq hmap
          obtain ⟨hin,hout⟩ := ih h hrest
          refine ⟨fun i hi hvi => ?_,fun i hi => ?_⟩
          · rcases List.mem_cons.1 hi with rfl|hi
            · rw [hout i (fun hm => absurd hm hj),he,update_page h0,if_pos rfl]
              exact ⟨rfl,rfl⟩
            · exact hin i hi hvi
          · have hij : i≠j := by
              rintro rfl
              rw [hi List.mem_cons_self] at hv
              cases hv
            rw [hout i (fun hm => hi (List.mem_cons_of_mem _ hm)),he,update_page h0,
              if_neg (by omega)]
    · rename_i hv
      obtain ⟨hin,hout⟩ := ih h hrest
      refine ⟨fun i hi hvi => ?_,fun i hi => hout i (fun hm => hi (List.mem_cons_of_mem _ hm))⟩
      rcases List.mem_cons.1 hi with rfl|hi
      · exact absurd hvi hv
      · exact hin i hi hvi

/-- Protecting text changes no other page. -/
theorem protectText_table (h0 : 0≤page) {i : ℕ} (hi : ¬(page≤ i ∧ i<page+n)) :
    protectText n page pt i=pt i := by
  induction n generalizing page pt with
  | zero => rfl
  | succ n ih =>
    unfold protectText
    rw [ih (by omega) (by omega),update_page h0,if_neg (by omega)]

/-- Protecting text keeps the valid entries. -/
theorem protectText_valid (i : ℕ) : (protectText n page pt i).valid=(pt i).valid ∧
    (protectText n page pt i).pfn=(pt i).pfn := by
  induction n generalizing page pt with
  | zero => exact ⟨rfl,rfl⟩
  | succ n ih =>
    unfold protectText
    rw [(ih).1,(ih).2]
    by_cases hi : i=page.toNat
    · rw [hi,Function.update_self]
      exact ⟨rfl,rfl⟩
    · rw [Function.update_of_ne hi]
      exact ⟨rfl,rfl⟩

end Tables

section Layout

variable {v v' : UserSpace} {addr : ℕ}

/-- Rounding up goes up to a page boundary. -/
theorem upToPage_spec (M : Machine) (addr : ℕ) :
    M.pageSize ∣ M.upToPage addr ∧ addr≤M.upToPage addr := by
  have hp := M.pageSize_pos
  unfold Machine.upToPage
  refine ⟨Nat.dvd_mul_left _ _,?_⟩
  have hd := Nat.div_add_mod (addr+(M.pageSize-1)) M.pageSize
  have hm := Nat.mod_lt (addr+(M.pageSize-1)) hp
  rw [Nat.mul_comm] at hd
  omega

/-- A page boundary is rounded to itself. -/
theorem upToPage_of_dvd (h : M.pageSize ∣ addr) : M.upToPage addr=addr := by
  have hp := M.pageSize_pos
  obtain ⟨k,rfl⟩ := h
  unfold Machine.upToPage
  rw [Nat.mul_add_div hp,Nat.div_eq_of_lt (by omega : M.pageSize-1<M.pageSize),Nat.add_zero,
    Nat.mul_comm]

/-- Higher addresses are on higher pages. -/
theorem region1Page_mono {a b : ℕ} (h : a≤b) : M.region1Page a≤M.region1Page b := by
  unfold Machine.region1Page
  exact Int.ediv_le_ediv (by exact_mod_cast M.pageSize_pos) (by omega)

/-- Rounded addresses are in order. -/
theorem upToPage_mono {a b : ℕ} (h : a≤b) : M.upToPage a≤M.upToPage b := by
  unfold Machine.upToPage
  exact Nat.mul_le_mul_right _ (Nat.div_le_div_right (by omega))

/-- Heap and stack of a process, and the unmapped pages between them. -/
structure UserLayout (M : Machine) (v : UserSpace) : Prop where
  /-- The break is on a page boundary. -/
  aligned : M.pageSize ∣ v.userBrk
  /-- The break is not below the heap. -/
  heap_le : M.region1Page v.userHeapStart≤M.region1Page v.userBrk
  /-- The stack is above the break. -/
  redZone : M.region1Page v.userBrk<v.userStackLowPage
  /-- The stack is in the region. -/
  limit : v.userStackLowPage≤M.maxPtLen
  /-- Heap pages are mapped. -/
  heap : ∀ i : ℕ,M.region1Page v.userHeapStart≤ i → i<M.region1Page v.userBrk →
    (v.region1Pt i).valid=true ∧ (v.region1Pt i).prot=protReadWrite
  /-- Stack pages are mapped. -/
  stack : ∀ i : ℕ,v.userStackLowPage≤ i → i<M.maxPtLen →
    (v.region1Pt i).valid=true ∧ (v.region1Pt i).prot=protReadWrite
  /-- No page between them is mapped. -/
  unmapped : ∀ i : ℕ,M.region1Page v.userBrk≤ i → i<v.userStackLowPage →
    (v.region1Pt i).valid=false

/-- A layout whose heap starts in the region. -/
structure LayoutOk (M : Machine) (v : UserSpace) : Prop extends UserLayout M v where
  /-- The heap starts in the region. -/
  start : 0≤M.region1Page v.userHeapStart

/-- The layout of a table with the same mapped pages. -/
theorem LayoutOk.sameTable (h : LayoutOk M v) (hk : v'.userBrk=v.userBrk)
    (hh : v'.userHeapStart=v.userHeapStart) (hs : v'.userStackLowPage=v.userStackLowPage)
    (hv : ∀ i<M.maxPtLen,(v'.region1Pt i).valid=(v.region1Pt i).valid)
    (hp : ∀ i<M.maxPtLen,(v.region1Pt i).valid=true → (v'.region1Pt i).prot=(v.region1Pt i).prot) :
    LayoutOk M v' := by
  have hz := h.redZone
  have hl := h.limit
  refine ⟨⟨?_,?_,?_,?_,fun i h₁ h₂ => ?_,fun i h₁ h₂ => ?_,fun i h₁ h₂ => ?_⟩,?_⟩
  · rw [hk]
    exact h.aligned
  · rw [hk,hh]
    exact h.heap_le
  · rw [hk,hs]
    exact hz
  · rw [hs]
    exact hl
  · rw [hh] at h₁
    rw [hk] at h₂
    obtain ⟨hval,hprot⟩ := h.heap i h₁ h₂
    rw [hv i (by omega),hp i (by omega) hval]
    exact ⟨hval,hprot⟩
  · rw [hs] at h₁
    obtain ⟨hval,hprot⟩ := h.stack i h₁ h₂
    rw [hv i h₂,hp i h₂ hval]
    exact ⟨hval,hprot⟩
  · rw [hk] at h₁
    rw [hs] at h₂
    rw [hv i (by omega)]
    exact h.unmapped i h₁ h₂
  · rw [hh]
    exact h.start

/-- A moved break keeps the heap below the stack. -/
theorem layout_brk (h : LayoutOk M v) (addr : ℕ) : LayoutOk M (moveBrk M m v addr).2.1 := by
  have h0 := h.start
  have hle := h.heap_le
  have hz := h.redZone
  have hl := h.limit
  have hold : M.region1Page (M.upToPage v.userBrk)=M.region1Page v.userBrk := by
    rw [upToPage_of_dvd h.aligned]
  unfold moveBrk
  split
  · exact h
  · rename_i href
    unfold BrkRefused at href
    have hstack : M.region1Page (M.upToPage addr)<v.userStackLowPage := by omega
    have hheap : M.region1Page v.userHeapStart≤M.region1Page (M.upToPage addr) :=
      region1Page_mono (by have := (upToPage_spec M addr).2; omega)
    dsimp only
    rw [hold]
    split
    · rename_i m₁ pt₁ hg
      have hgr := growPages_table hg (by omega) (by omega)
      refine h.sameTable rfl rfl rfl (fun i hi => ?_) (fun i hi hv => ?_)
      · dsimp only
        by_cases hin : M.region1Page v.userBrk≤ i ∧
            i<M.region1Page v.userBrk+(0 : ℕ)+
              (M.region1Page (M.upToPage addr)-M.region1Page v.userBrk).toNat
        · have hu := h.unmapped i hin.1 (by omega)
          rw [hgr.undone rfl i hin.1 hin.2 (fun _ => hu),hu]
        · rw [hgr.outside i hin]
      · dsimp only
        rw [hgr.outside i]
        rintro ⟨h₁,h₂⟩
        rw [h.unmapped i h₁ (by omega)] at hv
        cases hv
    · rename_i m₁ pt₁ hg
      have hgr := growPages_table hg (by omega) (by omega)
      obtain ⟨hsin,hsout⟩ := @shrinkPages_table M m₁ pt₁ (M.region1Page (M.upToPage addr))
        (M.region1Page v.userBrk-M.region1Page (M.upToPage addr)).toNat (by omega) (by omega)
      refine ⟨⟨(upToPage_spec M addr).1,hheap,hstack,hl,fun i h₁ h₂ => ?_,fun i h₁ h₂ => ?_,
        fun i h₁ h₂ => ?_⟩,h0⟩
      · dsimp only at h₁ h₂ ⊢
        rw [hsout i (by omega)]
        by_cases hib : (i : ℤ)<M.region1Page v.userBrk
        · rw [hgr.outside i (by omega)]
          exact h.heap i h₁ hib
        · exact hgr.mapped rfl i (by omega) (by omega)
      · dsimp only at h₁ h₂ ⊢
        rw [hsout i (by omega),hgr.outside i (by omega)]
        exact h.stack i h₁ h₂
      · dsimp only at h₁ h₂ ⊢
        by_cases hib : (i : ℤ)<M.region1Page v.userBrk
        · exact hsin i h₁ (by omega)
        · rw [hsout i (by omega),hgr.outside i (by omega)]
          exact h.unmapped i (by omega) h₂

/-- A stack that grew keeps the layout. -/
theorem layout_grow (h : LayoutOk M v) (hg : (growStack M m v addr).2.2=true) :
    LayoutOk M (growStack M m v addr).2.1 := by
  have h0 := h.start
  have hle := h.heap_le
  have hz := h.redZone
  have hl := h.limit
  have hold : M.region1Page (M.upToPage v.userBrk)=M.region1Page v.userBrk := by
    rw [upToPage_of_dvd h.aligned]
  unfold growStack at hg ⊢
  split at hg
  · cases hg
  · rename_i hr
    rw [if_neg hr]
    split at hg
    · cases hg
    · rename_i hp
      rw [if_neg hp]
      rw [hold] at hp
      split at hg
      · cases hg
      · rename_i m₁ pt₁ he
        obtain ⟨hin,hout⟩ := growStackPages_table he
        refine ⟨⟨h.aligned,hle,?_,?_,fun i h₁ h₂ => ?_,fun i h₁ h₂ => ?_,fun i h₁ h₂ => ?_⟩,h0⟩
        · dsimp only
          omega
        · dsimp only
          omega
        · dsimp only at h₁ h₂ ⊢
          rw [hout i (by omega)]
          exact h.heap i h₁ h₂
        · dsimp only at h₁ h₂ ⊢
          by_cases his : (i : ℤ)<v.userStackLowPage
          · exact hin rfl i (by omega) (by omega)
          · rw [hout i (by omega)]
            exact h.stack i (by omega) h₂
        · dsimp only at h₁ h₂ ⊢
          rw [hout i (by omega)]
          exact h.unmapped i h₁ (by omega)

/-- What is assumed of LoadInfo: page counts are not negative, the text ends
at or below the first data page, the zeroed data begins in the data pages and
is not of negative length, and, rounded up, it ends with the data pages. -/
def LoadInfoOk (M : Machine) (env : Env) : Prop :=
  ∀ li,env.loadInfo=some li → 0≤li.tNpg ∧ 0≤li.idNpg ∧ 0≤li.udNpg ∧
    textPg M li+li.tNpg≤dataPg M li ∧
    M.region1Page (M.upToPage li.udEnd)=dataPg M li+(li.idNpg+li.udNpg) ∧
    li.idVaddr≤li.idEnd ∧ li.idEnd≤li.udEnd

/-- The layout of an accepted image as assumed: no sum of the check has left
the range of a C int, and the segments stand in order in the region. -/
structure SaneLayout (M : Machine) (li : LoadInfo) (args : List (List UInt8)) : Prop where
  /-- The text begins in the region. -/
  textStart : 0≤textPg M li
  /-- Text pages are counted. -/
  textCount : 0≤li.tNpg
  /-- The text ends at or below the data. -/
  textData : textPg M li+li.tNpg≤dataPg M li
  /-- Initialised data pages are counted. -/
  dataCount : 0≤li.idNpg
  /-- So are zeroed ones. -/
  zeroCount : 0≤li.udNpg
  /-- Their sum is a C int. -/
  dataNpg : ProgramLoading.dataNpg li=li.idNpg+li.udNpg
  /-- The data ends below the stack, with a page between them. -/
  dataStack : dataPg M li+ProgramLoading.dataNpg li<stackBasePg M args
  /-- The break is the end of the data pages. -/
  brk : M.region1Page (M.upToPage li.udEnd)=dataPg M li+ProgramLoading.dataNpg li

/-- A page number relative to Region 1 is a C int. -/
theorem region1Page_lt {addr : ℕ} (h : addr<2^32+M.pageSize) : M.region1Page addr<2^31 := by
  have hp := M.pageSize_word
  unfold Machine.region1Page
  refine Int.ediv_lt_of_lt_mul (by omega) ?_
  omega

/-- Rounding up adds less than a page. -/
theorem upToPage_lt (addr : ℕ) : M.upToPage addr<addr+M.pageSize := by
  have hp := M.pageSize_pos
  have hfloor := Nat.div_mul_le_self (addr+(M.pageSize-1)) M.pageSize
  unfold Machine.upToPage
  omega

/-- An accepted image as assumed has the layout. -/
theorem LoadInfoOk.layout {env : Env} {li : LoadInfo} {args : List (List UInt8)}
    (h : LoadInfoOk M env) (hi : env.loadInfo=some li) (hacc : ¬LayoutRefused M li args) :
    SaneLayout M li args := by
  obtain ⟨ht,hid,hud,htd,hend,_⟩ := h li hi
  have hword : li.udEnd<2^32 := li.addresses_word li.udEnd (by simp)
  have hlt := @region1Page_lt M (M.upToPage li.udEnd) (by have := @upToPage_lt M li.udEnd; omega)
  unfold LayoutRefused at hacc
  have hsum : ProgramLoading.dataNpg li=li.idNpg+li.udNpg := wrap32_eq (by omega) (by omega)
  rw [hsum,wrap32_eq (x := textPg M li+li.tNpg) (by omega) (by omega),
    wrap32_eq (x := dataPg M li+(li.idNpg+li.udNpg)) (by omega) (by omega)] at hacc
  exact ⟨by omega,ht,htd,hid,hud,hsum,by omega,by omega⟩

/-- The image whose mapping LoadProgram started. -/
structure Loading (M : Machine) (env : Env) (args : List (List UInt8)) (m : Memory)
    (v : UserSpace) (li : LoadInfo) (m₁ : Memory) (pt₁ : PageTable) (ok : Bool) : Prop where
  /-- LoadInfo reported the image. -/
  info : env.loadInfo=some li
  /-- Its layout was accepted. -/
  accepted : ¬LayoutRefused M li args
  /-- It was mapped into the freed table. -/
  image : mapImage M li args (memoryFreePageTableFrames M m v.region1Pt).1
    (memoryFreePageTableFrames M m v.region1Pt).2=(m₁,pt₁,ok)

/-- The files and blocks of LoadProgram when it begins to fill an image. -/
def fillStart (argbuf : ℕ) : Resources := Resources.malloc ⟨1,0,[],[]⟩ argbuf

/-- Behind its checks LoadProgram maps an image and fills it. -/
theorem loadProgram_past {env : Env} {args : List (List UInt8)}
    (he : loadProgram M env args n m v≠.error) :
    ∃ li m₁ pt₁ ok,Loading M env args m v li m₁ pt₁ ok ∧
      loadProgram M env args n m v=
        if ok=true then
          (fillImageRun M env li args n m₁ {v with region1Pt := pt₁} (fillStart n)).1
        else .kill m₁ {v with region1Pt := pt₁} := by
  unfold loadProgram loadProgramRun at he ⊢
  split at he
  · exact absurd rfl he
  · rename_i hopen
    rw [if_neg hopen]
    split at he
    · exact absurd rfl he
    · rename_i li hli
      split at he
      · exact absurd rfl he
      · rename_i hentry
        rw [if_neg hentry]
        split at he
        · exact absurd rfl he
        · rename_i hacc
          rw [if_neg hacc]
          split at he
          · exact absurd rfl he
          · rename_i hbuf
            rw [if_neg hbuf]
            cases himg : mapImage M li args (memoryFreePageTableFrames M m v.region1Pt).1
                (memoryFreePageTableFrames M m v.region1Pt).2 with
            | mk m₁ x =>
              obtain ⟨pt₁,ok⟩ := x
              refine ⟨li,m₁,pt₁,ok,⟨hli,hacc,himg⟩,?_⟩
              cases ok with
              | false => rfl
              | true => rfl

/-- A segment that was read: its size is not negative, its destination can be
stored to, and the bytes of the file stand there. -/
structure SegmentRead (M : Machine) (env : Env) (faddr vaddr : ℕ) (npg : ℤ) (pt : PageTable)
    (bytes : ℕ → UInt8) (contents contents' : ℕ → ℕ → UInt8) : Prop where
  /-- The size is not negative. -/
  size : 0≤ segmentSize M npg
  /-- The pages of the destination are mapped for stores. -/
  writable : CanStore M pt vaddr (segmentSize M npg).toNat
  /-- The file is long enough. -/
  file : env.fileRead faddr (segmentSize M npg).toNat=some bytes
  /-- The bytes have been stored. -/
  stored : contents'=storeBytes M pt bytes vaddr (segmentSize M npg).toNat contents

/-- What a read that succeeds has done. -/
theorem readSegment_some {env : Env} {faddr vaddr : ℕ} {npg : ℤ}
    {contents contents' : ℕ → ℕ → UInt8}
    (h : readSegment M env faddr vaddr npg pt contents=some contents') :
    ∃ bytes,SegmentRead M env faddr vaddr npg pt bytes contents contents' := by
  unfold readSegment at h
  split at h
  · cases h
  · rename_i hsize
    split at h
    · rename_i hstore
      obtain ⟨bytes,hfile,hstored⟩ := Option.map_eq_some_iff.1 h
      exact ⟨bytes,⟨by omega,hstore,hfile,hstored.symm⟩⟩
    · cases h

/-- An image that was filled: both segments were read, the stores behind the
reads were allowed, and the process is set up for the image. -/
structure ImageFilled (M : Machine) (env : Env) (li : LoadInfo) (args : List (List UInt8))
    (text data : ℕ → UInt8) (m : Memory) (v : UserSpace) (m' : Memory) (v' : UserSpace)
    (pc : ℕ) (sp : ℤ) : Prop where
  /-- The text, and behind it the data, was read. -/
  reads : ∃ c c',SegmentRead M env li.tFaddr li.tVaddr li.tNpg v.region1Pt text m.contents c ∧
    SegmentRead M env li.idFaddr li.idVaddr li.idNpg v.region1Pt data c c' ∧
    m'={m with
      contents := storeStack M v.region1Pt args
        (storeBytes M v.region1Pt (fun _ => 0) li.idEnd (li.udEnd-li.idEnd) c')}
  /-- The stores behind the reads were allowed. -/
  fill : CanFill M li args (protectText li.tNpg.toNat (textPg M li) v.region1Pt)
  /-- The address space has protected text, the heap of the file and its stack. -/
  space : v'={v with
    region1Pt := protectText li.tNpg.toNat (textPg M li) v.region1Pt
    userHeapStart := imageBrk M li
    userBrk := imageBrk M li
    userStackLowPage := stackBasePg M args}
  /-- The program begins at its entry point. -/
  pc_eq : pc=li.entry
  /-- Its stack begins at the computed pointer. -/
  sp_eq : sp=stackPtr M args

/-- What filling an image that succeeds has done. -/
theorem fillImage_success {env : Env} {args : List (List UInt8)} {li : LoadInfo} {pc : ℕ} {sp : ℤ}
    {r : Resources} (h : (fillImageRun M env li args n m v r).1=.success m' v' pc sp) :
    ∃ text data,ImageFilled M env li args text data m v m' v' pc sp := by
  unfold fillImageRun at h
  split at h
  · cases h
  · rename_i c htext
    split at h
    · cases h
    · rename_i c' hdata
      split at h
      · rename_i hfill
        injection h with hm hv hpc hsp
        obtain ⟨text,ht⟩ := readSegment_some htext
        obtain ⟨data,hd⟩ := readSegment_some hdata
        exact ⟨text,data,⟨c,c',ht,hd,hm.symm⟩,hfill,hv.symm,hpc.symm,hsp.symm⟩
      · cases h

/-- An image that could not be read changes contents only. -/
theorem fillImage_kill {env : Env} {args : List (List UInt8)} {li : LoadInfo} {r : Resources}
    (h : (fillImageRun M env li args n m v r).1=.kill m' v') :
    (∃ c,m'={m with contents := c}) ∧ v'=v := by
  unfold fillImageRun at h
  split at h
  · injection h with hm hv
    exact ⟨⟨m.contents,hm.symm⟩,hv.symm⟩
  · split at h
    · injection h with hm hv
      exact ⟨⟨_,hm.symm⟩,hv.symm⟩
    · split at h
      · cases h
      · cases h

/-- An image whose filling stopped the kernel has changed contents and has the
protection of its text. -/
theorem fillImage_fault {env : Env} {args : List (List UInt8)} {li : LoadInfo} {r : Resources}
    (h : (fillImageRun M env li args n m v r).1=.fault m' v') :
    (∃ c,m'={m with contents := c}) ∧
      v'={v with region1Pt := protectText li.tNpg.toNat (textPg M li) v.region1Pt} ∧
      ¬CanFill M li args (protectText li.tNpg.toNat (textPg M li) v.region1Pt) := by
  unfold fillImageRun at h
  split at h
  · cases h
  · split at h
    · cases h
    · split at h
      · cases h
      · rename_i hfill
        injection h with hm hv
        exact ⟨⟨_,hm.symm⟩,hv.symm,hfill⟩

/-- A program that was loaded. -/
theorem loadProgram_success {env : Env} {args : List (List UInt8)} {pc : ℕ} {sp : ℤ}
    (h : loadProgram M env args n m v=.success m' v' pc sp) :
    ∃ li m₁ pt₁ c,Loading M env args m v li m₁ pt₁ true ∧ m'={m₁ with contents := c} ∧
      v'={v with
        region1Pt := protectText li.tNpg.toNat (textPg M li) pt₁
        userHeapStart := imageBrk M li
        userBrk := imageBrk M li
        userStackLowPage := stackBasePg M args} := by
  obtain ⟨li,m₁,pt₁,ok,hload,heq⟩ := loadProgram_past (by rw [h]; simp)
  rw [h] at heq
  cases ok with
  | false => cases heq
  | true =>
    obtain ⟨text,data,hf⟩ := fillImage_success heq.symm
    obtain ⟨c,c',_,_,hm⟩ := hf.reads
    exact ⟨li,m₁,pt₁,_,hload,hm,hf.space⟩

/-- A program that could not be completed. -/
theorem loadProgram_kill {env : Env} {args : List (List UInt8)}
    (h : loadProgram M env args n m v=.kill m' v') :
    ∃ li m₁ pt₁ ok c,Loading M env args m v li m₁ pt₁ ok ∧ m'={m₁ with contents := c} ∧
      v'={v with region1Pt := pt₁} := by
  obtain ⟨li,m₁,pt₁,ok,hload,heq⟩ := loadProgram_past (by rw [h]; simp)
  rw [h] at heq
  cases ok with
  | false =>
    injection heq with hm hv
    exact ⟨li,m₁,pt₁,false,m₁.contents,hload,hm,hv⟩
  | true =>
    obtain ⟨⟨c,hm⟩,hv⟩ := fillImage_kill heq.symm
    exact ⟨li,m₁,pt₁,true,c,hload,hm,hv⟩

/-- A program whose filling stopped the kernel. -/
theorem loadProgram_fault {env : Env} {args : List (List UInt8)}
    (h : loadProgram M env args n m v=.fault m' v') :
    ∃ li m₁ pt₁ c,Loading M env args m v li m₁ pt₁ true ∧ m'={m₁ with contents := c} ∧
      v'={v with region1Pt := protectText li.tNpg.toNat (textPg M li) pt₁} ∧
      ¬CanFill M li args (protectText li.tNpg.toNat (textPg M li) pt₁) := by
  obtain ⟨li,m₁,pt₁,ok,hload,heq⟩ := loadProgram_past (by rw [h]; simp)
  rw [h] at heq
  cases ok with
  | false => cases heq
  | true =>
    obtain ⟨⟨c,hm⟩,hv,hfill⟩ := fillImage_fault heq.symm
    exact ⟨li,m₁,pt₁,c,hload,hm,hv,hfill⟩

/-- The pages of a segment. -/
def Segment (start count : ℤ) (i : ℕ) : Prop := start≤ i ∧ i< start+count.toNat

/-- Mapping an image maps its stack and no page outside its segments. -/
theorem mapImage_table {li : LoadInfo} {args : List (List UInt8)}
    (h : mapImage M li args m pt=(m',pt',ok)) :
    (ok=true → ∀ i,Segment (stackBasePg M args) (stackNpg M args) i →
        (pt' i).valid=true ∧ (pt' i).prot=protReadWrite) ∧
      ∀ i,¬Segment (textPg M li) li.tNpg i → ¬Segment (dataPg M li) (dataNpg li) i →
        ¬Segment (stackBasePg M args) (stackNpg M args) i → pt' i=pt i := by
  unfold mapImage mapRange at h
  split at h
  · rename_i m₁ pt₁ h₁
    injection h with _ h
    injection h with h hok
    rw [←h,←hok]
    exact ⟨fun hf => (by cases hf),fun i ht _ _ => (mapRangeFrom_table h₁).2 i ht⟩
  · rename_i m₁ pt₁ h₁
    split at h
    · rename_i m₂ pt₂ h₂
      injection h with _ h
      injection h with h hok
      rw [←h,←hok]
      refine ⟨fun hf => (by cases hf),fun i ht hd _ => ?_⟩
      rw [(mapRangeFrom_table h₂).2 i hd,(mapRangeFrom_table h₁).2 i ht]
    · rename_i m₂ pt₂ h₂
      obtain ⟨hin,hout⟩ := mapRangeFrom_table h
      refine ⟨fun hok i hi => hin hok i hi.1 hi.2,fun i ht hd hs => ?_⟩
      rw [hout i hs,(mapRangeFrom_table h₂).2 i hd,(mapRangeFrom_table h₁).2 i ht]

/-- Mapping an image maps the pages of its segments. -/
theorem mapImage_mapped {li : LoadInfo} {args : List (List UInt8)} {i : ℕ}
    (h : mapImage M li args m pt=(m',pt',true))
    (hi : Segment (textPg M li) li.tNpg i ∨ Segment (dataPg M li) (dataNpg li) i ∨
      Segment (stackBasePg M args) (stackNpg M args) i) :
    (pt' i).valid=true ∧ (pt' i).prot=protReadWrite := by
  by_cases hs : Segment (stackBasePg M args) (stackNpg M args) i
  · exact (mapImage_table h).1 rfl i hs
  · unfold mapImage mapRange at h
    split at h
    · injection h with _ h
      injection h with _ h
      cases h
    · rename_i m₁ pt₁ h₁
      split at h
      · injection h with _ h
        injection h with _ h
        cases h
      · rename_i m₂ pt₂ h₂
        rw [(mapRangeFrom_table h).2 i hs]
        by_cases hd : Segment (dataPg M li) (dataNpg li) i
        · exact (mapRangeFrom_table h₂).1 rfl i hd.1 hd.2
        · have ht := hi.resolve_right (fun hx => hx.elim hd hs)
          rw [(mapRangeFrom_table h₂).2 i hd]
          exact (mapRangeFrom_table h₁).1 rfl i ht.1 ht.2

/-- A new stack has pages, up to the end of the region. -/
theorem stackNpg_nonneg (M : Machine) (args : List (List UInt8)) : 0≤ stackNpg M args := by
  have hp : (0 : ℤ)<M.pageSize := by exact_mod_cast M.pageSize_pos
  have hblock : argBlock M args≤M.vmem1Limit := by
    unfold argBlock argStrings
    omega
  have hptr : stackPtr M args≤M.vmem1Limit := by
    unfold stackPtr
    omega
  have hfloor : stackPtr M args/M.pageSize*M.pageSize≤ stackPtr M args :=
    Int.ediv_mul_le _ (by omega)
  unfold stackNpg
  exact Int.ediv_nonneg (by omega) (by omega)

/-- The break of an image that ends in the region is its end, rounded up. -/
theorem imageBrk_eq {li : LoadInfo} (h : M.region1Page (M.upToPage li.udEnd)<M.maxPtLen) :
    imageBrk M li=M.upToPage li.udEnd := by
  have hp := M.pageSize_pos
  have hlimit := M.vmem1Limit_le
  unfold Machine.region1Page at h
  unfold Machine.vmem1Limit at hlimit
  have hlt : (M.upToPage li.udEnd : ℤ)-M.vmem1Base<M.maxPtLen*M.pageSize :=
    (Int.ediv_lt_iff_lt_mul (by omega)).1 h
  have hcast : ((M.maxPtLen*M.pageSize : ℕ) : ℤ)=M.maxPtLen*M.pageSize := Int.natCast_mul ..
  unfold imageBrk
  exact Nat.mod_eq_of_lt (by omega)

/-- A new image has the layout. -/
theorem layout_exec {env : Env} {args : List (List UInt8)} {pc : ℕ} {sp : ℤ}
    (hli : LoadInfoOk M env) (h : loadProgram M env args n m v=.success m' v' pc sp) :
    LayoutOk M v' := by
  obtain ⟨li,m₁,pt₁,c,hl,_,rfl⟩ := loadProgram_success h
  obtain ⟨h0,ht,htd,hid,hud,hd,hds,hend⟩ := hli.layout hl.info hl.accepted
  have hs := stackNpg_nonneg M args
  have hbase : stackBasePg M args=M.maxPtLen-stackNpg M args := rfl
  obtain ⟨hstack,hout⟩ := mapImage_table hl.image
  rw [imageBrk_eq (by omega)]
  refine ⟨⟨(upToPage_spec M _).1,Int.le_refl _,?_,?_,fun i h₁ h₂ => ?_,fun i h₁ h₂ => ?_,
    fun i h₁ h₂ => ?_⟩,?_⟩
  · dsimp only
    omega
  · dsimp only
    omega
  · dsimp only at h₁ h₂
    omega
  · dsimp only at h₁ ⊢
    rw [protectText_table (by omega) (by omega)]
    exact hstack rfl i ⟨h₁,by omega⟩
  · dsimp only at h₁ h₂ ⊢
    rw [protectText_table (by omega) (by omega),hout i (by unfold Segment; omega)
      (by unfold Segment; omega) (by unfold Segment; omega)]
    exact freed_invalid (by omega)
  · dsimp only
    omega

/-- A copied address space has the layout of its source. -/
theorem layout_copy {pfns : ℕ → ℕ} (h : LayoutOk M v)
    (hc : processCopyRegion1 M m v.region1Pt=(m',some pt)) :
    LayoutOk M ⟨pt,pfns,v.userBrk,v.userHeapStart,v.userStackLowPage⟩ := by
  obtain ⟨hin,hout⟩ := copyPages_table hc List.nodup_range
  refine h.sameTable rfl rfl rfl (fun i hi => ?_) (fun i hi hv => ?_)
  · dsimp only
    cases hv : (v.region1Pt i).valid with
    | true => exact (hin i (List.mem_range.2 hi) hv).1
    | false =>
      rw [hout i (fun _ => hv)]
      rfl
  · exact (hin i (List.mem_range.2 hi) hv).2

end Layout

section Spaces

variable {allow : Label → Prop} {s t : Kernel} {live : PcbPtr → Bool} {state : PcbPtr → ProcState}
  {idle c p w : PcbPtr} {space : PcbPtr → UserSpace} {v : UserSpace}

/-- Every process that can run has the layout, and idle has neither heap nor
stack that could move. -/
structure SpacesOk (M : Machine) (live : PcbPtr → Bool) (state : PcbPtr → ProcState)
    (idle : PcbPtr) (space : PcbPtr → UserSpace) : Prop where
  /-- Processes other than idle. -/
  layout : ∀ p,live p=true → p≠idle → state p≠.zombie → LayoutOk M (space p)
  /-- The idle process has neither a heap nor a stack of its own. -/
  idle : (space idle).userHeapStart=0 ∧ (space idle).userStackLowPage=0

/-- A process that has not ended is marked, or a process ends. -/
theorem SpacesOk.setState {a : ProcState} (h : SpacesOk M live state idle space)
    (hw : state w≠.zombie ∨ a=.zombie) :
    SpacesOk M live (Function.update state w a) idle space := by
  refine ⟨fun p hl hi hz => ?_,h.idle⟩
  by_cases hp : p=w
  · rw [hp] at hl hi hz ⊢
    rw [Function.update_self] at hz
    rcases hw with hw|hw
    · exact h.layout w hl hi hw
    · exact absurd hw hz
  · rw [Function.update_of_ne hp] at hz
    exact h.layout p hl hi hz

/-- The space of a process may be replaced by one of the same layout. -/
theorem SpacesOk.setSpace (h : SpacesOk M live state idle space)
    (hv : w≠idle → state w≠.zombie → LayoutOk M v)
    (hi : w=idle → v.userHeapStart=0 ∧ v.userStackLowPage=0) :
    SpacesOk M live state idle (Function.update space w v) := by
  refine ⟨fun p hl hpi hz => ?_,?_⟩
  · by_cases hp : p=w
    · rw [hp] at hpi hz ⊢
      rw [Function.update_self]
      exact hv hpi hz
    · rw [Function.update_of_ne hp]
      exact h.layout p hl hpi hz
  · by_cases hw : idle=w
    · rw [hw,Function.update_self]
      exact hi hw.symm
    · rw [Function.update_of_ne hw]
      exact h.idle

/-- A process is born with an address space. -/
theorem SpacesOk.birth (h : SpacesOk M live state idle space) (hc : c≠idle)
    (hv : LayoutOk M v) :
    SpacesOk M (Function.update live c true) (Function.update state c .ready) idle
      (Function.update space c v) := by
  refine ⟨fun p hl hpi hz => ?_,by rw [Function.update_of_ne hc.symm]; exact h.idle⟩
  by_cases hp : p=c
  · rw [hp,Function.update_self]
    exact hv
  · rw [Function.update_of_ne hp] at hl hz ⊢
    exact h.layout p hl hpi hz

/-- A process that is destroyed takes its address space with it. -/
theorem SpacesOk.death (h : SpacesOk M live state idle space) :
    SpacesOk M (Function.update live c false) state idle space := by
  refine ⟨fun p hl hpi hz => ?_,h.idle⟩
  have hp : p≠c := by
    rintro rfl
    rw [Function.update_self] at hl
    cases hl
  rw [Function.update_of_ne hp] at hl
  exact h.layout p hl hpi hz

/-- Idle cannot move a break it does not have. -/
theorem moveBrk_idle {addr : ℕ} (h : v.userHeapStart=0) : moveBrk M m v addr=(m,v,false) := by
  unfold moveBrk
  rw [if_pos (.inl h)]

/-- Idle has no stack that could grow. -/
theorem growStack_idle {addr : ℕ} (h : v.userStackLowPage=0) :
    growStack M m v addr=(m,v,false) := by
  unfold growStack
  split
  · rfl
  · rename_i ha
    rw [if_pos]
    left
    rw [h]
    exact Int.ediv_nonneg (by omega) (by omega)

/-- The layout behind a change of an address space. -/
theorem layout_spaceStep {env : Env} {q : Prop} {v' : UserSpace} (h : LayoutOk M v)
    (hli : LoadInfoOk M env) (hs : SpaceStep M env q m v m' v') : LayoutOk M v' := by
  cases hs with
  | brk addr => exact layout_brk h addr
  | grow addr hg => exact layout_grow h hg
  | exec hi hl => exact layout_exec hli hl

/-- Idle keeps its address space. -/
theorem idle_spaceStep {env : Env} {q : Prop} {v' : UserSpace} (hq : q)
    (h : v.userHeapStart=0 ∧ v.userStackLowPage=0) (hs : SpaceStep M env q m v m' v') :
    m'=m ∧ v'=v := by
  cases hs with
  | brk addr => rw [moveBrk_idle h.1]; exact ⟨rfl,rfl⟩
  | grow addr hg => rw [growStack_idle h.2]; exact ⟨rfl,rfl⟩
  | exec hi hl => exact absurd hq hi

/-- What is left of the address space of idle. -/
theorem idle_spaceEnd {env : Env} {q : Prop} {v' : UserSpace} (hq : q)
    (h : v.userHeapStart=0 ∧ v.userStackLowPage=0) (hs : SpaceEnd M env q m v m' v') :
    m'=m ∧ v'=v := by
  cases hs with
  | kept => exact ⟨rfl,rfl⟩
  | grow addr hg => rw [growStack_idle h.2]; exact ⟨rfl,rfl⟩
  | exec hi hl => exact absurd hq hi
  | fault hi hl => exact absurd hq hi

/-- The address spaces of a state. -/
abbrev Spaces (M : Machine) (s : Kernel) : Prop :=
  SpacesOk M s.live s.state s.idleProcess s.space

/-- While the machine runs every operation keeps the layouts. -/
theorem op_spaces {b : Bool} (hallow : ∀ env,allow (.space env) → LoadInfoOk M env)
    (hc : Coherent M s) (h : (s.cpu=.user ∨ s.cpu=.kernel) → Spaces M s)
    (hop : Op M allow b s t) (ht : t.cpu=.user ∨ t.cpu=.kernel) : Spaces M t := by
  have hqz : ∀ {q w rest},s.queue q=w::rest → s.state w≠.zombie := by
    intro q w rest hq
    rw [hc.block.blocked (by rw [hq]; exact List.mem_cons_self)]
    decide
  cases hop with
  | toUser u ha => exact h ha.running
  | stop cpu env m v ha hu hk =>
    rcases ht with ht|ht
    · exact absurd ht hu
    · exact absurd ht hk
  | sleepOver p hl ho => exact (h ht).setState (.inl (by rw [ho.2.1]; decide))
  | requeue hi hs => exact (h ht).setState (.inl (by rw [hs]; decide))
  | dispatch env hs hcpu =>
    have he := dispatchNext_eq hc hs
    rw [he]
    dsimp only [Spaces]
    split
    · exact h hcpu
    · refine (h hcpu).setState (.inl ?_)
      rcases nextProcess_cases hc with ⟨_,hn⟩|⟨rest,hr⟩
      · rw [hn,hc.ready.idle_running]
        decide
      · rw [(hc.ready.mem _ (by rw [hr]; simp)).2.2]
        decide
  | forkUndone env c pfns pt m₁ m u ha hcp hk hp =>
    obtain ⟨h0,hl⟩ := callocPcb_fresh hcp
    rw [destroyed_child hc h0 hl] at ht ⊢
    have hs := h ht
    refine ⟨fun p hpl hpi hz => ?_,?_⟩
    · dsimp only [releaseProcess,Kernel.setUserContext,enterChild] at hpl hpi hz ⊢
      rw [Function.update_idem] at hpl
      have hpc : p≠c := by
        rintro rfl
        rw [Function.update_self] at hpl
        cases hpl
      rw [Function.update_of_ne hpc] at hpl hz ⊢
      exact hs.layout p hpl hpi hz
    · dsimp only [releaseProcess,Kernel.setUserContext,enterChild]
      have hic : s.idleProcess≠c := by
        rintro rfl
        rw [hc.ready.idle_live] at hl
        cases hl
      rw [Function.update_of_ne hic]
      exact hs.idle
  | spawn env caller c pfns pt m₁ m u hb hcp hk hn hp =>
    obtain ⟨h0,hl⟩ := callocPcb_fresh hcp
    rw [spawn_eq] at ht ⊢
    have hs := h ht
    have hic : c≠s.idleProcess := by
      rintro rfl
      rw [hc.ready.idle_live] at hl
      cases hl
    exact hs.birth hic (layout_copy (hs.layout _ hc.ready.current_live hb.notIdle
      hb.toRunnable.not_zombie) hp)
  | respace env m v hs ha ho =>
    have hsp := h ht
    refine hsp.setSpace (fun hi hz => ?_) (fun hi => ?_)
    · exact layout_spaceStep (hsp.layout _ hc.ready.current_live hi hz) (hallow _ ho) hs
    · have hidle := hsp.idle
      rw [←hi] at hidle
      rw [(idle_spaceStep hi hidle hs).2]
      exact hidle
  | handOff i l w rest u ha ho how hq => exact (h ht).setState (.inl (hqz hq))
  | zombie status k env m v hk hb hch hl hp hv ho hn =>
    have hz : Spaces M {s with state := Function.update s.state s.currentProcess .zombie} :=
      (h ht).setState (.inr rfl)
    exact hz.setSpace (fun _ hnz => absurd (Function.update_self ..) hnz)
      (fun hi => absurd hi hb.notIdle)
  | zombieWake status k env m v hk hb hch hl hp hw hv ho hn =>
    have hz : Spaces M {s with state := Function.update s.state s.currentProcess .zombie} :=
      (h ht).setState (.inr rfl)
    have hsp := hz.setSpace (v := v) (fun _ hnz => absurd (Function.update_self ..) hnz)
      (fun hi => absurd hi hb.notIdle)
    have hblocked := hc.block.reasons.blocked _ .child
      (hc.family.parent_child _ hc.ready.current_live hp).1 hw
    refine hsp.setState (.inl ?_)
    have hne : s.parent s.currentProcess≠s.currentProcess := by
      intro he
      rw [he] at hblocked
      exact hb.toRunnable.not_blocked hblocked
    dsimp only
    rw [Function.update_of_ne hne,hblocked]
    decide
  | collect statusPtr c ha hch hz =>
    rw [collectChild_eq hc ha statusPtr hch hz] at ht ⊢
    exact (h ht).death
  | blockDelay ticks k u hk hb => exact (h ht).setState (.inl hb.toRunnable.not_zombie)
  | blockChild statusPtr k u hk hb => exact (h ht).setState (.inl hb.toRunnable.not_zombie)
  | blockPipe id buf len pipe k u hk hb => exact (h ht).setState (.inl hb.toRunnable.not_zombie)
  | blockLock id l k u hk hb => exact (h ht).setState (.inl hb.toRunnable.not_zombie)
  | blockCvar id lockId cvar lockOpened k u hk hb =>
    exact (h ht).setState (.inl hb.toRunnable.not_zombie)
  | blockRead i k u hk hb => exact (h ht).setState (.inl hb.toRunnable.not_zombie)
  | startWrite env i buf len k u hk hb => exact (h ht).setState (.inl hb.toRunnable.not_zombie)
  | queueWrite env i buf len k u hk hb => exact (h ht).setState (.inl hb.toRunnable.not_zombie)
  | wake q w rest u hn hq => exact (h ht).setState (.inl (hqz hq))
  | deliver i line r rest hl hq => exact (h ht).setState (.inl (hqz hq))
  | transmitLast i u hw =>
    exact (h ht).setState (.inl (by rw [writer_blocked hc hw]; decide))
  | transmitNext i u w rest hw =>
    exact (h ht).setState (.inl (by rw [writer_blocked hc hw]; decide))
  | _ => exact h ht

/-- The initial process has the layout behind the boot. -/
theorem booted_spaces {b : Boot M} {p q : PcbPtr} {pfn : ℕ} {pfns : ℕ → ℕ} {m₁ m₂ m : Memory}
    {v : UserSpace} {u : UserContext} (hli : LoadInfoOk M b.initEnv)
    (hf : BootFacts M b p q pfn pfns m₁ m₂ m v) :
    Spaces M (bootedKernel M b p q pfn pfns m₁ m₂ m v u) := by
  obtain ⟨pc,sp,hl⟩ := hf.program
  refine ⟨fun x hx hi hz => ?_,?_⟩
  · rcases booted_live.1 hx with rfl|rfl
    · dsimp only [bootedKernel,returnToUser]
      rw [Function.update_self]
      exact layout_exec hli hl
    · exact absurd rfl hi
  · simp [bootedKernel,returnToUser,switchedKernel,kcSwitch,Kernel.setKernelContext,initKernel,
      kcCopy,enterInit,idleKernel,enterIdle,Function.update_of_ne hf.ne.symm,zeroSpace]

/-- Runs with executables as assumed restrict the answers of LoadInfo only. -/
theorem layout_allowed (M : Machine) (s : Kernel) (env : Env) (input : Input)
    (h : env.switchOk=true ∧ LoadInfoOk M env) :
    env.switchOk=true ∧ StepAllowed M (fun x => ∀ env,x=.space env → LoadInfoOk M env)
      s env input := by
  refine ⟨h.1,fun x hx env' he => ?_⟩
  cases hx with
  | space _ =>
    injection he with he
    rw [←he]
    exact h.2
  | _ => cases he

/-- In every state of every run with executables as assumed, every process
other than idle that has not ended has the layout. -/
theorem run_layout (h : Run M (fun b => LoadInfoOk M b.initEnv)
      (fun _ env _ => env.switchOk=true ∧ LoadInfoOk M env) s)
    (hr : s.cpu=.user ∨ s.cpu=.kernel) (hl : s.live p=true) (hi : p≠s.idleProcess)
    (hz : s.state p≠.zombie) : UserLayout M (s.space p) := by
  obtain ⟨_,hs⟩ := run_invariant (layout_allowed M)
    (P := fun s => (s.cpu=.user ∨ s.cpu=.kernel) → Spaces M s)
    (fun b p q pfn pfns m₁ m₂ m v u hb hf _ => booted_spaces hb hf)
    (fun c s t hc hp hop => op_spaces (fun env he => he env rfl) hc hp hop) h
  exact ((hs hr).layout p hl hi hz).toUserLayout

/-- A test for answers with executables as assumed. -/
def imageTest (M : Machine) (_ : Kernel) (env : Env) (_ : Input) : Bool :=
  env.switchOk && match env.loadInfo with
    | none => true
    | some li => decide (0≤li.tNpg ∧ 0≤li.idNpg ∧ 0≤li.udNpg ∧
        textPg M li+li.tNpg≤dataPg M li ∧
        M.region1Page (M.upToPage li.udEnd)=dataPg M li+(li.idNpg+li.udNpg) ∧
        li.idVaddr≤li.idEnd ∧ li.idEnd≤li.udEnd)

/-- A step that passes the test has a switch that succeeds and a sane image. -/
theorem imageTest_sound (s : Kernel) (env : Env) (input : Input)
    (h : imageTest M s env input=true) : env.switchOk=true ∧ LoadInfoOk M env := by
  unfold imageTest at h
  rw [Bool.and_eq_true] at h
  refine ⟨h.1,fun li hli => ?_⟩
  have h₂ := h.2
  rw [hli] at h₂
  exact of_decide_eq_true h₂

/-- The break of a process is moved by two pages, and a child has the same
layout. -/
theorem run_layout_brk : ∃ s,Run sampleMachine (fun b => LoadInfoOk sampleMachine b.initEnv)
      (fun _ env _ => env.switchOk=true ∧ LoadInfoOk sampleMachine env) s ∧
    (s.space 3).userHeapStart=0x108000 ∧ (s.space 3).userBrk=0x10c000 ∧
    UserLayout sampleMachine (s.space 3) := by
  have hb : LoadInfoOk sampleMachine sampleBoot.initEnv :=
    (imageTest_sound (kernelStart sampleMachine sampleBoot) _ .resume (by decide)).2
  obtain ⟨s,hr,hq⟩ := replay_exists (fun b => LoadInfoOk sampleMachine b.initEnv)
    (imageTest_sound (M := sampleMachine)) hb sampleBoot_user
    [callInput 6 0x10c000 0 0,forkInput 3 2,tickInput,resumeInput]
    (fun s => (s.space 3).userHeapStart=0x108000 ∧ (s.space 3).userBrk=0x10c000 ∧ s.cpu=.user ∧
      s.live 3=true ∧ s.idleProcess=1 ∧ s.state 3=.running) (by decide +kernel)
  simp only [decide_eq_true_eq] at hq
  obtain ⟨hh,hk,hu,hl,hi,hst⟩ := hq
  exact ⟨s,hr,hh,hk,run_layout hr (.inl hu) hl (by rw [hi]; decide) (by rw [hst]; decide)⟩

end Spaces

end Yalnix.AddressSpaces
