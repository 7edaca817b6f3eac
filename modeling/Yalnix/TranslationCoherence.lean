import Yalnix.Translation

/-!
# Coherence of address translation

At every use of memory through freshly mapped pages and at every return to
user mode the translation registers belong to the current process and the
buffer holds nothing but what the page tables say. Each kernel function is
given by what it does to the tables when it starts in such a state; these
statements compose.
-/

namespace Yalnix.TranslationCoherence

open Framework FrameTable KernelState Scheduling Ipc Terminals ProcessLifetime ProgramLoading
open Syscalls Traps KernelStart Coherence Operations OperationCoherence CallOperations
open RunInvariants Traces AddressSpaces FramePartition KernelBreak ScratchPage
open TranslationBuffer Translation

variable {M : Machine} {T T' : Tables} {h : Mmu} {t : Table} {m m' : Memory}
  {pt pt' src : PageTable} {page : ℤ} {n pfn : ℕ} {prot : Prot} {pfns : ℕ → ℕ} {l l' : List Access}

section Rules

/-- What must hold when memory is used. -/
structure AtUse (M : Machine) (h : Mmu) : Prop where
  /-- REG_PTBR1 points to the table of the current process. -/
  ptbr : h.ptbr1=h.current
  /-- Its kernel stack is mapped. -/
  stack : ∀ i<M.kernelStackPages,(h.region0 (M.kernelStackBasePage+i)).valid=true ∧
    (h.region0 (M.kernelStackBasePage+i)).pfn=h.stackPfns h.current i
  /-- The buffer holds what the tables say. -/
  coherent : TranslationBuffer.Coherent h.buffer

/-- It holds at every use among some accesses. -/
def Checked (M : Machine) : Mmu → List Access → Prop
  | _,[] => True
  | h,a::l => (a=.use → AtUse M h) ∧ Checked M (h.apply M a) l

/-- A state between kernel functions. -/
structure Good (M : Machine) (h : Mmu) : Prop extends AtUse M h where
  /-- The heap ends below the kernel stack. -/
  brk_le : kernelBrkPage M true h.brk≤M.kernelStackBasePage

/-- Accesses that start in a good state are checked, end in a good state, and
change the tables in the given way. -/
def Does (M : Machine) (l : List Access) (T T' : Tables) : Prop :=
  ∀ h,Good M h → h.toTables=T → Checked M h l ∧ Good M (h.run M l) ∧ (h.run M l).toTables=T'

/-- Checks of one list after the other. -/
theorem checked_append : Checked M h (l++l') ↔ Checked M h l ∧ Checked M (h.run M l) l' := by
  induction l generalizing h with
  | nil => exact ⟨fun hc => ⟨trivial,hc⟩,And.right⟩
  | cons a l ih =>
    change (_ ∧ Checked M (h.apply M a) (l++l')) ↔
      (_ ∧ Checked M (h.apply M a) l) ∧ Checked M ((h.apply M a).run M l) l'
    rw [ih,and_assoc]

/-- Accesses without a use need no check. -/
theorem checked_silent (hl : ∀ a∈l,a≠.use) : Checked M h l := by
  induction l generalizing h with
  | nil => trivial
  | cons a l ih =>
    exact ⟨fun ha => absurd ha (hl a List.mem_cons_self),
      ih (fun a' ha' => hl a' (List.mem_cons_of_mem _ ha'))⟩

/-- No access changes nothing. -/
theorem Does.nil : Does M [] T T := fun _ hg ht => ⟨trivial,hg,ht⟩

/-- One list after the other. -/
theorem Does.append {T₁ : Tables} (h₁ : Does M l T T₁) (h₂ : Does M l' T₁ T') :
    Does M (l++l') T T' := by
  intro h hg ht
  obtain ⟨hc₁,hg₁,ht₁⟩ := h₁ h hg ht
  obtain ⟨hc₂,hg₂,ht₂⟩ := h₂ _ hg₁ ht₁
  refine ⟨checked_append.2 ⟨hc₁,hc₂⟩,?_,?_⟩
  · rw [Mmu.run,List.foldl_append]
    exact hg₂
  · rw [Mmu.run,List.foldl_append]
    exact ht₂

/-- The use of an address is checked and changes no table. -/
theorem Does.use : Does M [.use] T T := by
  intro h hg ht
  refine ⟨⟨fun _ => hg.toAtUse,trivial⟩,⟨⟨hg.ptbr,hg.stack,?_⟩,hg.brk_le⟩,ht⟩
  rintro v e (⟨_,hc⟩|⟨he,_⟩)
  · exact hg.coherent v e hc
  · exact he

/-- A flush changes no table. -/
theorem Does.flush (f : Flush) : Does M [.flush f] T T := by
  intro h hg ht
  exact ⟨⟨fun ha => (by cases ha),trivial⟩,
    ⟨⟨hg.ptbr,hg.stack,hg.coherent.flush _⟩,hg.brk_le⟩,ht⟩

/-- Accesses other than flushes change entries in memory. -/
theorem apply_buffer {a : Access} (ha : a.dropped M=∅) : (h.apply M a).buffer=
    h.buffer.store (fun e => e.valid=true) (a.tables h.toTables).entry := by
  unfold Mmu.buffer Mmu.apply Buffer.store Buffer.load
  rw [ha]
  simp only [Set.mem_empty_iff_false,not_false_eq_true,true_and]

/-- A table that was replaced is the new one. -/
theorem get_set (T : Tables) (pt : PageTable) (t : Table) : (T.set pt t).get t=pt := by
  cases t with
  | kernel => rfl
  | user p => exact Function.update_self ..

/-- A table that is replaced twice. -/
theorem set_set (T : Tables) (pt pt' : PageTable) (t : Table) :
    (T.set pt t).set pt' t=T.set pt' t := by
  cases t with
  | kernel => rfl
  | user p =>
    unfold Tables.set
    dsimp only
    rw [Function.update_idem]

/-- A table that is replaced by itself. -/
theorem set_get (T : Tables) (t : Table) : T.set (T.get t) t=T := by
  cases t with
  | kernel => rfl
  | user p =>
    unfold Tables.set Tables.get
    dsimp only
    rw [Function.update_eq_self]

/-- Entries of other pages are not affected by a store. -/
theorem entry_store (T : Tables) (t : Table) (i : ℕ) (e : Pte) {v : VPage}
    (hv : v≠t.page i) : (T.set (Function.update (T.get t) i e) t).entry v=T.entry v := by
  cases t with
  | kernel =>
    cases v with
    | region0 j =>
      have hj : j≠i := by
        rintro rfl
        exact hv rfl
      exact Function.update_of_ne hj ..
    | region1 j => rfl
  | user p =>
    cases v with
    | region0 j => rfl
    | region1 j =>
      have hj : j≠i := by
        rintro rfl
        exact hv rfl
      dsimp only [Tables.entry,Tables.set,Tables.get]
      by_cases hp : T.ptbr1=p
      · rw [hp,Function.update_self,Function.update_of_ne hj]
      · rw [Function.update_of_ne hp]

/-- A store that is flushed at once. -/
theorem Does.storeFlush (t : Table) (i : ℕ) (e : Pte)
    (ht : t=.kernel → i<M.kernelStackBasePage) :
    Does M [.store t i e,.flush (.page (t.page i))] T
      (T.set (Function.update (T.get t) i e) t) := by
  intro h hg hT
  subst hT
  have hpt : ((h.apply M (.store t i e)).apply M (.flush (.page (t.page i)))).toTables=
      h.toTables.set (Function.update (h.toTables.get t) i e) t := rfl
  refine ⟨⟨fun ha => (by cases ha),fun ha => (by cases ha),trivial⟩,⟨⟨?_,fun j hj => ?_,?_⟩,?_⟩,hpt⟩
  · cases t with
    | kernel => exact hg.ptbr
    | user p => exact hg.ptbr
  · cases t with
    | kernel =>
      have hne : M.kernelStackBasePage+j≠i := by
        have := ht rfl
        omega
      have he : Function.update h.region0 i e (M.kernelStackBasePage+j)=
          h.region0 (M.kernelStackBasePage+j) := Function.update_of_ne hne ..
      change (Function.update h.region0 i e (M.kernelStackBasePage+j)).valid=true ∧
        (Function.update h.region0 i e (M.kernelStackBasePage+j)).pfn=h.stackPfns h.current j
      rw [he]
      exact hg.stack j hj
    | user p => exact hg.stack j hj
  · have hbuf : ((h.apply M (.store t i e)).apply M (.flush (.page (t.page i)))).buffer=
        (h.apply M (.store t i e)).buffer.flush (fun e => e.valid=true) {t.page i} := rfl
    have hrun : (h.run M [.store t i e,.flush (.page (t.page i))]).buffer=
        ((h.apply M (.store t i e)).apply M (.flush (.page (t.page i)))).buffer := rfl
    rw [hrun,hbuf,apply_buffer rfl]
    exact hg.coherent.storeFlush (fun v hv => entry_store _ t i e hv)
  · cases t with
    | kernel => exact hg.brk_le
    | user p => exact hg.brk_le

/-- The accesses of MemoryMapPage are checked and change the tables as it does. -/
theorem Does.mapPage (t : Table) (page : ℤ) (pfn : ℕ) (prot : Prot)
    (ht : t=.kernel → page<M.kernelStackBasePage) :
    Does M (mapPageAccesses M t page pfn prot) T
      (T.set ((memoryMapPage M (T.get t) page pfn prot).getD (T.get t)) t) := by
  unfold mapPageAccesses memoryMapPage
  split
  · rw [Option.getD_none,set_get]
    exact .nil
  · rename_i hr
    rw [Option.getD_some]
    exact .storeFlush t _ _ (fun hk => by have := ht hk; omega)

/-- The accesses of MemoryUnmapPage are checked and change the tables as it does. -/
theorem Does.unmapPage (t : Table) (page : ℤ) (ht : t=.kernel → page<M.kernelStackBasePage) :
    Does M (unmapPageAccesses M t page) T (T.set (memoryUnmapPage M (T.get t) page) t) := by
  unfold unmapPageAccesses memoryUnmapPage
  split
  · rw [set_get]
    exact .nil
  · rename_i hr
    exact .storeFlush t _ _ (fun hk => by have := ht hk; omega)

end Rules

section Loops

variable {p c : PcbPtr}

/-- The next step of a loop on a table. -/
theorem Does.next {pt₁ : PageTable} (h₁ : Does M l T (T.set pt₁ t))
    (h₂ : Does M l' (T.set pt₁ t) ((T.set pt₁ t).set pt' t)) :
    Does M (l++l') T (T.set pt' t) := by
  rw [set_set] at h₂
  exact h₁.append h₂

/-- A loop that is over. -/
theorem Does.done (hp : T.get t=pt) : Does M [] T (T.set pt t) := by
  rw [←hp,set_get]
  exact .nil

/-- A page mapped inside a loop changes the table as MemoryMapPage does. -/
theorem Does.mapped (hp : T.get t=pt) (hm : memoryMapPage M pt page pfn prot=some pt')
    (ht : t=.kernel → page<M.kernelStackBasePage) :
    Does M (mapPageAccesses M t page pfn prot) T (T.set pt' t) := by
  have hd := Does.mapPage (T := T) t page pfn prot ht
  rw [hp,hm,Option.getD_some] at hd
  exact hd

/-- A page unmapped inside a loop changes the table as MemoryUnmapPage does. -/
theorem Does.unmapped (hp : T.get t=pt) (ht : t=.kernel → page<M.kernelStackBasePage) :
    Does M (unmapPageAccesses M t page) T (T.set (memoryUnmapPage M pt page) t) := by
  have hd := Does.unmapPage (T := T) t page ht
  rw [hp] at hd
  exact hd

/-- The listed pages of a process are unmapped. -/
theorem Does.freeEntries {k : List ℕ} (hp : T.get (.user p)=pt) :
    Does M (freeEntriesAccesses M (.user p) k pt) T
      (T.set (freePageTableEntries M k m pt).2 (.user p)) := by
  induction k generalizing T m pt with
  | nil => exact .done hp
  | cons j k ih =>
    unfold freeEntriesAccesses freePageTableEntries
    split
    · exact (Does.unmapped hp (fun hk => (by cases hk))).next (ih (get_set ..))
    · exact ih hp

/-- The accesses of MemoryFreePageTableFrames are checked and change the tables
as it does. -/
theorem Does.freeTable (hp : T.get (.user p)=pt) :
    Does M (freeTableAccesses M (.user p) pt) T
      (T.set (memoryFreePageTableFrames M m pt).2 (.user p)) :=
  (Does.freeEntries hp).append (.flush .region1)

/-- The accesses of MapRange are checked and change the tables as it does. -/
theorem Does.mapRange (prot : Prot) (n : ℕ) (page : ℤ) (m : Memory) (hp : T.get (.user p)=pt) :
    Does M (mapRangeAccesses M (.user p) prot n page m) T
      (T.set (mapRangeFrom M prot n page m pt).2.1 (.user p)) := by
  induction n generalizing T page m pt with
  | zero => exact .done hp
  | succ n ih =>
    unfold mapRangeAccesses mapRangeFrom
    cases ha : frameAlloc m with
    | none => exact .done hp
    | some x =>
      obtain ⟨f,m₁⟩ := x
      dsimp only
      by_cases hr : page<0 ∨ (M.maxPtLen : ℤ)≤page
      · have hm : memoryMapPage M pt page f prot=none := if_pos hr
        rw [if_pos hr,hm]
        exact .done hp
      · have hm : memoryMapPage M pt page f prot=some _ := if_neg hr
        rw [if_neg hr,hm]
        exact (Does.mapped hp hm (fun hk => (by cases hk))).next (ih _ _ (get_set ..))

/-- The accesses of the loop of ProcessGrowStack are checked. -/
theorem Does.growStackPages (n : ℕ) (page : ℤ) (m : Memory) (hp : T.get (.user p)=pt) :
    Does M (growStackPagesAccesses M (.user p) n page m) T
      (T.set (growStackPages M n page m pt).2.1 (.user p)) := by
  induction n generalizing T page m pt with
  | zero => exact .done hp
  | succ n ih =>
    unfold growStackPagesAccesses FrameTable.growStackPages
    cases ha : frameAlloc m with
    | none => exact .done hp
    | some x =>
      obtain ⟨f,m₁⟩ := x
      dsimp only
      by_cases hr : page<0 ∨ (M.maxPtLen : ℤ)≤page
      · have hm : memoryMapPage M pt page f protReadWrite=none := if_pos hr
        rw [if_pos hr,hm]
        exact .done hp
      · have hm : memoryMapPage M pt page f protReadWrite=some _ := if_neg hr
        rw [if_neg hr,hm]
        exact (Does.mapped hp hm (fun hk => (by cases hk))).next (ih _ _ (get_set ..))

/-- The accesses that undo a growth are checked. -/
theorem Does.undoPages (hp : T.get t=pt) (ht : t=.kernel → page+n≤M.kernelStackBasePage) :
    Does M (undoPagesAccesses M t page n) T (T.set (undoPages M page n m pt).2 t) := by
  induction n generalizing T m pt with
  | zero => exact .done hp
  | succ n ih =>
    unfold undoPagesAccesses FrameTable.undoPages
    exact (Does.unmapped hp (fun hk => by have := ht hk; omega)).next
      (ih (get_set ..) (fun hk => by have := ht hk; omega))

/-- The growing loop of a break. -/
theorem Does.growPages (page : ℤ) (n k : ℕ) (m : Memory) (hp : T.get t=pt)
    (ht : t=.kernel → page+k+n≤M.kernelStackBasePage) :
    Does M (growPagesAccesses M t page n k m) T (T.set (growPages M page n k m pt).2.1 t) := by
  induction n generalizing T k m pt with
  | zero => exact .done hp
  | succ n ih =>
    unfold growPagesAccesses FrameTable.growPages
    cases ha : frameAlloc m with
    | none => exact .undoPages hp (fun hk => by have := ht hk; omega)
    | some x =>
      obtain ⟨f,m₁⟩ := x
      dsimp only
      by_cases hr : page+k<0 ∨ (M.maxPtLen : ℤ)≤page+k
      · have hm : memoryMapPage M pt (page+k) f protReadWrite=none := if_pos hr
        rw [if_pos hr,hm]
        exact .undoPages hp (fun hk => by have := ht hk; omega)
      · have hm : memoryMapPage M pt (page+k) f protReadWrite=some _ := if_neg hr
        rw [if_neg hr,hm]
        exact (Does.mapped hp hm (fun hk => by have := ht hk; omega)).next
          (ih _ _ (get_set ..) (fun hk => by have := ht hk; omega))

/-- The shrinking loop of a break. -/
theorem Does.shrinkPages (n : ℕ) (page : ℤ) (m : Memory) (hp : T.get t=pt)
    (ht : t=.kernel → page+n≤M.kernelStackBasePage) :
    Does M (shrinkPagesAccesses M t n page pt) T (T.set (shrinkPages M n page m pt).2 t) := by
  induction n generalizing T page m pt with
  | zero => exact .done hp
  | succ n ih =>
    unfold shrinkPagesAccesses FrameTable.shrinkPages
    split
    · exact (Does.unmapped hp (fun hk => by have := ht hk; omega)).next
        (ih _ _ (get_set ..) (fun hk => by have := ht hk; omega))
    · exact ih _ _ hp (fun hk => by have := ht hk; omega)

/-- The accesses of SysBrk are checked and change the tables as it does. -/
theorem Does.moveBrk {v : UserSpace} (hp : T.get (.user p)=v.region1Pt) (addr : ℕ) :
    Does M (moveBrkAccesses M p m v addr) T
      (T.set (moveBrk M m v addr).2.1.region1Pt (.user p)) := by
  unfold moveBrkAccesses Syscalls.moveBrk
  split
  · exact .done hp
  · dsimp only
    have hg := Does.growPages (M := M) (M.region1Page (M.upToPage v.userBrk))
      (M.region1Page (M.upToPage addr)-M.region1Page (M.upToPage v.userBrk)).toNat 0 m hp
      (fun hk => (by cases hk))
    refine Does.append ?_ (.flush .region1)
    cases he : FrameTable.growPages M (M.region1Page (M.upToPage v.userBrk))
        (M.region1Page (M.upToPage addr)-M.region1Page (M.upToPage v.userBrk)).toNat 0 m
        v.region1Pt with
    | mk m₁ r =>
      obtain ⟨pt₁,ok⟩ := r
      rw [he] at hg
      cases ok with
      | false =>
        rw [List.append_nil]
        exact hg
      | true => exact hg.next (.shrinkPages _ _ _ (get_set ..) (fun hk => (by cases hk)))

/-- The accesses of ProcessGrowStack are checked and change the tables as it does. -/
theorem Does.growStack {v : UserSpace} (hp : T.get (.user p)=v.region1Pt) (addr : ℕ) :
    Does M (growStackAccesses M p m v addr) T
      (T.set (growStack M m v addr).2.1.region1Pt (.user p)) := by
  unfold growStackAccesses
  have hrest : ∀ {q : Prop} [Decidable q] {T : Tables},
      Does M (if q then [Access.flush .region1] else []) T T := by
    intro q _ T
    split
    · exact .flush .region1
    · exact .nil
  by_cases h₁ : addr<M.vmem1Base ∨ M.vmem1Limit≤addr
  · unfold Syscalls.growStack
    rw [if_pos h₁,if_pos h₁]
    exact .done hp
  · rw [if_neg h₁]
    by_cases h₂ : v.userStackLowPage≤M.region1Page addr ∨
        M.region1Page addr≤M.region1Page (M.upToPage v.userBrk)
    · unfold Syscalls.growStack
      rw [if_neg h₁,if_pos h₂,if_pos h₂]
      exact .done hp
    · rw [if_neg h₂]
      have hg := Does.growStackPages (M := M) (v.userStackLowPage-M.region1Page addr).toNat
        (v.userStackLowPage-1) m hp
      have he : (Syscalls.growStack M m v addr).2.1.region1Pt=
          (FrameTable.growStackPages M (v.userStackLowPage-M.region1Page addr).toNat
            (v.userStackLowPage-1) m v.region1Pt).2.1 := by
        unfold Syscalls.growStack
        rw [if_neg h₁,if_neg h₂]
        split
        · rename_i hgr
          rw [hgr]
        · rename_i hgr
          rw [hgr]
      rw [he]
      exact hg.append hrest

end Loops

section Functions

variable {p c next : PcbPtr} {env : Env} {li : LoadInfo} {args : List (List UInt8)} {k : List ℕ}

/-- Tables of a state between kernel functions. -/
structure Fit (M : Machine) (T : Tables) : Prop where
  /-- REG_PTBR1 points to the table of the current process. -/
  ptbr : T.ptbr1=T.current
  /-- Its kernel stack is mapped. -/
  stack : ∀ i<M.kernelStackPages,(T.region0 (M.kernelStackBasePage+i)).valid=true ∧
    (T.region0 (M.kernelStackBasePage+i)).pfn=T.stackPfns T.current i
  /-- The heap ends below the kernel stack. -/
  brk_le : kernelBrkPage M true T.brk≤M.kernelStackBasePage

/-- The tables of a good state. -/
theorem Good.fit (h' : Good M h) : Fit M h.toTables := ⟨h'.ptbr,h'.stack,h'.brk_le⟩

/-- Stores without a use, flushed together. -/
theorem Does.block {f : Flush} (hs : ∀ a∈l,a≠.use) (hfit : Fit M T → Fit M T')
    (hrun : ∀ h : Mmu,TranslationBuffer.Coherent h.buffer → h.toTables=T →
      (h.run M l).toTables=T' ∧ CoherentOff (f.pages M) (h.run M l).buffer) :
    Does M (l++[.flush f]) T T' := by
  intro h hg hT
  obtain ⟨htab,hco⟩ := hrun h hg.coherent hT
  have hf := hfit (hT ▸ hg.fit)
  have heq : h.run M (l++[.flush f])=(h.run M l).apply M (.flush f) := by
    rw [Mmu.run,List.foldl_append]
    rfl
  have htab' : (h.run M (l++[.flush f])).toTables=T' := by
    rw [heq]
    exact htab
  refine ⟨checked_silent ?_,⟨⟨?_,?_,?_⟩,?_⟩,htab'⟩
  · intro a ha
    rcases List.mem_append.1 ha with ha|ha
    · exact hs a ha
    · rw [List.mem_singleton.1 ha]
      exact fun hu => (by cases hu)
  · rw [htab']
    exact hf.ptbr
  · rw [htab']
    exact hf.stack
  · rw [heq]
    exact hco.flush (fun v hv => hv)
  · rw [htab']
    exact hf.brk_le

/-- Stores into the table of a process spoil pages of Region 1 only. -/
theorem apply_user (hc : CoherentOff (Flush.pages M .region1) h.buffer) (i : ℕ) (e : Pte) :
    CoherentOff (Flush.pages M .region1) (h.apply M (.store (.user p) i e)).buffer := by
  rw [apply_buffer rfl]
  refine hc.store (fun v hv => hv) (fun v hv => ?_)
  refine entry_store h.toTables (.user p) i e ?_
  rintro rfl
  exact hv ⟨i,rfl⟩

/-- Protecting text uses no memory. -/
theorem protectText_silent {a : Access} (ha : a∈protectTextAccesses p n page pt) : a≠.use := by
  induction n generalizing page pt with
  | zero => cases ha
  | succ n ih =>
    rcases List.mem_cons.1 ha with rfl|ha
    · exact fun hu => (by cases hu)
    · exact ih ha

/-- Protecting text spoils pages of Region 1 only. -/
theorem protectText_run (hp : h.toTables.get (.user p)=pt)
    (hc : CoherentOff (Flush.pages M .region1) h.buffer) :
    (h.run M (protectTextAccesses p n page pt)).toTables=
        h.toTables.set (protectText n page pt) (.user p) ∧
      CoherentOff (Flush.pages M .region1) (h.run M (protectTextAccesses p n page pt)).buffer := by
  induction n generalizing h page pt with
  | zero =>
    refine ⟨?_,hc⟩
    change h.toTables=h.toTables.set pt (.user p)
    rw [←hp,set_get]
  | succ n ih =>
    unfold protectTextAccesses ProgramLoading.protectText
    generalize ({pt page.toNat with prot := protReadExec} : Pte)=e
    have htab : (h.apply M (.store (.user p) page.toNat e)).toTables=
        h.toTables.set (Function.update (h.toTables.get (.user p)) page.toNat e) (.user p) := rfl
    have hn := @ih (h.apply M (.store (.user p) page.toNat e)) _ (page+1)
      (by rw [htab,get_set,hp]) (apply_user hc page.toNat e)
    refine ⟨hn.1.trans ?_,hn.2⟩
    rw [htab,set_set]

/-- Text is protected and Region 1 is flushed. -/
theorem Does.protectText (hp : T.get (.user p)=pt) :
    Does M (protectTextAccesses p n page pt++[.flush .region1]) T
      (T.set (protectText n page pt) (.user p)) := by
  refine .block (fun a ha => protectText_silent ha) (fun hf => ⟨hf.ptbr,hf.stack,hf.brk_le⟩)
    (fun h hc hT => ?_)
  subst hT
  exact protectText_run hp (fun v e _ hcv => hc v e hcv)

/-- The three calls of MapRange. -/
theorem Does.mapImage (li : LoadInfo) (args : List (List UInt8)) (m : Memory)
    (hp : T.get (.user p)=pt) :
    Does M (mapImageAccesses M p li args m pt) T
      (T.set (mapImage M li args m pt).2.1 (.user p)) := by
  unfold mapImageAccesses ProgramLoading.mapImage
  have ht := Does.mapRange (M := M) protReadWrite li.tNpg.toNat (textPg M li) m hp
  cases he : FrameTable.mapRange M m pt (textPg M li) li.tNpg protReadWrite with
  | mk m₁ r =>
    obtain ⟨pt₁,ok⟩ := r
    have he' : mapRangeFrom M protReadWrite li.tNpg.toNat (textPg M li) m pt=(m₁,pt₁,ok) := he
    rw [he'] at ht
    cases ok with
    | false =>
      rw [List.append_nil]
      exact ht
    | true =>
      refine ht.next ?_
      have hd := Does.mapRange (M := M) protReadWrite (dataNpg li).toNat (dataPg M li) m₁
        (get_set T pt₁ (.user p))
      dsimp only
      cases he₂ : FrameTable.mapRange M m₁ pt₁ (dataPg M li) (dataNpg li) protReadWrite with
      | mk m₂ r₂ =>
        obtain ⟨pt₂,ok₂⟩ := r₂
        have he₂' : mapRangeFrom M protReadWrite (dataNpg li).toNat (dataPg M li) m₁ pt₁=
          (m₂,pt₂,ok₂) := he₂
        rw [he₂'] at hd
        cases ok₂ with
        | false =>
          rw [List.append_nil]
          exact hd
        | true => exact hd.next (.mapRange _ _ _ _ (get_set ..))

/-- The table of the process behind LoadProgram. -/
def loadedTable (pt : PageTable) : LoadResult → PageTable
  | .error => pt
  | .kill _ v => v.region1Pt
  | .fault _ v => v.region1Pt
  | .success _ v _ _ => v.region1Pt

/-- LoadProgram behind the mapping. The stores that fill the image use the table
as it stands behind the flush, also when one of them faults. -/
theorem Does.fillImage (env : Env) (li : LoadInfo) (args : List (List UInt8)) (argbuf : ℕ)
    (m : Memory) (v : UserSpace) (r : Resources) (pt' : PageTable) (hp : T.get (.user p)=pt) :
    Does M (fillImageAccesses M env p li pt m.contents) T
      (T.set (loadedTable pt' (fillImageRun M env li args argbuf m {v with region1Pt := pt} r).1)
        (.user p)) := by
  have hsame : T.set pt (.user p)=T := by rw [←hp,set_get]
  unfold fillImageAccesses fillImageRun
  have hstart : Does M [.flush .region1,.use] T T := (Does.flush .region1).append .use
  dsimp only
  cases readSegment M env li.tFaddr li.tVaddr li.tNpg pt m.contents with
  | none =>
    dsimp only [loadedTable]
    rw [hsame,List.append_nil]
    exact hstart
  | some text =>
    refine hstart.append ?_
    dsimp only
    cases readSegment M env li.idFaddr li.idVaddr li.idNpg pt text with
    | none =>
      dsimp only [loadedTable]
      rw [hsame,List.append_nil]
      exact .use
    | some data =>
      refine Does.use.append ?_
      have hsplit : ([.flush .region1,.use] : List Access)=[.flush .region1]++[.use] := rfl
      have hprotect : Does M (protectTextAccesses p li.tNpg.toNat (textPg M li) pt++
          ([.flush .region1]++[.use])) T
          (T.set (ProgramLoading.protectText li.tNpg.toNat (textPg M li) pt) (.user p)) := by
        rw [←List.append_assoc]
        exact (Does.protectText hp).append .use
      dsimp only
      rw [hsplit]
      split
      · exact hprotect
      · exact hprotect

/-- The accesses of LoadProgram behind its checks are checked. -/
theorem Does.load {v : UserSpace} {argbuf : ℕ} {r : Resources} {f : Memory → PageTable → Resources}
    (hp : T.get (.user p)=v.region1Pt) :
    Does M (loadAccesses M env p li args m v.region1Pt) T
      (T.set (loadedTable v.region1Pt
        (match ProgramLoading.mapImage M li args (memoryFreePageTableFrames M m v.region1Pt).1
            (memoryFreePageTableFrames M m v.region1Pt).2 with
          | (m,pt,false) => (LoadResult.kill m {v with region1Pt := pt},f m pt)
          | (m,pt,true) =>
            fillImageRun M env li args argbuf m {v with region1Pt := pt} r).1) (.user p)) := by
  unfold loadAccesses
  have hfree := Does.freeTable (M := M) (m := m) hp
  have him := Does.mapImage (M := M) li args (memoryFreePageTableFrames M m v.region1Pt).1
    (get_set T (memoryFreePageTableFrames M m v.region1Pt).2 (.user p))
  have hmap := hfree.next him
  cases he : ProgramLoading.mapImage M li args (memoryFreePageTableFrames M m v.region1Pt).1
      (memoryFreePageTableFrames M m v.region1Pt).2 with
  | mk m₁ q =>
    obtain ⟨pt₁,ok⟩ := q
    rw [he] at hmap
    cases ok with
    | false =>
      rw [List.append_nil]
      exact hmap
    | true =>
      refine hmap.append ?_
      have hfill := Does.fillImage (M := M) env li args argbuf m₁ v r v.region1Pt
        (get_set T pt₁ (.user p))
      rw [set_set] at hfill
      exact hfill

/-- The accesses of LoadProgram are checked and change the tables as it does. -/
theorem Does.loadProgram (env : Env) (args : List (List UInt8)) (argbuf : ℕ) (m : Memory)
    {v : UserSpace} (hp : T.get (.user p)=v.region1Pt) :
    Does M (loadProgramAccesses M env p args argbuf m v.region1Pt) T
      (T.set (loadedTable v.region1Pt (loadProgram M env args argbuf m v)) (.user p)) := by
  unfold loadProgramAccesses ProgramLoading.loadProgram loadProgramRun
  by_cases h₁ : env.fileOpen=false
  · rw [if_pos h₁,if_pos h₁]
    exact .done hp
  rw [if_neg h₁,if_neg h₁]
  cases env.loadInfo with
  | none => exact .done hp
  | some li =>
    dsimp only
    by_cases h₂ : li.entry<M.vmem1Base
    · rw [if_pos h₂,if_pos h₂]
      exact .done hp
    rw [if_neg h₂,if_neg h₂]
    by_cases h₃ : LayoutRefused M li args
    · rw [if_pos h₃,if_pos h₃]
      exact .done hp
    rw [if_neg h₃,if_neg h₃]
    by_cases h₄ : env.malloc argbuf=false
    · rw [if_pos h₄,if_pos h₄]
      exact .done hp
    rw [if_neg h₄,if_neg h₄]
    exact .load (f := fun _ _ => ((Resources.malloc ⟨1,0,[],[]⟩ argbuf).free argbuf).close) hp

/-- The borrowed page is below the kernel stack. -/
theorem scratch_lt (hM : KernelLayout M) : (M.scratchPage : ℤ)<M.kernelStackBasePage := by
  have hpos := M.origKernelBrkPage_pos
  have hle := hM.brk_le
  unfold Machine.scratchPage
  omega

/-- Tables of two names may be replaced in either order. -/
theorem set_comm (T : Tables) (pt pt' : PageTable) (c : PcbPtr) :
    (T.set pt .kernel).set pt' (.user c)=(T.set pt' (.user c)).set pt .kernel := rfl

/-- A copy that runs out of frames. -/
theorem Does.copyFails (h0 : T.get .kernel=m.kernelRegion0Pt) (hc : T.get (.user c)=pt)
    (hm : m'.kernelRegion0Pt=m.kernelRegion0Pt) :
    Does M (freeTableAccesses M (.user c) pt) T
      ((T.set (memoryFreePageTableFrames M m' pt).2 (.user c)).set
        (memoryFreePageTableFrames M m' pt).1.kernelRegion0Pt .kernel) := by
  have hk : (memoryFreePageTableFrames M m' pt).1.kernelRegion0Pt=T.get .kernel := by
    rw [h0,←hm]
    exact kept_freeEntries.region0
  have hd := Does.freeTable (M := M) (m := m') hc
  rw [hk]
  exact hd

/-- The accesses of ProcessCopyRegion1 are checked and change the tables as it does. -/
theorem Does.copyPages (hM : KernelLayout M) (h0 : T.get .kernel=m.kernelRegion0Pt)
    (hc : T.get (.user c)=pt) :
    ∃ pt',Does M (copyPagesAccesses M c src k m pt) T ((T.set pt' (.user c)).set
        (copyRegion1Pages M src k m pt).1.kernelRegion0Pt .kernel) ∧
      ∀ pt₁,(copyRegion1Pages M src k m pt).2=some pt₁ → pt'=pt₁ := by
  have hscratch := scratch_lt hM
  induction k generalizing T m pt with
  | nil =>
    refine ⟨pt,?_,fun pt₁ he => Option.some.inj he⟩
    unfold copyPagesAccesses copyRegion1Pages
    dsimp only
    have hsame : T.set pt (.user c)=T := by rw [←hc,set_get]
    rw [hsame]
    exact (Does.unmapped h0 (fun _ => hscratch)).append (.flush .all)
  | cons j k ih =>
    unfold copyPagesAccesses copyRegion1Pages
    by_cases hv : (src j).valid=true
    · rw [if_pos hv,if_pos hv]
      cases ha : frameAlloc m with
      | none => exact ⟨_,.copyFails h0 hc rfl,fun pt₁ he => (by cases he)⟩
      | some x =>
        obtain ⟨f,m₁⟩ := x
        obtain ⟨_,_,rfl⟩ := frameAlloc_eq ha
        dsimp only
        cases hm : memoryMapPage M pt j f (src j).prot with
        | none => exact ⟨_,.copyFails h0 hc (kept_free _ _).region0,fun pt₁ he => (by cases he)⟩
        | some dst =>
          dsimp only
          have hmap := Does.mapped (M := M) hc hm (fun hk => (by cases hk))
          have hcopy := Does.mapPage (M := M) (T := T.set dst (.user c)) .kernel M.scratchPage f
            protReadWrite (fun _ => hscratch)
          have h0' : (T.set dst (.user c)).get .kernel=m.kernelRegion0Pt := h0
          rw [h0'] at hcopy
          have hdst : ((T.set dst (.user c)).set ((memoryMapPage M m.kernelRegion0Pt
              M.scratchPage f protReadWrite).getD m.kernelRegion0Pt) .kernel).get (.user c)=
              dst := get_set T dst (.user c)
          obtain ⟨pt',hd,hpt⟩ := ih (T := (T.set dst (.user c)).set
            ((memoryMapPage M m.kernelRegion0Pt M.scratchPage f protReadWrite).getD
              m.kernelRegion0Pt) .kernel)
            (m := copyThroughScratch M {m with
              frameAllocated := Function.update m.frameAllocated f true} f (src j).pfn)
            rfl hdst
          refine ⟨pt',?_,hpt⟩
          have hall := ((hmap.append hcopy).append .use).append hd
          rw [set_comm,set_set,set_set] at hall
          exact hall
    · rw [if_neg hv,if_neg hv]
      exact ih h0 hc

/-- The accesses of KCCopy are checked and change the tables as it does. -/
theorem Does.copyStack (hM : KernelLayout M) (h0 : T.get .kernel=m.kernelRegion0Pt) :
    Does M (copyStackAccesses M pfns k) T
      (T.set (copyKernelStack M pfns k m).kernelRegion0Pt .kernel) := by
  have hscratch := scratch_lt hM
  induction k generalizing T m with
  | nil => exact (Does.unmapped h0 (fun _ => hscratch)).append (.flush .kernelStack)
  | cons j k ih =>
    unfold copyStackAccesses copyKernelStack
    have hcopy := Does.mapPage (M := M) (T := T) .kernel M.scratchPage (pfns j) protReadWrite
      (fun _ => hscratch)
    rw [h0] at hcopy
    exact (hcopy.append .use).next (ih rfl)

/-- The stores of KCSwitch install the stack in Region 0. -/
theorem install_run (h : Mmu) (pfns : ℕ → ℕ) (k : List ℕ) :
    (h.run M (installAccesses M pfns k)).toTables=h.toTables.set
      (installKernelStack M pfns k h.region0) .kernel := by
  induction k generalizing h with
  | nil => rfl
  | cons j k ih =>
    unfold installAccesses installKernelStack
    exact ih _

/-- KCSwitch stores and flushes, and uses no address between. -/
theorem install_silent {a : Access} (ha : a∈installAccesses M pfns k) : a≠.use := by
  induction k with
  | nil => cases ha
  | cons j k ih =>
    rcases List.mem_cons.1 ha with rfl|ha
    · exact fun hu => (by cases hu)
    · exact ih ha

/-- The tables behind KCSwitch, with the stack of the next process. -/
def switched (M : Machine) (next : PcbPtr) (T : Tables) : Tables :=
  {T with
    region0 := installKernelStack M (T.stackPfns next) (List.range M.kernelStackPages) T.region0
    current := next
    ptbr1 := next}

/-- The accesses of KCSwitch are checked and change the tables as it does. -/
theorem Does.switch (next : PcbPtr) :
    Does M (switchAccesses M next (T.stackPfns next)) T (switched M next T) := by
  have hsplit : switchAccesses M next (T.stackPfns next)=
      (installAccesses M (T.stackPfns next) (List.range M.kernelStackPages)++
        [.setCurrent next,.setPtbr1 next])++[.flush .all] := by
    unfold switchAccesses
    rw [List.append_assoc]
    rfl
  rw [hsplit]
  refine .block (fun a ha => ?_) (fun hf => ⟨rfl,fun i hi => ?_,hf.brk_le⟩)
    (fun h hc hT => ⟨?_,coherentOff_univ _⟩)
  · rcases List.mem_append.1 ha with ha|ha
    · exact install_silent ha
    · rcases List.mem_cons.1 ha with rfl|ha
      · exact fun hu => (by cases hu)
      · rw [List.mem_singleton.1 ha]
        exact fun hu => (by cases hu)
  · dsimp only [switched]
    rw [installKernelStack_at (List.mem_range.2 hi)]
    exact ⟨rfl,rfl⟩
  · subst hT
    rw [Mmu.run,List.foldl_append]
    have htab := install_run (M := M) h (h.stackPfns next) (List.range M.kernelStackPages)
    change {(h.run M (installAccesses M (h.stackPfns next)
      (List.range M.kernelStackPages))).toTables
      with current := next, ptbr1 := next}=_
    rw [htab]
    rfl

/-- The variables of the kernel break are set. -/
theorem Does.setBrk {b : KernelBrk} (hb : kernelBrkPage M true b≤M.kernelStackBasePage) :
    Does M [.setBrk b] T {T with brk := b} := by
  intro h hg hT
  subst hT
  refine ⟨⟨fun ha => (by cases ha),trivial⟩,⟨⟨hg.ptbr,hg.stack,?_⟩,hb⟩,rfl⟩
  have hbuf : (h.run M [.setBrk b]).buffer=(h.apply M (.setBrk b)).buffer := rfl
  rw [hbuf,apply_buffer rfl]
  exact hg.coherent.storeSame (fun v => by cases v with
    | region0 i => rfl
    | region1 i => rfl)

/-- Setting up a process other than the current one. -/
theorem Does.foreign {a : Access} (ha : a≠.use) (hd : a.dropped M=∅)
    (hfit : Fit M T → Fit M (a.tables T))
    (he : Fit M T → ∀ v,(a.tables T).entry v=T.entry v) : Does M [a] T (a.tables T) := by
  intro h hg hT
  subst hT
  have hf := hfit hg.fit
  refine ⟨⟨fun hu => absurd hu ha,trivial⟩,⟨⟨hf.ptbr,hf.stack,?_⟩,hf.brk_le⟩,rfl⟩
  have hbuf : (h.run M [a]).buffer=(h.apply M a).buffer := rfl
  rw [hbuf,apply_buffer hd]
  exact hg.coherent.storeSame (he hg.fit)

/-- The table and the kernel stack of a process other than the current one. -/
theorem Does.create (hc : c≠T.current) (pfns : ℕ → ℕ) :
    Does M [.create c pfns] T (Access.tables T (.create c pfns)) := by
  refine .foreign (fun hu => (by cases hu)) rfl (fun hf => ⟨hf.ptbr,fun i hi => ?_,hf.brk_le⟩)
    (fun hf v => ?_)
  · have hne : T.current≠c := hc.symm
    dsimp only [Access.tables]
    rw [Function.update_of_ne hne]
    exact hf.stack i hi
  · cases v with
    | region0 i => rfl
    | region1 i =>
      have hne : T.ptbr1≠c := by
        rw [hf.ptbr]
        exact hc.symm
      dsimp only [Access.tables,Tables.entry]
      rw [Function.update_of_ne hne]

/-- The kernel stack of a process other than the current one. -/
theorem Does.setStack (hc : c≠T.current) (pfns : ℕ → ℕ) :
    Does M [.setStack c pfns] T (Access.tables T (.setStack c pfns)) := by
  refine .foreign (fun hu => (by cases hu)) rfl (fun hf => ⟨hf.ptbr,fun i hi => ?_,hf.brk_le⟩)
    (fun hf v => ?_)
  · have hne : T.current≠c := hc.symm
    dsimp only [Access.tables]
    rw [Function.update_of_ne hne]
    exact hf.stack i hi
  · cases v with
    | region0 i => rfl
    | region1 i => rfl

/-- The accesses of SetKernelBrk are checked and change the tables as it does. -/
theorem Does.setKernelBrk {b : KernelBrk} {r : ℤ} (h0 : T.get .kernel=m.kernelRegion0Pt)
    (hle : kernelBrkPage M true b≤M.kernelStackBasePage) :
    Does M (setKernelBrkAccesses M r m b) T
      {T.set (setKernelBrkPage M true r m b).1.kernelRegion0Pt .kernel with
        brk := (setKernelBrkPage M true r m b).2.1} := by
  have hstarted : kernelBrkPage M true (b.started M)≤M.kernelStackBasePage := by
    rw [kernelBrkPage_vm,started_idem,←kernelBrkPage_vm]
    exact hle
  unfold setKernelBrkAccesses KernelBreak.setKernelBrkPage
  by_cases hr : M.kernelStackBasePage< requestedPage M r
  · rw [if_pos hr,if_pos hr]
    dsimp only
    rw [←h0,set_get]
    exact .setBrk hstarted
  rw [if_neg hr,if_neg hr,if_neg (by decide)]
  have hg := Does.growPages (M := M) (t := .kernel) (kernelBrkPage M true b)
    (requestedPage M r-kernelBrkPage M true b) 0 m h0
    (fun _ => by omega)
  cases he : FrameTable.growPages M (kernelBrkPage M true b)
      (requestedPage M r-kernelBrkPage M true b) 0 m m.kernelRegion0Pt with
  | mk m₁ x =>
    obtain ⟨pt₁,ok⟩ := x
    rw [he] at hg
    cases ok with
    | false =>
      dsimp only
      rw [List.append_nil]
      exact hg.append (.setBrk hstarted)
    | true =>
      have hs := Does.shrinkPages (M := M) (kernelBrkPage M true b-requestedPage M r)
        (requestedPage M r) m₁ (get_set T pt₁ .kernel)
        (fun _ => by omega)
      refine (hg.next hs).append (.setBrk ?_)
      dsimp only
      rw [kernelBrkPage_vm,started_eq (orig_le_requestedPage M r)]
      dsimp only
      omega

end Functions

section Runs

/-- What the kernel does with page tables and registers. -/
inductive Action
  /-- A request of the allocator. -/
  | setKernelBrk (r : ℤ) (m : Memory)
  /-- Brk of the current process. -/
  | brk (m : Memory) (v : UserSpace) (addr : ℕ)
  /-- Stack growth of the current process. -/
  | growStack (m : Memory) (v : UserSpace) (addr : ℕ)
  /-- LoadProgram for the current process. -/
  | loadProgram (env : Env) (args : List (List UInt8)) (argbuf : ℕ) (m : Memory)
  /-- The table and kernel stack of a new process. -/
  | create (c : PcbPtr) (pfns : ℕ → ℕ)
  /-- ProcessCopyRegion1 from the current process. -/
  | copyRegion1 (c : PcbPtr) (m : Memory)
  /-- KCCopy copies the kernel stack of a child. -/
  | copyStack (c : PcbPtr)
  /-- Destruction of a process. -/
  | destroy (c : PcbPtr)
  /-- KCSwitch installs the kernel stack of the next process. -/
  | switch (next : PcbPtr)
  /-- Return to user mode. -/
  | resume

/-- The accesses of an action. Its frames come from any frame table; page
tables and the break are those of the state. -/
def Action.accesses (M : Machine) (T : Tables) : Action → List Access
  | .setKernelBrk r m => setKernelBrkAccesses M r {m with kernelRegion0Pt := T.region0} T.brk
  | .brk m v addr => moveBrkAccesses M T.current m {v with region1Pt := T.region1 T.current} addr
  | .growStack m v addr =>
    growStackAccesses M T.current m {v with region1Pt := T.region1 T.current} addr
  | .loadProgram env args argbuf m =>
    loadProgramAccesses M env T.current args argbuf m (T.region1 T.current)
  | .create c pfns => [.create c pfns]
  | .copyRegion1 c m =>
    copyPagesAccesses M c (T.region1 T.current) (List.range M.maxPtLen)
      {m with kernelRegion0Pt := T.region0} (T.region1 c)
  | .copyStack c => copyStackAccesses M (T.stackPfns c) (List.range M.kernelStackPages)
  | .destroy c => freeTableAccesses M (.user c) (T.region1 c)++[.setStack c (fun _ => 0)]
  | .switch next => switchAccesses M next (T.stackPfns next)
  | .resume => [.use]

/-- A process that is created or destroyed is not the current one. -/
def Action.Allowed (T : Tables) : Action → Prop
  | .create c _ => c≠T.current
  | .destroy c => c≠T.current
  | _ => True

/-- The tables when virtual memory is enabled: idle has a stack page and runs
on the boot stack. -/
def bootTables (M : Machine) (v : VmStart) (idle : PcbPtr) : Tables where
  region0 := v.memory.kernelRegion0Pt
  region1 := Function.update (fun _ _ => zeroPte) idle
    (Function.update (fun _ => zeroPte) (M.maxPtLen-1) ⟨true,protReadWrite,v.idleFrame⟩)
  stackPfns := Function.update (fun _ _ => 0) idle
    (fun i => if i<2 then M.kernelStackBasePage+i else 0)
  current := idle
  ptbr1 := 0
  brk := v.brk

/-- The accesses of runs: from any contents of the buffer, the registers are
written, virtual memory is enabled and everything is flushed; then any actions
follow in any order. -/
inductive MmuRun (M : Machine) : Mmu → List Access → Prop
  /-- Virtual memory is enabled. -/
  | boot {frames : ℕ} {contents : ℕ → ℕ → UInt8} {r : BootRequests} {v : VmStart}
      (idle : PcbPtr) (cached : VPage → Pte → Prop) (h : bootToVm M frames contents r=some v) :
      MmuRun M ⟨bootTables M v idle,cached⟩ [.setPtbr1 idle,.flush .all]
  /-- A run of accesses goes on with one more action of the kernel. -/
  | step {h : Mmu} {l : List Access} (a : Action) (hr : MmuRun M h l)
      (ha : a.Allowed (h.run M l).toTables) :
      MmuRun M h (l++a.accesses M (h.run M l).toTables)

variable {p c idle : PcbPtr} {v : VmStart} {a : Action}

/-- Every action keeps the state good. -/
theorem action_does (hM : KernelLayout M) (hf : Fit M T) (ha : a.Allowed T) :
    ∃ T',Does M (a.accesses M T) T T' := by
  cases a with
  | setKernelBrk r m => exact ⟨_,.setKernelBrk rfl hf.brk_le⟩
  | brk m v addr => exact ⟨_,.moveBrk rfl addr⟩
  | growStack m v addr => exact ⟨_,.growStack rfl addr⟩
  | loadProgram env args argbuf m =>
    exact ⟨_,.loadProgram _ _ _ _ (v := ⟨T.region1 T.current,fun _ => 0,0,0,0⟩) rfl⟩
  | create c pfns => exact ⟨_,.create ha pfns⟩
  | copyRegion1 c m =>
    obtain ⟨pt',hd,_⟩ := Does.copyPages (T := T) (m := {m with kernelRegion0Pt := T.region0})
      (k := List.range M.maxPtLen) (c := c) hM rfl rfl
    exact ⟨_,hd⟩
  | copyStack c =>
    exact ⟨_,.copyStack (m := ⟨fun _ => false,0,T.region0,fun _ _ => 0⟩) hM rfl⟩
  | destroy c =>
    have hfree := Does.freeTable (M := M) (T := T) (p := c)
      (m := ⟨fun _ => false,0,T.region0,fun _ _ => 0⟩) rfl
    exact ⟨_,hfree.append (Does.setStack (T := T.set _ (.user c)) ha (fun _ => 0))⟩
  | switch next => exact ⟨_,.switch next⟩
  | resume => exact ⟨_,.use⟩

/-- The state when virtual memory has been enabled. -/
theorem boot_good (hM : KernelLayout M) (hs : M.kernelStackPages≤2) {frames : ℕ}
    {contents : ℕ → ℕ → UInt8} {r : BootRequests} (idle : PcbPtr) (cached : VPage → Pte → Prop)
    (h : bootToVm M frames contents r=some v) :
    Good M (Mmu.run M ⟨bootTables M v idle,cached⟩ [.setPtbr1 idle,.flush .all]) := by
  have hv := bootToVm_reached h
  have htop : heapTop M r.all≤M.kernelStackBasePage := raises_le hM.brk_le _
  have hbuild : heapTop M (r.start++r.table++r.build)≤M.kernelStackBasePage :=
    raises_le hM.brk_le _
  refine ⟨⟨rfl,fun i hi => ?_,?_⟩,?_⟩
  · have hmap := region0_mapped (i := M.kernelStackBasePage+i) hM hbuild (by omega)
    change (v.memory.kernelRegion0Pt (M.kernelStackBasePage+i)).valid=true ∧
      (v.memory.kernelRegion0Pt (M.kernelStackBasePage+i)).pfn=
        Function.update (fun _ _ => 0) idle
          (fun i => if i<2 then M.kernelStackBasePage+i else 0) idle i
    rw [hv.region0,Function.update_self,if_pos (by omega)]
    exact hmap
  · have hbuf : (Mmu.run M ⟨bootTables M v idle,cached⟩ [.setPtbr1 idle,.flush .all]).buffer=
        (Mmu.apply M ⟨bootTables M v idle,cached⟩ (.setPtbr1 idle)).buffer.flush
          (fun e => e.valid=true) (Flush.pages M .all) := rfl
    rw [hbuf]
    exact (coherentOff_univ _).flush (fun v hv => hv)
  · change kernelBrkPage M true v.brk≤M.kernelStackBasePage
    have hle := hv.brk.current_le
    have hh := hv.brk.highest
    rw [kernelBrkPage_vm]
    omega

/-- A run is checked and ends in a good state. -/
theorem run_good (hM : KernelLayout M) (hs : M.kernelStackPages≤2) (hr : MmuRun M h l) :
    Checked M h l ∧ Good M (h.run M l) := by
  induction hr with
  | boot idle cached hv =>
    exact ⟨⟨fun hu => (by cases hu),fun hu => (by cases hu),trivial⟩,boot_good hM hs idle cached hv⟩
  | step a _ ha ih =>
    obtain ⟨T',hd⟩ := action_does hM ih.2.fit ha
    obtain ⟨hc,hg,_⟩ := hd _ ih.2 rfl
    refine ⟨checked_append.2 ⟨ih.1,hc⟩,?_⟩
    rw [Mmu.run,List.foldl_append]
    exact hg

/-- In every run, whenever the kernel returns to user mode or uses pages it has
just mapped, the registers belong to the current process, its kernel stack is
mapped, and the buffer holds nothing that differs from the page tables. -/
theorem run_translation (hM : KernelLayout M) (hs : M.kernelStackPages≤2) (hr : MmuRun M h l) :
    Checked M h l := (run_good hM hs hr).1

/-- On the small machine an allocator request, a copy of the kernel stack for a
new process, a switch to it and a return to user mode are checked. -/
theorem run_translation_switch : ∃ l,
    MmuRun sampleMachine ⟨bootTables sampleMachine sampleVm 1,fun _ _ => True⟩ l ∧
      Access.use∈l ∧ Checked sampleMachine ⟨bootTables sampleMachine sampleVm 1,fun _ _ => True⟩
      l := by
  have hb : MmuRun sampleMachine ⟨bootTables sampleMachine sampleVm 1,fun _ _ => True⟩ _ :=
    .boot 1 (fun _ _ => True) sampleVm_reached
  have hbrk := hb.step (.setKernelBrk 50 sampleVm.memory) trivial
  have hcreate := hbrk.step (.create 2 (fun i => 100+i)) (by
    rw [Action.Allowed]
    decide)
  have hcopy := hcreate.step (.copyStack 2) trivial
  have hswitch := hcopy.step (.switch 2) trivial
  have huser := hswitch.step .resume trivial
  exact ⟨_,huser,List.mem_append_right _ (List.mem_singleton.2 rfl),
    run_translation sampleMachine_layout (by decide) huser⟩

end Runs

end Yalnix.TranslationCoherence
