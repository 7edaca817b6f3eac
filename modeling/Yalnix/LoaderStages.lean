import Yalnix.LoadedImages

/-!
# How far LoadProgram gets

The result of LoadProgram is decided by the executable, the arguments, the
frame table and the table of the old image. A file that is refused changes
nothing. Behind the checks the image is mapped if it lies in the region and
there is a frame for each page, and it is filled if both segments can be read
into its pages. The kernel stops when the zeroed data or the argument block
reaches a page that is not mapped for stores.
-/

namespace Yalnix.LoaderStages

open Framework FrameTable KernelState ProgramLoading Traces AddressSpaces LoadedImages
open ScratchPage

variable {M : Machine} {env : Env} {m m' : Memory} {pt pt' : PageTable} {page addr : ℤ} {n f : ℕ}
  {prot : Prot} {S : ℕ → Prop} {li : LoadInfo} {args : List (List UInt8)} {v : UserSpace}
  {argbuf : ℕ}

section Ranges

/-- The n bytes from an address on lie in Region 1, and every page that holds
one of them is one of the pages S. -/
def RangeIn (M : Machine) (S : ℕ → Prop) (addr : ℤ) (n : ℕ) : Prop :=
  n=0 ∨ ((M.vmem1Base : ℤ)≤addr ∧ addr+n≤M.vmem1Limit ∧
    ∀ i<M.maxPtLen,addr<((M.vmem1Base+(i+1)*M.pageSize : ℕ) : ℤ) →
      ((M.vmem1Base+i*M.pageSize : ℕ) : ℤ)<addr+n → S i)

instance [DecidablePred S] : Decidable (RangeIn M S addr n) := inferInstanceAs (Decidable (_ ∨ _))

/-- A range can be stored when it lies in the pages that are mapped for stores. -/
theorem canStore_iff
    (hS : ∀ i<M.maxPtLen,((pt i).valid=true ∧ (pt i).prot.write=true) ↔ S i) :
    CanStore M pt addr n ↔ RangeIn M S addr n := by
  unfold CanStore RangeIn
  constructor
  · rintro (h|⟨h0,h1,h⟩)
    · exact .inl h
    · exact .inr ⟨h0,h1,fun i hi ha hb => (hS i hi).1 (h i hi ha hb)⟩
  · rintro (h|⟨h0,h1,h⟩)
    · exact .inl h
    · exact .inr ⟨h0,h1,fun i hi ha hb => (hS i hi).2 (h i hi ha hb)⟩

/-- The pages of an image: text, data and stack. -/
def ImagePage (M : Machine) (li : LoadInfo) (args : List (List UInt8)) (i : ℕ) : Prop :=
  TextPage M li i ∨ DataPage M li i ∨ StackPage M args i

instance : DecidablePred (ImagePage M li args) := fun _ => inferInstanceAs
  (Decidable ((_ ∧ _) ∨ (_ ∧ _) ∨ (_ ∧ _)))

/-- The pages of an image that can be stored to behind the protection of its
text: those of data and stack that are not pages of text as well. -/
def FillPage (M : Machine) (li : LoadInfo) (args : List (List UInt8)) (i : ℕ) : Prop :=
  ¬TextPage M li i ∧ (DataPage M li i ∨ StackPage M args i)

instance : DecidablePred (FillPage M li args) := fun _ => inferInstanceAs
  (Decidable (¬(_ ∧ _) ∧ ((_ ∧ _) ∨ (_ ∧ _))))

/-- The pages of an image that has been mapped into an empty table can be
stored to, and no others. -/
theorem mapped_pages (h : mapImage M li args m pt=(m',pt',true))
    (hv : ∀ i<M.maxPtLen,(pt i).valid=false) (i : ℕ) (hi : i<M.maxPtLen) :
    ((pt' i).valid=true ∧ (pt' i).prot.write=true) ↔ ImagePage M li args i := by
  constructor
  · rintro ⟨hval,_⟩
    by_contra hn
    rw [(mapImage_table h).2 i (fun ht => hn (.inl ht)) (fun hd => hn (.inr (.inl hd)))
      (fun hs => hn (.inr (.inr hs))),hv i hi] at hval
    cases hval
  · intro hs
    obtain ⟨hval,hprot⟩ := mapImage_mapped h hs
    rw [hprot]
    exact ⟨hval,rfl⟩

/-- Behind the protection of the text it is the fill pages. -/
theorem protected_pages (hacc : ¬LayoutRefused M li args)
    (h : mapImage M li args m pt=(m',pt',true)) (hv : ∀ i<M.maxPtLen,(pt i).valid=false)
    (i : ℕ) (hi : i<M.maxPtLen) :
    ((protectText li.tNpg.toNat (textPg M li) pt' i).valid=true ∧
      (protectText li.tNpg.toNat (textPg M li) pt' i).prot.write=true) ↔ FillPage M li args i := by
  obtain ⟨hvalid,htext,hdata⟩ := image_table hacc h hv i
  constructor
  · rintro ⟨hval,hwrite⟩
    have ht : ¬TextPage M li i := by
      intro ht
      rw [htext ht] at hwrite
      cases hwrite
    exact ⟨ht,((hvalid hi).1 hval).resolve_left ht⟩
  · rintro ⟨ht,hd⟩
    rw [hdata ht hd]
    exact ⟨(hvalid hi).2 (.inr hd),rfl⟩

end Ranges

section Reads

/-- A segment can be read: its size is not negative, it lies in pages S, and
the file is long enough. -/
structure SegmentReadable (M : Machine) (env : Env) (S : ℕ → Prop) (faddr vaddr : ℕ)
    (npg : ℤ) : Prop where
  /-- The size, a C int, is not negative. -/
  size : 0≤ segmentSize M npg
  /-- The destination lies in the pages S. -/
  destination : RangeIn M S vaddr (segmentSize M npg).toNat
  /-- The file has as many bytes from the offset on. -/
  file : (env.fileRead faddr (segmentSize M npg).toNat).isSome=true

instance [DecidablePred S] {faddr vaddr : ℕ} {npg : ℤ} :
    Decidable (SegmentReadable M env S faddr vaddr npg) :=
  decidable_of_iff (0≤ segmentSize M npg ∧ RangeIn M S vaddr (segmentSize M npg).toNat ∧
    (env.fileRead faddr (segmentSize M npg).toNat).isSome=true)
    ⟨fun ⟨h₁,h₂,h₃⟩ => ⟨h₁,h₂,h₃⟩,fun ⟨h₁,h₂,h₃⟩ => ⟨h₁,h₂,h₃⟩⟩

/-- A read succeeds exactly if the segment can be read into the pages that are
mapped for stores. -/
theorem readSegment_iff {faddr vaddr : ℕ} {npg : ℤ} {contents : ℕ → ℕ → UInt8}
    (hS : ∀ i<M.maxPtLen,((pt i).valid=true ∧ (pt i).prot.write=true) ↔ S i) :
    (readSegment M env faddr vaddr npg pt contents).isSome=true ↔
      SegmentReadable M env S faddr vaddr npg := by
  have hstore : CanStore M pt vaddr (segmentSize M npg).toNat ↔
      RangeIn M S vaddr (segmentSize M npg).toNat := canStore_iff hS
  unfold readSegment
  by_cases hsize : segmentSize M npg<0
  · rw [if_pos hsize]
    exact ⟨fun h => (by cases h),fun h => absurd h.size (Int.not_le.2 hsize)⟩
  · rw [if_neg hsize]
    by_cases hc : CanStore M pt vaddr (segmentSize M npg).toNat
    · rw [if_pos hc,Option.isSome_map]
      exact ⟨fun h => ⟨Int.not_lt.1 hsize,hstore.1 hc,h⟩,fun h => h.file⟩
    · rw [if_neg hc]
      exact ⟨fun h => (by cases h),fun h => absurd (hstore.2 h.destination) hc⟩

/-- The zeroed data and the argument block lie in pages that can be stored to. -/
structure FillFits (M : Machine) (li : LoadInfo) (args : List (List UInt8)) : Prop where
  /-- The zeroed data does not end before it begins. -/
  order : li.idEnd≤li.udEnd
  /-- It lies in data or stack pages that are not text pages. -/
  zeroed : RangeIn M (FillPage M li args) li.idEnd (li.udEnd-li.idEnd)
  /-- So does the argument block. -/
  block : RangeIn M (FillPage M li args) (argBlock M args)
    ((M.vmem1Limit : ℤ)-argBlock M args).toNat

instance : Decidable (FillFits M li args) :=
  decidable_of_iff (li.idEnd≤li.udEnd ∧
    RangeIn M (FillPage M li args) li.idEnd (li.udEnd-li.idEnd) ∧
    RangeIn M (FillPage M li args) (argBlock M args) ((M.vmem1Limit : ℤ)-argBlock M args).toNat)
    ⟨fun ⟨h₁,h₂,h₃⟩ => ⟨h₁,h₂,h₃⟩,fun ⟨h₁,h₂,h₃⟩ => ⟨h₁,h₂,h₃⟩⟩

/-- The stores behind the reads hit mapped pages exactly under this condition. -/
theorem canFill_iff (hacc : ¬LayoutRefused M li args)
    (h : mapImage M li args m pt=(m',pt',true)) (hv : ∀ i<M.maxPtLen,(pt i).valid=false) :
    CanFill M li args (protectText li.tNpg.toNat (textPg M li) pt') ↔ FillFits M li args := by
  have hS := protected_pages hacc h hv
  unfold CanFill
  rw [canStore_iff hS,canStore_iff hS]
  exact ⟨fun ⟨h₁,h₂,h₃⟩ => ⟨h₁,h₂,h₃⟩,fun ⟨h₁,h₂,h₃⟩ => ⟨h₁,h₂,h₃⟩⟩

end Reads

section Frames

/-- The frames that are free behind the tear-down of an old image: those that
are free before, and those of its pages. -/
def spareFrames (M : Machine) (m : Memory) (pt : PageTable) : Finset ℕ :=
  (Finset.range m.physicalFrameCount).filter (fun f => m.frameAllocated f=false ∨
    ∃ i<M.maxPtLen,(pt i).valid=true ∧ (pt i).pfn=f)

/-- Giving back a frame frees it and no other. -/
theorem frameFree_free {g : ℕ} (hf : f< m.physicalFrameCount) :
    (frameFree m g).frameAllocated f=false ↔ m.frameAllocated f=false ∨ g=f := by
  unfold frameFree
  split
  · exact ⟨.inl,fun h => h.elim id (fun he => by omega)⟩
  · by_cases hg : f=g
    · rw [hg]
      exact ⟨fun _ => .inr rfl,fun _ => Function.update_self ..⟩
    · dsimp only
      rw [Function.update_of_ne hg]
      exact ⟨.inl,fun h => h.elim id (fun he => absurd he.symm hg)⟩

/-- Freeing the entries of a table frees the frames of the valid ones. -/
theorem freeEntries_free {l : List ℕ} (hl : ∀ i∈l,i<M.maxPtLen) (hf : f< m.physicalFrameCount) :
    (freePageTableEntries M l m pt).1.frameAllocated f=false ↔
      m.frameAllocated f=false ∨ ∃ i∈l,(pt i).valid=true ∧ (pt i).pfn=f := by
  induction l generalizing m pt with
  | nil => exact ⟨.inl,fun h => h.elim id (fun ⟨i,hi,_⟩ => absurd hi List.not_mem_nil)⟩
  | cons i l ih =>
    have hi := hl i List.mem_cons_self
    have hl' : ∀ j∈l,j<M.maxPtLen := fun j hj => hl j (List.mem_cons_of_mem _ hj)
    unfold freePageTableEntries
    by_cases hv : (pt i).valid=true
    · have hcount : (frameFree m (pt i).pfn).physicalFrameCount=m.physicalFrameCount := by
        unfold frameFree
        split
        · rfl
        · rfl
      rw [if_pos hv,ih hl' (hcount ▸ hf),frameFree_free hf,
        unmapPage_eq (Int.natCast_nonneg i) (Int.ofNat_lt.2 hi)]
      constructor
      · rintro ((h|h)|⟨j,hj,hvj,hpj⟩)
        · exact .inl h
        · exact .inr ⟨i,List.mem_cons_self,hv,h⟩
        · rw [update_page (Int.natCast_nonneg i)] at hvj hpj
          split at hvj
          · cases hvj
          · rename_i hne
            rw [if_neg hne] at hpj
            exact .inr ⟨j,List.mem_cons_of_mem _ hj,hvj,hpj⟩
      · rintro (h|⟨j,hj,hvj,hpj⟩)
        · exact .inl (.inl h)
        · by_cases hji : j=i
          · rw [hji] at hpj
            exact .inl (.inr hpj)
          · refine .inr ⟨j,(List.mem_cons.1 hj).resolve_left hji,?_⟩
            rw [update_page (Int.natCast_nonneg i),if_neg (by omega)]
            exact ⟨hvj,hpj⟩
    · rw [if_neg hv,ih hl' hf]
      constructor
      · rintro (h|⟨j,hj,hvj,hpj⟩)
        · exact .inl h
        · exact .inr ⟨j,List.mem_cons_of_mem _ hj,hvj,hpj⟩
      · rintro (h|⟨j,hj,hvj,hpj⟩)
        · exact .inl h
        · rcases List.mem_cons.1 hj with rfl|hj
          · exact absurd hvj hv
          · exact .inr ⟨j,hj,hvj,hpj⟩

/-- The frame table keeps its length. -/
theorem freeEntries_length (l : List ℕ) (m : Memory) (pt : PageTable) :
    (freePageTableEntries M l m pt).1.physicalFrameCount=m.physicalFrameCount := by
  induction l generalizing m pt with
  | nil => rfl
  | cons i l ih =>
    unfold freePageTableEntries
    split
    · rw [ih]
      unfold frameFree
      split
      · rfl
      · rfl
    · exact ih _ _

/-- The frames behind the tear-down of an image are the spare ones. -/
theorem freed_spare (M : Machine) (m : Memory) (pt : PageTable) :
    freeFrames (memoryFreePageTableFrames M m pt).1=spareFrames M m pt := by
  unfold freeFrames spareFrames memoryFreePageTableFrames
  rw [freeEntries_length]
  refine Finset.filter_congr (fun f hf => ?_)
  rw [freeEntries_free (fun i hi => List.mem_range.1 hi) (Finset.mem_range.1 hf)]
  simp only [List.mem_range]

/-- A range is mapped exactly if it is in the region and there is a frame for
each page, and then that many frames are taken. -/
theorem mapRange_demand :
    ((mapRangeFrom M prot n page m pt).2.2=true ↔
        (n=0 ∨ (0≤page ∧ page+n≤M.maxPtLen)) ∧ n≤(freeFrames m).card) ∧
      ((mapRangeFrom M prot n page m pt).2.2=true →
        (freeFrames (mapRangeFrom M prot n page m pt).1).card+n=(freeFrames m).card) := by
  induction n generalizing page m pt with
  | zero =>
    unfold mapRangeFrom
    exact ⟨⟨fun _ => ⟨.inl rfl,Nat.zero_le _⟩,fun _ => rfl⟩,fun _ => rfl⟩
  | succ n ih =>
    unfold mapRangeFrom
    by_cases hf : (freeFrames m).card=0
    · rw [frameAlloc_none hf]
      dsimp only
      exact ⟨⟨fun hx => (by cases hx),fun hx => (by omega)⟩,fun hx => (by cases hx)⟩
    · obtain ⟨g,m₁,ha,hcount⟩ := frameAlloc_some (Nat.pos_of_ne_zero hf)
      rw [ha]
      dsimp only
      by_cases hpage : page<0 ∨ (M.maxPtLen : ℤ)≤page
      · have hmap : memoryMapPage M pt page g prot=none := if_pos hpage
        rw [hmap]
        dsimp only
        refine ⟨⟨fun hx => (by cases hx),fun hx => ?_⟩,fun hx => (by cases hx)⟩
        have hin := hx.1
        push_cast at hin
        omega
      · have hmap : memoryMapPage M pt page g prot=
            some (Function.update pt page.toNat ⟨true,prot,g⟩) := if_neg hpage
        rw [hmap]
        dsimp only
        obtain ⟨hiff,hleft⟩ :=
          @ih m₁ (Function.update pt page.toNat ⟨true,prot,g⟩) (page+1)
        obtain ⟨hlo,hhi⟩ := not_or.1 hpage
        have hcast : ((n+1 : ℕ) : ℤ)=n+1 := Int.natCast_succ n
        refine ⟨hiff.trans ⟨fun hx => ?_,fun hx => ?_⟩,fun hx => ?_⟩
        · have hin := hx.1
          have hcard := hx.2
          exact ⟨.inr (by omega),by omega⟩
        · have hin := hx.1
          have hcard := hx.2
          exact ⟨by omega,by omega⟩
        · have := hleft hx
          omega

/-- The frames of an image: one for each page of text, data and stack. -/
def imageFrames (M : Machine) (li : LoadInfo) (args : List (List UInt8)) : ℕ :=
  li.tNpg.toNat+(dataNpg li).toNat+(stackNpg M args).toNat

/-- Text, data and stack are in the region. -/
structure ImageInside (M : Machine) (li : LoadInfo) (args : List (List UInt8)) : Prop where
  /-- There is no text, or it ends in the region. -/
  text : li.tNpg≤0 ∨ textPg M li+li.tNpg≤M.maxPtLen
  /-- There is no data, or it ends in the region. -/
  data : dataNpg li≤0 ∨ dataPg M li+dataNpg li≤M.maxPtLen
  /-- The stack begins in the region. -/
  stack : 0≤ stackBasePg M args

instance : Decidable (ImageInside M li args) :=
  decidable_of_iff ((li.tNpg≤0 ∨ textPg M li+li.tNpg≤M.maxPtLen) ∧
    (dataNpg li≤0 ∨ dataPg M li+dataNpg li≤M.maxPtLen) ∧ 0≤ stackBasePg M args)
    ⟨fun ⟨h₁,h₂,h₃⟩ => ⟨h₁,h₂,h₃⟩,fun ⟨h₁,h₂,h₃⟩ => ⟨h₁,h₂,h₃⟩⟩

/-- An accepted image is mapped exactly if it lies in the region and there is a
frame for each page, and then it takes that many. -/
theorem mapImage_demand (hacc : ¬LayoutRefused M li args) :
    ((mapImage M li args m pt).2.2=true ↔
        ImageInside M li args ∧ imageFrames M li args≤(freeFrames m).card) ∧
      ((mapImage M li args m pt).2.2=true →
        (freeFrames (mapImage M li args m pt).1).card+imageFrames M li args=
          (freeFrames m).card) := by
  obtain ⟨h0,h1⟩ := accepted_order hacc
  have hs := stackNpg_nonneg M args
  have hbase : stackBasePg M args=M.maxPtLen-stackNpg M args := rfl
  obtain ⟨ht,htl⟩ := @mapRange_demand M m pt (textPg M li) li.tNpg.toNat protReadWrite
  unfold mapImage imageFrames
  cases htext : mapRange M m pt (textPg M li) li.tNpg protReadWrite with
  | mk m₁ x =>
    obtain ⟨pt₁,ok₁⟩ := x
    unfold mapRange at htext
    rw [htext] at ht htl
    dsimp only at ht htl
    cases ok₁ with
    | false =>
      dsimp only
      refine ⟨⟨fun hx => (by cases hx),fun ⟨hin,hx⟩ => ?_⟩,fun hx => (by cases hx)⟩
      have hin := hin.text
      have hok := ht.2 (by omega)
      cases hok
    | true =>
      have hleft := htl rfl
      have hin := ht.1 rfl
      obtain ⟨hd,hdl⟩ := @mapRange_demand M m₁ pt₁ (dataPg M li) (dataNpg li).toNat protReadWrite
      dsimp only
      cases hdata : mapRange M m₁ pt₁ (dataPg M li) (dataNpg li) protReadWrite with
      | mk m₂ x =>
        obtain ⟨pt₂,ok₂⟩ := x
        unfold mapRange at hdata
        rw [hdata] at hd hdl
        dsimp only at hd hdl
        cases ok₂ with
        | false =>
          dsimp only
          refine ⟨⟨fun hx => (by cases hx),fun ⟨hin,hx⟩ => ?_⟩,fun hx => (by cases hx)⟩
          have hin := hin.data
          have hok := hd.2 (by omega)
          cases hok
        | true =>
          have hleft' := hdl rfl
          have hin' := hd.1 rfl
          obtain ⟨hs',hsl⟩ := @mapRange_demand M m₂ pt₂ (stackBasePg M args)
            (stackNpg M args).toNat protReadWrite
          dsimp only
          unfold mapRange
          refine ⟨hs'.trans ⟨fun ⟨hx,hy⟩ => ?_,fun ⟨hx,hy⟩ => ?_⟩,fun hx => ?_⟩
          · exact ⟨⟨by omega,by omega,by omega⟩,by omega⟩
          · have := hx.stack
            omega
          · have := hsl hx
            omega

end Frames

section Results

/-- What LoadProgram checks before it tears the old image down. -/
structure Accepted (M : Machine) (env : Env) (args : List (List UInt8)) (argbuf : ℕ)
    (li : LoadInfo) : Prop where
  /-- The file can be opened. -/
  opened : env.fileOpen=true
  /-- It is an executable. -/
  info : env.loadInfo=some li
  /-- It begins in the region. -/
  entry : M.vmem1Base≤li.entry
  /-- Its segments and the stack pass the comparison of their pages. -/
  layout : ¬LayoutRefused M li args
  /-- There is a buffer for the arguments. -/
  buffer : env.malloc argbuf=true

/-- An accepted image gets as far as its filling: it is mapped and read. -/
structure Fillable (M : Machine) (env : Env) (args : List (List UInt8)) (argbuf : ℕ) (m : Memory)
    (v : UserSpace) (li : LoadInfo) : Prop extends Accepted M env args argbuf li where
  /-- The image is in the region. -/
  inside : ImageInside M li args
  /-- There is a frame for each of its pages. -/
  frames : imageFrames M li args≤(spareFrames M m v.region1Pt).card
  /-- The text can be read into its pages. -/
  text : SegmentReadable M env (ImagePage M li args) li.tFaddr li.tVaddr li.tNpg
  /-- So can the initialised data. -/
  data : SegmentReadable M env (ImagePage M li args) li.idFaddr li.idVaddr li.idNpg

/-- The executable of an accepted image is the one that was reported. -/
theorem Accepted.unique {li' : LoadInfo} (h : Accepted M env args argbuf li)
    (h' : Accepted M env args argbuf li') : li=li' := by
  have hi := h.info
  rw [h'.info] at hi
  injection hi with hi
  exact hi.symm

/-- Nothing is touched without an accepted image. -/
theorem loadProgram_refused (h : ∀ li,¬Accepted M env args argbuf li) :
    loadProgram M env args argbuf m v=.error := by
  unfold loadProgram loadProgramRun
  split
  · rfl
  · rename_i ho
    split
    · rfl
    · rename_i li hli
      split
      · rfl
      · rename_i he
        split
        · rfl
        · rename_i hl
          split
          · rfl
          · rename_i hb
            exact absurd ⟨by simpa using ho,hli,by omega,hl,by simpa using hb⟩ (h li)

/-- An accepted image is mapped and filled. -/
theorem loadProgram_accepted (ha : Accepted M env args argbuf li) :
    ∃ m₁ pt₁ ok,Loading M env args m v li m₁ pt₁ ok ∧
      loadProgram M env args argbuf m v=
        if ok=true then
          (fillImageRun M env li args argbuf m₁ {v with region1Pt := pt₁} (fillStart argbuf)).1
        else .kill m₁ {v with region1Pt := pt₁} := by
  unfold loadProgram loadProgramRun
  rw [if_neg (by rw [ha.opened]; decide),ha.info]
  dsimp only
  rw [if_neg (Nat.not_lt.2 ha.entry),if_neg ha.layout,if_neg (by rw [ha.buffer]; decide)]
  cases himg : mapImage M li args (memoryFreePageTableFrames M m v.region1Pt).1
      (memoryFreePageTableFrames M m v.region1Pt).2 with
  | mk m₁ x =>
    obtain ⟨pt₁,ok⟩ := x
    refine ⟨m₁,pt₁,ok,⟨ha.info,ha.layout,himg⟩,?_⟩
    cases ok with
    | false => rfl
    | true => rfl

/-- An image that has been mapped is filled, or cannot be read, or stops the
kernel. -/
theorem fillImage_result {m₁ : Memory} {pt₁ : PageTable} {r : Resources}
    (hload : Loading M env args m v li m₁ pt₁ true) :
    (SegmentReadable M env (ImagePage M li args) li.tFaddr li.tVaddr li.tNpg →
      SegmentReadable M env (ImagePage M li args) li.idFaddr li.idVaddr li.idNpg →
        (FillFits M li args → ∃ c v' pc sp,(fillImageRun M env li args argbuf m₁
          {v with region1Pt := pt₁} r).1=.success {m₁ with contents := c} v' pc sp) ∧
        (¬FillFits M li args → ∃ m' v',(fillImageRun M env li args argbuf m₁
          {v with region1Pt := pt₁} r).1=.fault m' v')) ∧
    (¬(SegmentReadable M env (ImagePage M li args) li.tFaddr li.tVaddr li.tNpg ∧
      SegmentReadable M env (ImagePage M li args) li.idFaddr li.idVaddr li.idNpg) →
        ∃ m' v',(fillImageRun M env li args argbuf m₁ {v with region1Pt := pt₁} r).1=
          .kill m' v') := by
  have hv : ∀ i<M.maxPtLen,((memoryFreePageTableFrames M m v.region1Pt).2 i).valid=false :=
    fun i hi => freed_invalid hi
  have hS := mapped_pages hload.image hv
  have hread : ∀ {faddr vaddr npg contents},
      (readSegment M env faddr vaddr npg pt₁ contents).isSome=true ↔
        SegmentReadable M env (ImagePage M li args) faddr vaddr npg := readSegment_iff hS
  have htext := @hread li.tFaddr li.tVaddr li.tNpg m₁.contents
  have hfill := canFill_iff hload.accepted hload.image hv
  unfold fillImageRun
  dsimp only
  cases ht : readSegment M env li.tFaddr li.tVaddr li.tNpg pt₁ m₁.contents with
  | none =>
    rw [ht] at htext
    refine ⟨fun hx _ => ?_,fun _ => ⟨_,_,rfl⟩⟩
    have hsome := htext.2 hx
    cases hsome
  | some c =>
    rw [ht] at htext
    have hdata := @hread li.idFaddr li.idVaddr li.idNpg c
    dsimp only
    cases hd : readSegment M env li.idFaddr li.idVaddr li.idNpg pt₁ c with
    | none =>
      rw [hd] at hdata
      refine ⟨fun _ hx => ?_,fun _ => ⟨_,_,rfl⟩⟩
      have hsome := hdata.2 hx
      cases hsome
    | some c' =>
      rw [hd] at hdata
      dsimp only
      refine ⟨fun _ _ => ⟨fun hx => ?_,fun hx => ?_⟩,
        fun hx => absurd ⟨htext.1 rfl,hdata.1 rfl⟩ hx⟩
      · rw [if_pos (hfill.2 hx)]
        exact ⟨_,_,_,_,rfl⟩
      · rw [if_neg (fun hc => hx (hfill.1 hc))]
        exact ⟨_,_,rfl⟩

/-- An accepted image that does not get as far as its filling ends its process. -/
theorem loadProgram_killed (ha : Accepted M env args argbuf li)
    (hn : ¬Fillable M env args argbuf m v li) :
    ∃ m' v',loadProgram M env args argbuf m v=.kill m' v' := by
  obtain ⟨m₁,pt₁,ok,hload,he⟩ := @loadProgram_accepted M env m li args v argbuf ha
  have hmap := (@mapImage_demand M (memoryFreePageTableFrames M m v.region1Pt).1
    (memoryFreePageTableFrames M m v.region1Pt).2 li args ha.layout).1
  rw [hload.image,freed_spare] at hmap
  dsimp only at hmap
  rw [he]
  cases ok with
  | false => exact ⟨_,_,rfl⟩
  | true =>
    obtain ⟨hinside,hframes⟩ := hmap.1 rfl
    exact (fillImage_result hload).2 (fun hx => hn ⟨ha,hinside,hframes,hx.1,hx.2⟩)

/-- An image that gets as far as its filling is loaded, with the frames for its
pages, or it stops the kernel. -/
theorem loadProgram_filled (h : Fillable M env args argbuf m v li) :
    (FillFits M li args → ∃ m' v' pc sp,loadProgram M env args argbuf m v=
      .success m' v' pc sp ∧
        (freeFrames m').card+imageFrames M li args=(spareFrames M m v.region1Pt).card) ∧
    (¬FillFits M li args → ∃ m' v',loadProgram M env args argbuf m v=.fault m' v') := by
  obtain ⟨m₁,pt₁,ok,hload,he⟩ := @loadProgram_accepted M env m li args v argbuf h.toAccepted
  obtain ⟨hmap,hleft⟩ := @mapImage_demand M (memoryFreePageTableFrames M m v.region1Pt).1
    (memoryFreePageTableFrames M m v.region1Pt).2 li args h.layout
  rw [hload.image,freed_spare] at hmap hleft
  dsimp only at hmap hleft
  have hok : ok=true := hmap.2 ⟨h.inside,h.frames⟩
  subst hok
  rw [he]
  obtain ⟨hfits,hfault⟩ := (fillImage_result hload).1 h.text h.data
  refine ⟨fun hx => ?_,hfault⟩
  obtain ⟨c,v',pc,sp,hs⟩ := hfits hx
  exact ⟨_,v',pc,sp,hs,hleft rfl⟩

/-- LoadProgram stops the kernel exactly when an image gets as far as its
filling and its zeroed data or its argument block does not fit. -/
theorem loadProgram_fault_iff :
    (∃ m' v',loadProgram M env args argbuf m v=.fault m' v') ↔
      ∃ li,Fillable M env args argbuf m v li ∧ ¬FillFits M li args := by
  constructor
  · rintro ⟨m',v',h⟩
    by_cases ha : ∃ li,Accepted M env args argbuf li
    · obtain ⟨li,ha⟩ := ha
      by_cases hf : Fillable M env args argbuf m v li
      · refine ⟨li,hf,fun hx => ?_⟩
        obtain ⟨_,_,_,_,hs,_⟩ := (loadProgram_filled hf).1 hx
        rw [h] at hs
        cases hs
      · obtain ⟨_,_,hk⟩ := loadProgram_killed ha hf
        rw [h] at hk
        cases hk
    · rw [loadProgram_refused (fun li hx => ha ⟨li,hx⟩)] at h
      cases h
  · rintro ⟨li,hf,hx⟩
    exact (loadProgram_filled hf).2 hx

end Results

end Yalnix.LoaderStages
