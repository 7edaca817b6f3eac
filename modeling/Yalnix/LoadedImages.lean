import Mathlib.Data.Set.BooleanAlgebra
import Mathlib.Order.CompletePartialOrder
import Yalnix.UserBreak

/-!
# The pages of a loaded image

Each range of pages that is mapped takes a frame for each of its pages. The
check of LoadProgram keeps the segments of an image inside the region, and data
apart from the stack, unless its sums overflow, but it compares only the first
pages of text and data. Where text and data overlap the frames of the
overlapping text are lost and the data cannot be written.
-/

namespace Yalnix.LoadedImages

open Framework FrameTable KernelState ProgramLoading Syscalls KernelStart Traces AddressSpaces
open FramePartition ScratchPage UserBreak

variable {M : Machine} {m m' m₁ : Memory} {pt pt' pt₁ : PageTable} {page : ℤ} {n f : ℕ}
  {prot : Prot} {S S' : ℕ → Prop}

section Frames

/-- The pages S have been mapped to free frames, one each, and no other frame
has been taken. -/
structure Filled (S : ℕ → Prop) (m m' : Memory) (pt' : PageTable) : Prop where
  /-- Their frames were free and are in use. -/
  fresh : ∀ i,S i → (pt' i).pfn< m.physicalFrameCount ∧ m.frameAllocated (pt' i).pfn=false
  /-- No two of them share one. -/
  one : ∀ i j,S i → S j → (pt' i).pfn=(pt' j).pfn → i=j
  /-- The frames in use. -/
  used : ∀ f,m'.frameAllocated f=true ↔ m.frameAllocated f=true ∨ ∃ i,S i ∧ (pt' i).pfn=f
  /-- The frames of the machine. -/
  count : m'.physicalFrameCount=m.physicalFrameCount

/-- The pages may be given in another way. -/
theorem Filled.congr (h : Filled S m m' pt') (hs : ∀ i,S i ↔ S' i) : Filled S' m m' pt' := by
  have he : S=S' := funext fun i => propext (hs i)
  exact he ▸ h

/-- A set without pages is filled by nothing. -/
theorem Filled.none (m : Memory) (pt : PageTable) (hs : ∀ i,¬S i) : Filled S m m pt :=
  ⟨fun i hi => absurd hi (hs i),fun i _ hi => absurd hi (hs i),
    fun _ => ⟨.inl,fun hf => hf.elim id fun ⟨i,hi,_⟩ => absurd hi (hs i)⟩,rfl⟩

/-- A single page is filled with the frame that was taken. -/
theorem Filled.single (ha : frameAlloc m=some (f,m'))
    (hm : memoryMapPage M pt page f prot=some pt') :
    Filled (fun i => (i : ℤ)=page) m m' pt' := by
  obtain ⟨hfree,hlt,rfl⟩ := frameAlloc_eq ha
  obtain ⟨h0,_,rfl⟩ := mapPage_eq hm
  have hpfn : ∀ i : ℕ,(i : ℤ)=page → (Function.update pt page.toNat ⟨true,prot,f⟩ i).pfn=f := by
    intro i hi
    rw [update_page h0,if_pos hi]
  refine ⟨fun i hi => ?_,fun i j hi hj _ => by omega,fun g => ?_,rfl⟩
  · rw [hpfn i hi]
    exact ⟨hlt,hfree⟩
  · by_cases hg : g=f
    · rw [hg]
      exact ⟨fun _ => .inr ⟨page.toNat,by omega,hpfn _ (by omega)⟩,
        fun _ => Function.update_self ..⟩
    · dsimp only
      rw [Function.update_of_ne hg]
      refine ⟨.inl,fun hx => hx.elim id fun ⟨i,hi,hp⟩ => ?_⟩
      rw [hpfn i hi] at hp
      exact absurd hp.symm hg

/-- Two sets without a common page are filled one behind the other. -/
theorem Filled.trans (h : Filled S m m₁ pt₁) (h' : Filled S' m₁ m' pt') (hs : ∀ i,S i → ¬S' i)
    (hp : ∀ i,¬S' i → pt' i=pt₁ i) : Filled (fun i => S i ∨ S' i) m m' pt' := by
  have hold : ∀ i,S i → (pt' i).pfn=(pt₁ i).pfn := fun i hi => by rw [hp i (hs i hi)]
  have hinuse : ∀ i,S i → m₁.frameAllocated (pt' i).pfn=true :=
    fun i hi => (h.used _).2 (.inr ⟨i,hi,(hold i hi).symm⟩)
  have hapart : ∀ i j,S i → S' j → (pt' i).pfn≠(pt' j).pfn := by
    intro i j hi hj he
    have hfree := (h'.fresh j hj).2
    rw [←he,hinuse i hi] at hfree
    cases hfree
  refine ⟨fun i hi => ?_,fun i j hi hj he => ?_,fun g => ?_,h'.count.trans h.count⟩
  · rcases hi with hi|hi
    · rw [hold i hi]
      exact h.fresh i hi
    · obtain ⟨hlt,hfree⟩ := h'.fresh i hi
      refine ⟨h.count ▸ hlt,Bool.eq_false_iff.2 fun hu => ?_⟩
      rw [(h.used _).2 (.inl hu)] at hfree
      cases hfree
  · rcases hi with hi|hi
    · rcases hj with hj|hj
      · rw [hold i hi,hold j hj] at he
        exact h.one i j hi hj he
      · exact absurd he (hapart i j hi hj)
    · rcases hj with hj|hj
      · exact absurd he.symm (hapart j i hj hi)
      · exact h'.one i j hi hj he
  · rw [h'.used,h.used]
    constructor
    · rintro ((hg|⟨i,hi,hg⟩)|⟨i,hi,hg⟩)
      · exact .inl hg
      · exact .inr ⟨i,.inl hi,(hold i hi).trans hg⟩
      · exact .inr ⟨i,.inr hi,hg⟩
    · rintro (hg|⟨i,hi|hi,hg⟩)
      · exact .inl (.inl hg)
      · exact .inl (.inr ⟨i,hi,(hold i hi).symm.trans hg⟩)
      · exact .inr ⟨i,hi,hg⟩

/-- A range that is mapped is filled page by page. -/
theorem mapRangeFrom_filled (h : mapRangeFrom M prot n page m pt=(m',pt',true)) :
    Filled (Segment page n) m m' pt' := by
  induction n generalizing page m pt with
  | zero =>
    unfold mapRangeFrom at h
    injection h with hm h
    injection h with hp _
    rw [←hm,←hp]
    exact .none m pt (fun i hi => by unfold Segment at hi; omega)
  | succ n ih =>
    unfold mapRangeFrom at h
    split at h
    · injection h with _ h
      injection h with _ h
      cases h
    · rename_i f m₁ ha
      split at h
      · injection h with _ h
        injection h with _ h
        cases h
      · rename_i pt₁ hm
        refine ((Filled.single ha hm).trans (ih h) (fun i hi => ?_) (fun i hi => ?_)).congr
          (fun i => ?_)
        · unfold Segment
          omega
        · exact (mapRangeFrom_table h).2 i (by unfold Segment at hi; omega)
        · unfold Segment
          omega

end Frames

section Images

variable {env : Env} {li : LoadInfo} {args : List (List UInt8)} {v v' : UserSpace} {pc : ℕ} {sp : ℤ}

/-- The text pages of an image. -/
abbrev TextPage (M : Machine) (li : LoadInfo) : ℕ → Prop := Segment (textPg M li) li.tNpg

/-- The pages of initialised and zeroed data of a file. -/
abbrev DataPage (M : Machine) (li : LoadInfo) : ℕ → Prop := Segment (dataPg M li) (dataNpg li)

/-- The pages of the stack with the arguments. -/
abbrev StackPage (M : Machine) (args : List (List UInt8)) : ℕ → Prop :=
  Segment (stackBasePg M args) (stackNpg M args)

/-- The pages of a range of a given length. -/
def pages (start count : ℤ) : Set ℤ := {i | start≤ i ∧ i<start+count}

/-- Text, data and stack are apart from each other and in the region. -/
structure SegmentsDisjoint (M : Machine) (li : LoadInfo) (args : List (List UInt8)) : Prop where
  /-- The text shares no page with the data. -/
  textData : Disjoint (pages (textPg M li) li.tNpg) (pages (dataPg M li) (dataNpg li))
  /-- The text shares no page with the stack. -/
  textStack : Disjoint (pages (textPg M li) li.tNpg)
    (pages (stackBasePg M args) (stackNpg M args))
  /-- The data share no page with the stack. -/
  dataStack : Disjoint (pages (dataPg M li) (dataNpg li))
    (pages (stackBasePg M args) (stackNpg M args))
  /-- Text is in the region. -/
  text : pages (textPg M li) li.tNpg⊆pages 0 M.maxPtLen
  /-- Data is in the region. -/
  data : pages (dataPg M li) (dataNpg li)⊆pages 0 M.maxPtLen
  /-- The stack is in the region. -/
  stack : pages (stackBasePg M args) (stackNpg M args)⊆pages 0 M.maxPtLen

/-- The first text page is below the range of a C int. -/
theorem textPg_lt (M : Machine) (li : LoadInfo) : textPg M li<2^31 := by
  have ha : li.tVaddr<2^32 := li.addresses_word _ (by simp)
  exact region1Page_lt (by omega)

/-- So is the first data page. -/
theorem dataPg_lt (M : Machine) (li : LoadInfo) : dataPg M li<2^31 := by
  have ha : li.idVaddr<2^32 := li.addresses_word _ (by simp)
  exact region1Page_lt (by omega)

/-- The sums of the check stay in the range of a C int. -/
def SumsFit (M : Machine) (li : LoadInfo) : Prop :=
  textPg M li+li.tNpg<2^31 ∧ dataPg M li+dataNpg li<2^31

instance (M : Machine) (li : LoadInfo) : Decidable (SumsFit M li) :=
  inferInstanceAs (Decidable (_ ∧ _))

/-- No sum of the check overflows, the stack begins in the region, and there is
no text, or it ends below the data, or there is no data and it ends below the
stack. -/
def SegmentsApart (M : Machine) (li : LoadInfo) (args : List (List UInt8)) : Prop :=
  SumsFit M li ∧ 0≤ stackBasePg M args ∧
    (li.tNpg=0 ∨ (0≤dataNpg li ∧ textPg M li+li.tNpg≤dataPg M li) ∨
      (dataNpg li≤0 ∧ textPg M li+li.tNpg≤ stackBasePg M args))

instance (M : Machine) (li : LoadInfo) (args : List (List UInt8)) :
    Decidable (SegmentsApart M li args) := inferInstanceAs (Decidable (_ ∧ _))

/-- Page counts are not negative. -/
def CountsOk (li : LoadInfo) : Prop := 0≤li.tNpg ∧ 0≤li.idNpg ∧ 0≤li.udNpg

instance (li : LoadInfo) : Decidable (CountsOk li) := inferInstanceAs (Decidable (_ ∧ _))

/-- What the check leaves of an image when no sum overflows. -/
theorem accepted_segments (hc : CountsOk li) (hn : SumsFit M li) (hacc : ¬LayoutRefused M li args) :
    0≤textPg M li ∧ textPg M li≤dataPg M li ∧ textPg M li+li.tNpg≤M.maxPtLen ∧
      dataPg M li+dataNpg li<stackBasePg M args ∧ 0≤ stackNpg M args ∧
      stackBasePg M args+stackNpg M args=M.maxPtLen := by
  have hs := stackNpg_nonneg M args
  have hd := wrap32_ge (li.idNpg+li.udNpg)
  obtain ⟨ht,hdata⟩ := hn
  unfold LayoutRefused at hacc
  unfold CountsOk at hc
  unfold dataNpg at hacc hdata ⊢
  rw [wrap32_eq (x := textPg M li+li.tNpg) (by omega) ht] at hacc
  rw [wrap32_eq (x := dataPg M li+wrap32 (li.idNpg+li.udNpg)) (by omega) hdata] at hacc
  unfold stackBasePg at hacc ⊢
  omega

/-- The check keeps the segments in order also when its sums overflow. -/
theorem accepted_order (hacc : ¬LayoutRefused M li args) :
    0≤textPg M li ∧ textPg M li≤dataPg M li := by
  unfold LayoutRefused at hacc
  omega

/-- The region has fewer pages than there are C ints. -/
theorem maxPtLen_lt (M : Machine) : M.maxPtLen<2^31 := by
  have hlimit := M.vmem1Limit_le
  have hmul := Nat.mul_le_mul_left M.maxPtLen M.pageSize_word
  unfold Machine.vmem1Limit at hlimit
  omega

/-- A range that begins in the range of a C int and stays in the region ends there. -/
theorem pages_sum {a c : ℤ} (ha : a<2^31) (h : pages a c⊆pages 0 M.maxPtLen) : a+c<2^31 := by
  have hlen := maxPtLen_lt M
  by_contra hn
  obtain ⟨_,hlt⟩ := h (show a+c-1∈pages a c from ⟨by omega,by omega⟩)
  omega

/-- Two ranges are apart when one ends before the other or is empty. -/
theorem pages_disjoint {a b c d : ℤ} :
    Disjoint (pages a b) (pages c d) ↔ ∀ i,¬(a≤ i ∧ i<a+b ∧ c≤ i ∧ i< c+d) := by
  rw [Set.disjoint_left]
  unfold pages
  constructor
  · intro h i hi
    exact h ⟨hi.1,hi.2.1⟩ ⟨hi.2.2.1,hi.2.2.2⟩
  · intro h i h₁ h₂
    exact h i ⟨h₁.1,h₁.2,h₂.1,h₂.2⟩

/-- Accepted segments are apart under the condition and only then. -/
theorem disjoint_iff (hc : CountsOk li) (hacc : ¬LayoutRefused M li args) :
    SegmentsDisjoint M li args ↔ SegmentsApart M li args := by
  constructor
  · intro h
    have hn : SumsFit M li := ⟨pages_sum (textPg_lt M li) h.text,pages_sum (dataPg_lt M li) h.data⟩
    obtain ⟨h0,h1,h2,h3,h4,h5⟩ := accepted_segments hc hn hacc
    have htd := pages_disjoint.1 h.textData (dataPg M li)
    have hts := pages_disjoint.1 h.textStack (stackBasePg M args)
    have hst := pages_disjoint.1 h.textStack (textPg M li)
    have hbase : 0≤ stackBasePg M args := by
      by_contra hneg
      obtain ⟨hlo,_⟩ := h.stack (show stackBasePg M args∈pages _ _ from ⟨le_refl _,by omega⟩)
      omega
    unfold CountsOk at hc
    refine ⟨hn,hbase,?_⟩
    omega
  · rintro ⟨hn,hbase,h⟩
    obtain ⟨h0,h1,h2,h3,h4,h5⟩ := accepted_segments hc hn hacc
    unfold CountsOk at hc
    refine ⟨pages_disjoint.2 fun i hi => ?_,pages_disjoint.2 fun i hi => ?_,
      pages_disjoint.2 fun i hi => ?_,fun i hi => ?_,fun i hi => ?_,fun i hi => ?_⟩
    · omega
    · omega
    · omega
    · obtain ⟨hlo,hhi⟩ := hi
      exact ⟨by omega,by omega⟩
    · obtain ⟨hlo,hhi⟩ := hi
      exact ⟨by omega,by omega⟩
    · obtain ⟨hlo,hhi⟩ := hi
      exact ⟨by omega,by omega⟩

/-- The frames that were taken between two states of the memory. -/
def takenFrames (m m' : Memory) : Finset ℕ := allocatedFrames m' \ allocatedFrames m

/-- The valid pages of a table. -/
def mappedPages (M : Machine) (pt : PageTable) : Finset ℕ :=
  (Finset.range M.maxPtLen).filter (fun i => (pt i).valid=true)

/-- What a loaded image promises about its table pt', with the memory before
its pages were mapped and behind. -/
structure ImageExact (M : Machine) (li : LoadInfo) (args : List (List UInt8)) (m m' : Memory)
    (pt' : PageTable) : Prop where
  /-- Exactly the pages of the segments are valid. -/
  valid : ∀ i<M.maxPtLen,(pt' i).valid=true ↔
    TextPage M li i ∨ DataPage M li i ∨ StackPage M args i
  /-- Each frame that was taken belongs to exactly one valid page. -/
  once : ∀ f∈takenFrames m m',∃! i,i∈mappedPages M pt' ∧ (pt' i).pfn=f
  /-- There are as many frames as valid pages. -/
  count : (takenFrames m m').card=(mappedPages M pt').card
  /-- Exactly the text pages are for loads and execution. -/
  text : ∀ i∈mappedPages M pt',(pt' i).prot=protReadExec ↔ TextPage M li i
  /-- All data and stack pages are for loads and stores. -/
  data : ∀ i,DataPage M li i ∨ StackPage M args i → (pt' i).prot=protReadWrite

/-- The segments of an image take frames of their own when they are apart. -/
theorem mapImage_filled (hc : CountsOk li) (hacc : ¬LayoutRefused M li args)
    (hs : SegmentsApart M li args) (h : mapImage M li args m pt=(m',pt',true)) :
    Filled (fun i => (TextPage M li i ∨ DataPage M li i) ∨ StackPage M args i) m m' pt' := by
  obtain ⟨hn,hbase,hs⟩ := hs
  obtain ⟨h0,h1,h2,h3,h4,h5⟩ := accepted_segments hc hn hacc
  unfold CountsOk at hc
  unfold mapImage mapRange at h
  split at h
  · injection h with _ h
    injection h with _ h
    cases h
  · rename_i m₁ pt₁ ht
    split at h
    · injection h with _ h
      injection h with _ h
      cases h
    · rename_i m₂ pt₂ hd
      have hcount : ∀ {c : ℤ} {a : ℤ},(∀ i : ℕ,Segment a c.toNat i ↔ Segment a c i) := by
        intro c a i
        unfold Segment
        omega
      have htf := (mapRangeFrom_filled ht).congr hcount
      have hdf := (mapRangeFrom_filled hd).congr hcount
      have hsf := (mapRangeFrom_filled h).congr hcount
      refine (htf.trans hdf (fun i hi => ?_) (fun i hi => (mapRangeFrom_table hd).2 i hi)).trans hsf
        (fun i hi => ?_) (fun i hi => (mapRangeFrom_table h).2 i hi)
      · dsimp only [TextPage,DataPage,Segment] at hi ⊢
        omega
      · dsimp only [TextPage,DataPage,StackPage,Segment] at hi ⊢
        omega

/-- Text pages get the protection of text. -/
theorem protectText_text {i : ℕ} (h0 : 0≤page) (hi : page≤ i ∧ i<page+n) :
    (protectText n page pt i).prot=protReadExec := by
  induction n generalizing page pt with
  | zero => omega
  | succ n ih =>
    unfold protectText
    by_cases hip : (i : ℤ)=page
    · rw [protectText_table (by omega) (by omega),update_page h0,if_pos hip]
    · exact ih (by omega) (by omega)

/-- The segments of an image that was mapped are in the region. -/
theorem mapImage_inside (h : mapImage M li args m pt=(m',pt',true)) :
    (0<li.tNpg → textPg M li+li.tNpg≤M.maxPtLen) ∧
      (0<dataNpg li → dataPg M li+dataNpg li≤M.maxPtLen) ∧ 0≤ stackBasePg M args := by
  have hs := stackNpg_nonneg M args
  have hbase : stackBasePg M args=M.maxPtLen-stackNpg M args := rfl
  unfold mapImage mapRange at h
  split at h
  · injection h with _ h
    injection h with _ h
    cases h
  · rename_i ht
    split at h
    · injection h with _ h
      injection h with _ h
      cases h
    · rename_i hd
      refine ⟨fun hpos => ?_,fun hpos => ?_,?_⟩
      · have hend := (mapRangeFrom_inside ht (by omega)).2
        omega
      · have hend := (mapRangeFrom_inside hd (by omega)).2
        omega
      · rcases Int.lt_or_eq_of_le hs with hpos|hzero
        · exact (mapRangeFrom_inside h (by omega)).1
        · omega

/-- The table of a loaded image: its pages and their protection. -/
theorem image_table (hacc : ¬LayoutRefused M li args)
    (h : mapImage M li args m pt=(m',pt',true)) (hv : ∀ i<M.maxPtLen,(pt i).valid=false) (i : ℕ) :
    (i<M.maxPtLen → ((protectText li.tNpg.toNat (textPg M li) pt' i).valid=true ↔
      TextPage M li i ∨ DataPage M li i ∨ StackPage M args i)) ∧
    (TextPage M li i → (protectText li.tNpg.toNat (textPg M li) pt' i).prot=protReadExec) ∧
    (¬TextPage M li i → DataPage M li i ∨ StackPage M args i →
      (protectText li.tNpg.toNat (textPg M li) pt' i).prot=protReadWrite) := by
  have h0 := (accepted_order hacc).1
  refine ⟨fun hi => ?_,fun ht => protectText_text h0 ht,fun ht hd => ?_⟩
  · rw [(protectText_valid i).1]
    constructor
    · intro hval
      by_contra hn
      rw [(mapImage_table h).2 i (fun ht => hn (.inl ht)) (fun hd => hn (.inr (.inl hd)))
        (fun hs => hn (.inr (.inr hs))),hv i hi] at hval
      cases hval
    · intro hseg
      exact (mapImage_mapped h hseg).1
  · rw [protectText_table h0 ht]
    exact (mapImage_mapped h (.inr hd)).2

/-- A loaded image whose segments are apart is exact. -/
theorem image_exact (hc : CountsOk li) (hacc : ¬LayoutRefused M li args)
    (hs : SegmentsApart M li args) (h : mapImage M li args m pt=(m',pt',true))
    (hv : ∀ i<M.maxPtLen,(pt i).valid=false) :
    ImageExact M li args m m' (protectText li.tNpg.toNat (textPg M li) pt') := by
  have hfill := mapImage_filled hc hacc hs h
  have htab := fun i => image_table hacc h hv i
  obtain ⟨hn,hbase,hs⟩ := hs
  obtain ⟨h0,h1,h2,h3,h4,h5⟩ := accepted_segments hc hn hacc
  have hin : ∀ i,(TextPage M li i ∨ DataPage M li i) ∨ StackPage M args i → i<M.maxPtLen := by
    intro i hi
    unfold CountsOk at hc
    dsimp only [TextPage,DataPage,StackPage,Segment] at hi
    omega
  have hmem : ∀ i,i∈mappedPages M (protectText li.tNpg.toNat (textPg M li) pt') ↔
      (TextPage M li i ∨ DataPage M li i) ∨ StackPage M args i := by
    intro i
    unfold mappedPages
    rw [Finset.mem_filter,Finset.mem_range]
    constructor
    · intro hi
      exact or_assoc.2 (((htab i).1 hi.1).1 hi.2)
    · intro hi
      exact ⟨hin i hi,((htab i).1 (hin i hi)).2 (or_assoc.1 hi)⟩
  have htaken : takenFrames m m'=(mappedPages M (protectText li.tNpg.toNat (textPg M li) pt')).image
      (fun i => (protectText li.tNpg.toNat (textPg M li) pt' i).pfn) := by
    ext f
    unfold takenFrames allocatedFrames
    rw [Finset.mem_sdiff,Finset.mem_filter,Finset.mem_filter,Finset.mem_range,Finset.mem_range,
      Finset.mem_image,hfill.used,hfill.count]
    constructor
    · rintro ⟨⟨hlt,hf|⟨i,hi,hf⟩⟩,hn⟩
      · exact absurd ⟨hlt,hf⟩ hn
      · exact ⟨i,(hmem i).2 hi,(protectText_valid i).2.trans hf⟩
    · rintro ⟨i,hi,hf⟩
      have hi := (hmem i).1 hi
      rw [(protectText_valid i).2] at hf
      obtain ⟨hlt,hfree⟩ := hfill.fresh i hi
      rw [hf] at hlt hfree
      refine ⟨⟨hlt,.inr ⟨i,hi,hf⟩⟩,fun hn => ?_⟩
      rw [hfree] at hn
      cases hn.2
  have hinj : ∀ i∈mappedPages M (protectText li.tNpg.toNat (textPg M li) pt'),
      ∀ j∈mappedPages M (protectText li.tNpg.toNat (textPg M li) pt'),
      (protectText li.tNpg.toNat (textPg M li) pt' i).pfn=
        (protectText li.tNpg.toNat (textPg M li) pt' j).pfn → i=j := by
    intro i hi j hj he
    rw [(protectText_valid i).2,(protectText_valid j).2] at he
    exact hfill.one i j ((hmem i).1 hi) ((hmem j).1 hj) he
  refine ⟨fun i hi => (htab i).1 hi,fun f hf => ?_,?_,fun i hi => ⟨fun hp => ?_,(htab i).2.1⟩,
    fun i hi => (htab i).2.2 (fun ht => ?_) hi⟩
  · rw [htaken,Finset.mem_image] at hf
    obtain ⟨i,hi,hf⟩ := hf
    exact ⟨i,⟨hi,hf⟩,fun j hj => hinj j hj.1 i hi (hj.2.trans hf.symm)⟩
  · rw [htaken,Finset.card_image_of_injOn hinj]
  · by_contra ht
    have hseg := or_assoc.1 ((hmem i).1 hi)
    rw [(htab i).2.2 ht (hseg.resolve_left ht)] at hp
    cases hp
  · unfold CountsOk at hc
    dsimp only [TextPage,DataPage,StackPage,Segment] at hi ht
    omega

/-- A loaded image that is exact has its segments apart. -/
theorem apart_of_exact (hc : CountsOk li) (hacc : ¬LayoutRefused M li args)
    (h : mapImage M li args m pt=(m',pt',true)) (hv : ∀ i<M.maxPtLen,(pt i).valid=false)
    (hx : ImageExact M li args m₁ m' (protectText li.tNpg.toNat (textPg M li) pt')) :
    SegmentsApart M li args := by
  obtain ⟨htext,hdata,hbase⟩ := mapImage_inside h
  have hlen := maxPtLen_lt M
  have htp := textPg_lt M li
  have hdp := dataPg_lt M li
  have hn : SumsFit M li := by
    unfold SumsFit
    constructor
    · by_contra hover
      have hend := htext (by omega)
      omega
    · by_contra hover
      have hend := hdata (by omega)
      omega
  obtain ⟨h0,h1,h2,h3,h4,h5⟩ := accepted_segments hc hn hacc
  have hboth : ∀ i,TextPage M li i → ¬(DataPage M li i ∨ StackPage M args i) := by
    intro i ht hd
    have hexec := (image_table hacc h hv i).2.1 ht
    rw [hx.data i hd] at hexec
    cases hexec
  have hdata := hboth (dataPg M li).toNat
  have hstack := hboth (stackBasePg M args).toNat
  have hfirst := hboth (textPg M li).toNat
  unfold CountsOk at hc
  dsimp only [TextPage,DataPage,StackPage,Segment] at hdata hstack hfirst
  refine ⟨hn,hbase,?_⟩
  omega

/-- What the program is promised of an accepted image: its segments are apart,
and whenever it is loaded its table and frames are exact. -/
def SegmentsExact (M : Machine) (env : Env) (li : LoadInfo) (args : List (List UInt8)) : Prop :=
  SegmentsDisjoint M li args ∧ ∀ n m v m' v' pc sp,
    loadProgram M env args n m v=.success m' v' pc sp →
      ImageExact M li args (memoryFreePageTableFrames M m v.region1Pt).1 m' v'.region1Pt

/-- An accepted image has its segments apart exactly when no sum of the check
overflows, the stack begins in the region, and there is no text, or the text
ends below the data, or there is no data and the text ends below the stack; and
each successful load is exact in these cases and in no other. -/
theorem segments_exact (M : Machine) (env : Env) (li : LoadInfo) (args : List (List UInt8))
    (hli : env.loadInfo=some li) (hc : CountsOk li) (hacc : ¬LayoutRefused M li args) :
    (SegmentsExact M env li args ↔ SegmentsApart M li args) ∧
      ∀ n m v m' v' pc sp,loadProgram M env args n m v=.success m' v' pc sp →
        (ImageExact M li args (memoryFreePageTableFrames M m v.region1Pt).1 m' v'.region1Pt ↔
          SegmentsApart M li args) := by
  have hloaded : ∀ n m v m' v' pc sp,loadProgram M env args n m v=.success m' v' pc sp →
      (ImageExact M li args (memoryFreePageTableFrames M m v.region1Pt).1 m' v'.region1Pt ↔
        SegmentsApart M li args) := by
    intro n m v m' v' pc sp hl
    obtain ⟨li',m₁,pt₁,c,hload,rfl,rfl⟩ := loadProgram_success hl
    have he : li'=li := by
      have hi := hload.info
      rw [hli] at hi
      injection hi with hi
      exact hi.symm
    subst he
    have hinv : ∀ i<M.maxPtLen,((memoryFreePageTableFrames M m v.region1Pt).2 i).valid=false :=
      fun i hi => freed_invalid hi
    constructor
    · intro hx
      exact apart_of_exact hc hacc hload.image hinv
        ⟨hx.valid,hx.once,hx.count,hx.text,hx.data⟩
    · intro hs
      have hx := image_exact hc hacc hs hload.image hinv
      exact ⟨hx.valid,hx.once,hx.count,hx.text,hx.data⟩
  refine ⟨⟨fun h => (disjoint_iff hc hacc).1 h.1,fun h => ⟨(disjoint_iff hc hacc).2 h,?_⟩⟩,hloaded⟩
  intro n m v m' v' pc sp hl
  exact (hloaded n m v m' v' pc sp hl).2 h

/-- The sample image has its segments apart. -/
theorem segments_exact_sample : CountsOk sampleImage ∧
    SegmentsExact sampleMachine (sampleEnv 0 0) sampleImage [[105]] :=
  ⟨by decide,(segments_exact sampleMachine (sampleEnv 0 0) sampleImage [[105]] rfl (by decide)
    (by decide)).1.2 (by decide)⟩

/-- An executable whose data begins in the last of its two text pages. -/
def overlappingImage : LoadInfo :=
  ⟨0x100000,0x100000,0,2,0x102000,0x4000,1,1,0x104000,0x106000,sample_counts,by decide⟩

/-- Whether a program was loaded. -/
def loaded : LoadResult → Bool
  | .success _ _ _ _ => true
  | _ => false

/-- A program that was loaded has its result. -/
theorem of_loaded {r : LoadResult} (h : loaded r=true) : ∃ m v pc sp,r=.success m v pc sp := by
  cases r with
  | error => cases h
  | kill m v => cases h
  | fault m v => cases h
  | success m v pc sp => exact ⟨m,v,pc,sp,rfl⟩

/-- The executable passes every check and is loaded by the initial process. Its
text and data overlap, so one frame is lost and a data page cannot be written. -/
theorem segments_overlap : ∃ env : Env,env.loadInfo=some overlappingImage ∧
    CountsOk overlappingImage ∧ ¬LayoutRefused sampleMachine overlappingImage [[105]] ∧
    ¬SegmentsDisjoint sampleMachine overlappingImage [[105]] ∧
    ∃ m v m' v' pc sp,loadProgram sampleMachine env [[105]] 3 m v=.success m' v' pc sp ∧
      DataPage sampleMachine overlappingImage 1 ∧ (v'.region1Pt 1).prot=protReadExec ∧
      ¬ImageExact sampleMachine overlappingImage [[105]]
        (memoryFreePageTableFrames sampleMachine m v.region1Pt).1 m' v'.region1Pt := by
  have hc : CountsOk overlappingImage := by decide
  have hacc : ¬LayoutRefused sampleMachine overlappingImage [[105]] := by decide
  have hnot : ¬SegmentsApart sampleMachine overlappingImage [[105]] := by decide
  obtain ⟨m',v',pc,sp,hl⟩ := of_loaded (r := loadProgram sampleMachine
    {sampleEnv 0 0 with loadInfo := some overlappingImage} [[105]] 3
    (kernelStart sampleMachine sampleBoot).memory
    ((kernelStart sampleMachine sampleBoot).space 2)) (by decide +kernel)
  have hdata : dataPg sampleMachine overlappingImage≤(1 : ℕ) ∧
      ((1 : ℕ) : ℤ)<dataPg sampleMachine overlappingImage+
        ((dataNpg overlappingImage).toNat : ℤ) := by decide
  have htext : textPg sampleMachine overlappingImage≤(1 : ℕ) ∧
      ((1 : ℕ) : ℤ)<textPg sampleMachine overlappingImage+
        ((overlappingImage.tNpg.toNat : ℕ) : ℤ) := by decide
  obtain ⟨li,m₁,pt₁,c,hload,hm,hv⟩ := loadProgram_success hl
  have hli : overlappingImage=li := Option.some.inj hload.info
  refine ⟨_,rfl,hc,hacc,fun hd => hnot ((disjoint_iff hc hacc).1 hd),_,_,m',v',pc,sp,hl,hdata,
    ?_,fun hx => ?_⟩
  · rw [hv,←hli]
    exact protectText_text (by decide) htext
  · have himage := hload.image
    rw [←hli] at himage
    rw [hm,hv,←hli] at hx
    have hexact : ImageExact sampleMachine overlappingImage [[105]] _ m₁
        (protectText overlappingImage.tNpg.toNat (textPg sampleMachine overlappingImage) pt₁) :=
      ⟨hx.valid,hx.once,hx.count,hx.text,hx.data⟩
    exact hnot (apart_of_exact hc hacc himage (fun i hi => freed_invalid hi) hexact)

end Images

end Yalnix.LoadedImages
