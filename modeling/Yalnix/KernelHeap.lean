import Yalnix.UserBreak

/-!
# The kernel heap under virtual memory

With virtual memory on, SetKernelBrk maps and unmaps heap pages one by one. A
request that fails leaves frames, table and break as they were. An address in
the last page of the C ints or above it becomes negative or zero when it is
rounded up, so that the heap is given back instead of refused. The break that
was counted before is taken over without the pages above it: when the allocator
has given pages back before virtual memory is enabled, they are mapped above the
break, and a later growth maps them again.
-/

namespace Yalnix.KernelHeap

open Framework FrameTable KernelState KernelStart AddressSpaces TableLoops FramePartition Traces
open KernelBreak ScratchPage MappedFrames UserBreak

variable {M : Machine} {m : Memory} {b : KernelBrk} {r : ℤ}

section Requests

/-- The pages of the kernel heap. -/
abbrev HeapRange (M : Machine) : ℕ → Prop := HeapPage M M.kernelStackBasePage

/-- The heap below the break is mapped to frames of its own, and nothing above
it; entries that are not valid are zero. -/
structure HeapReady (M : Machine) (m : Memory) (b : KernelBrk) : Prop where
  /-- The break is not below the image. -/
  above : M.origKernelBrkPage≤ kernelBrkPage M true b
  /-- Nor in the kernel stack. -/
  below : kernelBrkPage M true b≤M.kernelStackBasePage
  /-- Valid is what is below the break. -/
  valid : ∀ i,HeapRange M i → ((m.kernelRegion0Pt i).valid=true ↔ i<kernelBrkPage M true b)
  /-- The frames are in use, on this machine, and different. -/
  frames : Backing (HeapRange M) (fun _ => False) m m.kernelRegion0Pt
  /-- Other entries are zero. -/
  zero : ∀ i,HeapRange M i → (m.kernelRegion0Pt i).valid=false → m.kernelRegion0Pt i=zeroPte

/-- The pages between the break and a page that is asked for. -/
def Between (M : Machine) (b : KernelBrk) (page i : ℕ) : Prop :=
  (kernelBrkPage M true b≤ i ∧ i<page) ∨ (page≤ i ∧ i<kernelBrkPage M true b)

/-- What a request that moves the break to a page has done. -/
structure Served (M : Machine) (m : Memory) (b : KernelBrk) (page : ℕ) (m' : Memory)
    (b' : KernelBrk) : Prop where
  /-- The break is that page. -/
  moved : kernelBrkPage M true b'=page
  /-- Exactly the heap pages below it are valid. -/
  valid : ∀ i,HeapRange M i → ((m'.kernelRegion0Pt i).valid=true ↔ i<kernelBrkPage M true b')
  /-- As many frames are in use more or less as the break has moved. -/
  count : ((allocatedFrames m').card : ℤ)=
    (allocatedFrames m).card+((page : ℤ)-kernelBrkPage M true b)
  /-- The other entries are as they were. -/
  others : ∀ i,¬Between M b page i → m'.kernelRegion0Pt i=m.kernelRegion0Pt i
  /-- The heap is ready for the next request. -/
  ready : HeapReady M m' b'

/-- The break behind a request that succeeds. -/
theorem kernelBrkPage_served (r : ℤ) (n : ℕ) :
    kernelBrkPage M true ⟨requestedPage M r,n⟩=requestedPage M r := by
  rw [kernelBrkPage_vm,started_eq (orig_le_requestedPage M r)]

/-- Looking at the variables does not move the break. -/
theorem kernelBrkPage_started (b : KernelBrk) :
    kernelBrkPage M true (b.started M)=kernelBrkPage M true b := by
  rw [kernelBrkPage_vm,kernelBrkPage_vm,started_idem]

/-- The growing loop of a request. -/
theorem heap_grows (hM : KernelLayout M) (h : HeapReady M m b)
    (hr : requestedPage M r≤M.kernelStackBasePage) {m₁ : Memory} {pt₁ : PageTable} {ok : Bool}
    (hg : growPages M (kernelBrkPage M true b) (requestedPage M r-kernelBrkPage M true b) 0 m
      m.kernelRegion0Pt=(m₁,pt₁,ok)) :
    Grown (kernelBrkPage M true b) 0 (requestedPage M r-kernelBrkPage M true b)
        m.kernelRegion0Pt pt₁ ok ∧
      Backing (HeapRange M) (fun _ => False) m₁ pt₁ ∧ Kept m m₁ ∧
      (ok=true ↔ requestedPage M r-kernelBrkPage M true b≤(freeFrames m).card) ∧
      (ok=true → (freeFrames m₁).card+(requestedPage M r-kernelBrkPage M true b)=
        (freeFrames m).card) ∧
      (ok=false → m₁=m ∧ pt₁=m.kernelRegion0Pt) := by
  have hstack := hM.stack_le
  have habove := h.above
  have hbelow := h.below
  have hgrown := growPages_table hg (by omega) (by omega)
  have hback := backing_rule.growHeap (M := M) (kernelBrkPage M true b)
    (requestedPage M r-kernelBrkPage M true b) h.frames
    (fun _ i h₁ h₂ _ => by unfold HeapRange HeapPage; omega) False.elim
  have hkept : Kept m (growPages M (kernelBrkPage M true b)
    (requestedPage M r-kernelBrkPage M true b) 0 m m.kernelRegion0Pt).1 := kept_growPages
  obtain ⟨hiff,hcount⟩ := @growPages_enough M m m.kernelRegion0Pt (kernelBrkPage M true b)
    (requestedPage M r-kernelBrkPage M true b) 0 (by omega) (by omega)
  rw [hg] at hback hkept hiff hcount
  refine ⟨hgrown,hback,hkept,hiff,hcount,fun hok => ?_⟩
  subst hok
  refine growPages_restores rfl (fun i h₁ h₂ => ?_) hg
  have hin : HeapRange M i := by
    unfold HeapRange HeapPage
    omega
  refine h.zero i hin (Bool.eq_false_iff.2 fun hv => ?_)
  have hlt := (h.valid i hin).1 hv
  omega

/-- Where a break shrinks, an entry without a page is a zero entry. -/
theorem shrinkPages_zero {D : ℕ → Prop} {pt : PageTable} {page : ℤ} {n : ℕ} (h0 : 0≤page)
    (h1 : page+n≤M.maxPtLen) (hz : ∀ i,D i → (pt i).valid=false → pt i=zeroPte) :
    ∀ i,D i → ((shrinkPages M n page m pt).2 i).valid=false →
      (shrinkPages M n page m pt).2 i=zeroPte := by
  induction n generalizing page m pt with
  | zero => exact hz
  | succ n ih =>
    unfold shrinkPages
    split
    · refine ih (by omega) (by omega) (fun i hi hv => ?_)
      rw [unmapPage_eq h0 (by omega),update_page h0] at hv ⊢
      split
      · rfl
      · rename_i hip
        rw [if_neg hip] at hv
        exact hz i hi hv
    · exact ih (by omega) (by omega) hz

/-- A request that is granted moves the break to the page it asks for. -/
theorem request_served (hM : KernelLayout M) (h : HeapReady M m b)
    (hr : requestedPage M r≤M.kernelStackBasePage) {m₁ : Memory} {pt₁ : PageTable} (n : ℕ)
    (hg : growPages M (kernelBrkPage M true b) (requestedPage M r-kernelBrkPage M true b) 0 m
      m.kernelRegion0Pt=(m₁,pt₁,true)) :
    Served M m b (requestedPage M r) {(shrinkPages M (kernelBrkPage M true b-requestedPage M r)
        (requestedPage M r) m₁ pt₁).1 with
      kernelRegion0Pt := (shrinkPages M (kernelBrkPage M true b-requestedPage M r)
        (requestedPage M r) m₁ pt₁).2} ⟨requestedPage M r,n⟩ := by
  have hstack := hM.stack_le
  have habove := h.above
  have hbelow := h.below
  have horig := orig_le_requestedPage M r
  obtain ⟨hgrown,hback,hkept,_,hcount,_⟩ := heap_grows hM h hr hg
  obtain ⟨hsin,hsout⟩ := shrinkPages_table (M := M) m₁ pt₁ (requestedPage M r)
    (kernelBrkPage M true b-requestedPage M r) (by omega) (by omega)
  have hvalid : ∀ i,HeapRange M i → (((shrinkPages M (kernelBrkPage M true b-requestedPage M r)
      (requestedPage M r) m₁ pt₁).2 i).valid=true ↔ i< requestedPage M r) := by
    intro i hi
    have hiff := h.valid i hi
    by_cases hlt : i< requestedPage M r
    · rw [hsout i (by omega)]
      by_cases hup : kernelBrkPage M true b≤ i
      · exact ⟨fun _ => hlt,fun _ => (hgrown.mapped rfl i (by omega) (by omega)).1⟩
      · rw [hgrown.outside i (by omega),hiff]
        omega
    · by_cases hup : kernelBrkPage M true b≤ i
      · rw [hsout i (by omega),hgrown.outside i (by omega),hiff]
        omega
      · rw [hsin i (by omega) (by omega)]
        exact ⟨fun hf => (by cases hf),fun hx => absurd hx hlt⟩
  have hall := allocated_free m
  have hpage := kernelBrkPage_served (M := M) r n
  have hzero : ∀ i,HeapRange M i → (pt₁ i).valid=false → pt₁ i=zeroPte := by
    intro i hi hv
    by_cases hin : (kernelBrkPage M true b : ℤ)≤ i ∧
        (i : ℤ)<kernelBrkPage M true b+(0 : ℕ)+(requestedPage M r-kernelBrkPage M true b : ℕ)
    · rw [(hgrown.mapped rfl i (by omega) (by omega)).1] at hv
      cases hv
    · rw [hgrown.outside i hin] at hv ⊢
      exact h.zero i hi hv
  refine ⟨hpage,fun i hi => ?_,?_,fun i hi => ?_,?_,?_,fun i hi => ?_,?_,?_⟩
  · rw [hpage]
    exact hvalid i hi
  · have hshrunk := @shrinkPages_count M _ _ (requestedPage M r : ℤ)
      (kernelBrkPage M true b-requestedPage M r) _ _ hback (by omega) (by omega) (fun i h₁ h₂ => by
        have hi : HeapRange M i := by
          unfold HeapRange HeapPage
          omega
        rw [hgrown.outside i (by omega),h.valid i hi]
        exact ⟨hi,by omega⟩)
    have hall' := allocated_free (shrinkPages M (kernelBrkPage M true b-requestedPage M r)
      (requestedPage M r) m₁ pt₁).1
    rw [kept_shrinkPages.count,hkept.count] at hall'
    have hgrowth := hcount rfl
    change ((allocatedFrames (shrinkPages M (kernelBrkPage M true b-requestedPage M r)
      (requestedPage M r) m₁ pt₁).1).card : ℤ)=_
    omega
  · unfold Between at hi
    dsimp only
    rw [hsout i (by omega),hgrown.outside i (by omega)]
  · rw [hpage]
    exact horig
  · rw [hpage]
    exact hr
  · rw [hpage]
    exact hvalid i hi
  · refine (backing_rule.shrinkPages (M := M) hback
      (fun _ i hi => ⟨by omega,by omega,?_⟩)).sameFrames rfl rfl
    unfold HeapRange HeapPage
    omega
  · exact shrinkPages_zero (by omega) (by omega) hzero

/-- A request for a page: with the heap ready it succeeds exactly when the page
stays below the kernel stack and enough frames are free. A success moves the
break to it, and a failure leaves memory and break as they were. -/
theorem setKernelBrkPage_cases (hM : KernelLayout M) (h : HeapReady M m b) (r : ℤ) :
    ∃ m' b' rc,setKernelBrkPage M true r m b=(m',b',rc) ∧ (rc=SUCCESS ∨ rc=ERROR) ∧
      (rc=SUCCESS ↔ requestedPage M r≤M.kernelStackBasePage ∧
        requestedPage M r-kernelBrkPage M true b≤(freeFrames m).card) ∧
      (rc=SUCCESS → Served M m b (requestedPage M r) m' b') ∧
      (rc=ERROR → m'=m ∧ b'=b.started M) := by
  unfold setKernelBrkPage
  by_cases hr : requestedPage M r≤M.kernelStackBasePage
  · rw [if_neg (by omega),if_neg (by decide)]
    cases hg : growPages M (kernelBrkPage M true b) (requestedPage M r-kernelBrkPage M true b) 0 m
        m.kernelRegion0Pt with
    | mk m₁ x =>
      obtain ⟨pt₁,ok⟩ := x
      obtain ⟨_,_,_,hiff,_,hrest⟩ := heap_grows hM h hr hg
      cases ok with
      | true =>
        refine ⟨_,_,_,rfl,.inl rfl,⟨fun _ => ⟨hr,hiff.1 rfl⟩,fun _ => rfl⟩,fun _ => ?_,
          fun hn => (by cases hn)⟩
        exact request_served hM h hr _ hg
      | false =>
        obtain ⟨rfl,rfl⟩ := hrest rfl
        exact ⟨_,_,_,rfl,.inr rfl,⟨fun hf => (by cases hf),fun hx => (by cases hiff.2 hx.2)⟩,
          fun hf => (by cases hf),fun _ => ⟨rfl,rfl⟩⟩
  · rw [if_pos (by omega)]
    exact ⟨_,_,_,rfl,.inr rfl,⟨fun hf => (by cases hf),fun hx => absurd hx.1 hr⟩,
      fun hf => (by cases hf),fun _ => ⟨rfl,rfl⟩⟩

end Requests

section Addresses

variable {addr : BitVec 32}

/-- The page that an address asks for: rounded up, but not below the image. -/
def roundedPage (M : Machine) (addr : BitVec 32) : ℕ :=
  max M.origKernelBrkPage (M.upToPage addr.toNat/M.pageSize)

/-- A request for an address is exact and atomic: a success moves the break to
the page of the address, and a failure changes nothing. -/
structure ExactRequest (M : Machine) (m : Memory) (b : KernelBrk) (addr : BitVec 32) : Prop where
  /-- There are two results. -/
  result : (setKernelBrk M true addr m b).2.2=SUCCESS ∨ (setKernelBrk M true addr m b).2.2=ERROR
  /-- A success serves the request. -/
  success : (setKernelBrk M true addr m b).2.2=SUCCESS → Served M m b (roundedPage M addr)
    (setKernelBrk M true addr m b).1 (setKernelBrk M true addr m b).2.1
  /-- A failure leaves Region 0, the frames and the break as they were. -/
  failure : (setKernelBrk M true addr m b).2.2=ERROR → (setKernelBrk M true addr m b).1=m ∧
    (setKernelBrk M true addr m b).2.1=b.started M ∧
    kernelBrkPage M true (setKernelBrk M true addr m b).2.1=kernelBrkPage M true b

/-- The addresses of C ints are whole pages, more than a region has. -/
theorem int_pages (M : Machine) : ∃ k,2^31=k*M.pageSize ∧ M.maxPtLen<k := by
  have hlimit := M.vmem1Limit_int
  have hbase := M.vmem1Base_pos
  have hpos := M.maxPtLen_pos
  have hsize : 2^M.pageShift≤2^31 := by
    calc 2^M.pageShift=1*2^M.pageShift := (Nat.one_mul _).symm
      _≤ M.maxPtLen*2^M.pageShift := Nat.mul_le_mul_right _ hpos
      _≤2^31 := by omega
  obtain ⟨k,hk⟩ := Nat.pow_dvd_pow 2 ((Nat.pow_le_pow_iff_right (by decide)).1 hsize)
  rw [Nat.mul_comm] at hk
  refine ⟨k,hk,Nat.lt_of_mul_lt_mul_right (a := 2^M.pageShift) ?_⟩
  omega

/-- An address at most a page below the end of the C ints rounds up to a C int. -/
theorem upToPage_int {a : ℕ} (ha : a≤2^31-M.pageSize) : M.upToPage a<2^31 := by
  obtain ⟨k,hk,hlt⟩ := int_pages M
  have hpos := M.pageSize_pos
  have hle : M.pageSize≤k*M.pageSize := Nat.le_mul_of_pos_left _ (by omega)
  have hfloor := Nat.div_mul_le_self (a+(M.pageSize-1)) M.pageSize
  unfold Machine.upToPage
  omega

/-- A higher address rounds up to 2^31 or more, but not beyond 2^32. -/
theorem upToPage_overflow {a : ℕ} (ha : 2^31-M.pageSize<a) (hw : a<2^32) :
    2^31≤M.upToPage a ∧ M.upToPage a≤2^32 := by
  obtain ⟨k,hk,hlt⟩ := int_pages M
  have hpos := M.pageSize_pos
  unfold Machine.upToPage
  constructor
  · rw [hk]
    refine Nat.mul_le_mul_right _ ((Nat.le_div_iff_mul_le hpos).2 ?_)
    omega
  · have htwice : 2^32=2*k*M.pageSize := by
      rw [Nat.mul_assoc,←hk]
      rfl
    rw [htwice]
    refine Nat.mul_le_mul_right _ (Nat.le_of_lt_succ ((Nat.div_lt_iff_lt_mul hpos).2 ?_))
    rw [Nat.succ_mul,←htwice]
    omega

/-- An address that rounds up to a C int asks for its page. -/
theorem requestedPage_int (ha : addr.toNat≤2^31-M.pageSize) :
    requestedPage M (brkRequest M addr)=roundedPage M addr := by
  have hint := upToPage_int ha
  have hrequest : brkRequest M addr=((M.upToPage addr.toNat/M.pageSize : ℕ) : ℤ) := by
    unfold brkRequest
    rw [wrap32_eq (by omega) (by omega),Int.natCast_ediv]
  unfold requestedPage roundedPage
  rw [hrequest]
  split
  · omega
  · omega

/-- A higher address asks for the end of the image, since it becomes negative
or zero. -/
theorem requestedPage_overflow (ha : 2^31-M.pageSize<addr.toNat) :
    requestedPage M (brkRequest M addr)=M.origKernelBrkPage := by
  obtain ⟨hge,hle⟩ := upToPage_overflow ha addr.isLt
  have hpos := M.origKernelBrkPage_pos
  have hneg : wrap32 (M.upToPage addr.toNat)≤0 := by
    rcases Nat.lt_or_eq_of_le hle with hlt|heq
    · rw [wrap32_overflow (by omega) (by omega)]
      omega
    · rw [heq]
      decide
  have hrequest : brkRequest M addr≤0 :=
    Int.ediv_nonpos_of_nonpos_of_neg hneg (Int.natCast_pos.2 M.pageSize_pos)
  unfold requestedPage
  exact if_pos (by omega)

/-- Its page would be above the kernel stack. -/
theorem roundedPage_overflow (hM : KernelLayout M) (ha : 2^31-M.pageSize<addr.toNat) :
    M.kernelStackBasePage< roundedPage M addr := by
  obtain ⟨k,hk,hlt⟩ := int_pages M
  obtain ⟨hge,_⟩ := upToPage_overflow ha addr.isLt
  have hstack := hM.stack_le
  have hpage : k≤M.upToPage addr.toNat/M.pageSize :=
    (Nat.le_div_iff_mul_le M.pageSize_pos).2 (by omega)
  unfold roundedPage
  omega

/-- With virtual memory SetKernelBrk is exact and atomic for an address exactly
when the address, rounded up to a page boundary, is a C int. A higher one
becomes negative or zero, and the break falls to the end of the image instead of
the request being refused. This holds for every frame table and every state in
which the heap is ready. -/
theorem setKernelBrk_exact (M : Machine) (hM : KernelLayout M) (m : Memory) (b : KernelBrk)
    (h : HeapReady M m b) (addr : BitVec 32) :
    (ExactRequest M m b addr ↔ addr.toNat≤2^31-M.pageSize) ∧
      (addr.toNat≤2^31-M.pageSize → ((setKernelBrk M true addr m b).2.2=SUCCESS ↔
        roundedPage M addr≤M.kernelStackBasePage ∧
          roundedPage M addr-kernelBrkPage M true b≤(freeFrames m).card)) := by
  obtain ⟨m',b',rc,he,hrc,hiff,hserved,hfailed⟩ := setKernelBrkPage_cases hM h (brkRequest M addr)
  have hset : setKernelBrk M true addr m b=(m',b',rc) := he
  refine ⟨⟨fun hexact => ?_,fun ha => ?_⟩,fun ha => ?_⟩
  · by_contra hn
    have hover : 2^31-M.pageSize<addr.toNat := by omega
    have hpage := requestedPage_overflow hover
    have habove := h.above
    have hsuccess : rc=SUCCESS := by
      rw [hiff,hpage]
      exact ⟨hM.brk_le,by omega⟩
    have hbrk := (hserved hsuccess).moved
    have hclaimed := (hexact.success (by rw [hset]; exact hsuccess)).moved
    have hhigh := roundedPage_overflow hM hover
    have hle := hM.brk_le
    rw [hset] at hclaimed
    dsimp only at hclaimed
    omega
  · have hpage := requestedPage_int ha
    rw [hpage] at hserved
    refine ⟨?_,fun hs => ?_,fun hf => ?_⟩
    · rw [hset]
      exact hrc
    · rw [hset] at hs ⊢
      exact hserved hs
    · rw [hset] at hf ⊢
      obtain ⟨hm,hb⟩ := hfailed hf
      refine ⟨hm,hb,?_⟩
      dsimp only
      rw [hb]
      exact kernelBrkPage_started b
  · rw [hset,hiff,requestedPage_int ha]

end Addresses

section Carried

variable {x : Memory × KernelBrk} {frames : ℕ} {contents : ℕ → ℕ → UInt8} {q : BootRequests}
  {v : VmStart} {l : List ℤ} {c : ℕ}

/-- The break behind one more request. -/
def grant (M : Machine) (page : ℕ) (r : ℤ) : ℕ :=
  if requestedPage M r≤M.kernelStackBasePage then requestedPage M r else page

/-- The last request of a list that is granted. -/
def lastBrk (M : Machine) (l : List ℤ) : ℕ := l.foldl (grant M) M.origKernelBrkPage

/-- Frames are taken and given back outside the heap. -/
def withFrames (marks : ℕ → Bool) (x : Memory × KernelBrk) : Memory × KernelBrk :=
  ({x.1 with frameAllocated := marks},x.2)

/-- Requests with virtual memory, each with the frame table it finds. -/
def later (M : Machine) (l : List ((ℕ → Bool) × ℤ)) (x : Memory × KernelBrk) :
    Memory × KernelBrk :=
  l.foldl (fun x a => request M true (withFrames a.1 x) a.2) x

/-- No page of the heap is mapped at or above the break. -/
def NoStale (M : Machine) (x : Memory × KernelBrk) : Prop :=
  ∀ i,kernelBrkPage M true x.2≤ i → i<M.kernelStackBasePage →
    (x.1.kernelRegion0Pt i).valid=false

/-- A growth to the request maps no page that is mapped. -/
def MapsFresh (M : Machine) (x : Memory × KernelBrk) (r : ℤ) : Prop :=
  requestedPage M r≤M.kernelStackBasePage →
    ∀ i,kernelBrkPage M true x.2≤ i → i< requestedPage M r → (x.1.kernelRegion0Pt i).valid=false

/-- The request loses no frame of the heap: an entry that is not kept has had
its frame given back. -/
def KeepsFrames (M : Machine) (x : Memory × KernelBrk) (r : ℤ) : Prop :=
  ∀ i,HeapRange M i → (x.1.kernelRegion0Pt i).valid=true →
    (x.1.kernelRegion0Pt i).pfn<x.1.physicalFrameCount →
    (request M true x r).1.kernelRegion0Pt i=x.1.kernelRegion0Pt i ∨
      (request M true x r).1.frameAllocated (x.1.kernelRegion0Pt i).pfn=false

/-- The break that was counted is carried over: whatever is requested later. -/
structure CarriesOver (M : Machine) (x : Memory × KernelBrk) : Prop where
  /-- Nothing is mapped above the break. -/
  stale : ∀ l,NoStale M (later M l x)
  /-- A growth maps pages that are not mapped. -/
  fresh : ∀ l r,MapsFresh M (later M l x) r
  /-- No frame of the heap is lost. -/
  kept : ∀ l marks r,KeepsFrames M (withFrames marks (later M l x)) r

/-- The break never reaches into the kernel stack, and nothing is mapped above it. -/
structure HeapBelow (M : Machine) (x : Memory × KernelBrk) : Prop where
  /-- The break is below the kernel stack. -/
  below : kernelBrkPage M true x.2≤M.kernelStackBasePage
  /-- Nothing is mapped above it. -/
  clear : NoStale M x

/-- A frame that is in use behind shrinking was in use before. -/
theorem shrinkPages_frees {pt : PageTable} {page : ℤ} {n f : ℕ}
    (h : m.frameAllocated f=false) :
    (shrinkPages M n page m pt).1.frameAllocated f=false := by
  induction n generalizing page m pt with
  | zero => exact h
  | succ n ih =>
    unfold shrinkPages
    split
    · refine ih ?_
      unfold frameFree
      split
      · exact h
      · dsimp only
        by_cases hf : f=(pt page.toNat).pfn
        · rw [hf,Function.update_self]
        · rw [Function.update_of_ne hf]
          exact h
    · exact ih h

/-- Shrinking gives back the frame of each page. -/
theorem shrinkPages_freed {pt : PageTable} {page : ℤ} {n i : ℕ} (h0 : 0≤page)
    (h1 : page+n≤M.maxPtLen) (hi : page≤ i) (hn : i<page+n) (hv : (pt i).valid=true)
    (hc : (pt i).pfn< m.physicalFrameCount) :
    (shrinkPages M n page m pt).1.frameAllocated (pt i).pfn=false := by
  induction n generalizing page m pt with
  | zero => omega
  | succ n ih =>
    unfold shrinkPages
    by_cases hp : i=page.toNat
    · rw [←hp,if_pos hv]
      refine shrinkPages_frees ?_
      unfold frameFree
      rw [if_neg (by omega)]
      exact Function.update_self _ _ _
    · split
      · have hsame : memoryUnmapPage M pt page i=pt i := by
          rw [unmapPage_eq h0 (by omega),Function.update_of_ne hp]
        have hrest := @ih (frameFree m (pt page.toNat).pfn) (memoryUnmapPage M pt page) (page+1)
          (by omega) (by omega) (by omega) (by omega)
        rw [hsame] at hrest
        exact hrest hv (by rw [(kept_free _ _).count]; exact hc)
      · exact ih (by omega) (by omega) (by omega) (by omega) hv hc

/-- One request: nothing is mapped above the break behind it, and no frame has
been lost. -/
theorem HeapBelow.request (hM : KernelLayout M) (h : HeapBelow M x) (r : ℤ) :
    HeapBelow M (KernelBreak.request M true x r) ∧ KeepsFrames M x r := by
  obtain ⟨m,b⟩ := x
  have hstack := hM.stack_le
  have hbelow : kernelBrkPage M true b≤M.kernelStackBasePage := h.below
  have hclear : ∀ i,kernelBrkPage M true b≤ i → i<M.kernelStackBasePage →
    (m.kernelRegion0Pt i).valid=false := h.clear
  have hlow : ∀ i,HeapRange M i → (m.kernelRegion0Pt i).valid=true →
      i<kernelBrkPage M true b := by
    intro i hi hv
    by_contra hn
    rw [hclear i (by omega) hi.2] at hv
    cases hv
  unfold KeepsFrames KernelBreak.request setKernelBrkPage
  dsimp only
  by_cases hr : requestedPage M r≤M.kernelStackBasePage
  · rw [if_neg (by omega),if_neg (by decide)]
    cases hg : growPages M (kernelBrkPage M true b) (requestedPage M r-kernelBrkPage M true b) 0 m
        m.kernelRegion0Pt with
    | mk m₁ y =>
      obtain ⟨pt₁,ok⟩ := y
      have hgrown := growPages_table hg (by omega) (by omega)
      cases ok with
      | false =>
        refine ⟨⟨?_,fun i hb hs => ?_⟩,fun i hi hv _ => .inl ?_⟩
        · rw [kernelBrkPage_started]
          exact hbelow
        · rw [kernelBrkPage_started] at hb
          dsimp only
          by_cases hin : i< requestedPage M r
          · exact hgrown.undone rfl i (by omega) (by omega) (fun _ => hclear i hb hs)
          · rw [hgrown.outside i (by omega)]
            exact hclear i hb hs
        · have hlt := hlow i hi hv
          exact hgrown.outside i (by omega)
      | true =>
        obtain ⟨hsin,hsout⟩ := shrinkPages_table (M := M) m₁ pt₁ (requestedPage M r)
          (kernelBrkPage M true b-requestedPage M r) (by omega) (by omega)
        refine ⟨⟨?_,fun i hb hs => ?_⟩,fun i hi hv hc => ?_⟩
        · rw [kernelBrkPage_served]
          exact hr
        · rw [kernelBrkPage_served] at hb
          dsimp only
          by_cases hup : kernelBrkPage M true b≤ i
          · rw [hsout i (by omega),hgrown.outside i (by omega)]
            exact hclear i hup hs
          · exact hsin i (by omega) (by omega)
        · have hlt := hlow i hi hv
          have hsame : pt₁ i=m.kernelRegion0Pt i := hgrown.outside i (by omega)
          dsimp only
          by_cases hup : i< requestedPage M r
          · rw [hsout i (by omega),hsame]
            exact .inl rfl
          · rw [←hsame] at hv hc ⊢
            have hkept : Kept m (growPages M (kernelBrkPage M true b)
              (requestedPage M r-kernelBrkPage M true b) 0 m m.kernelRegion0Pt).1 := kept_growPages
            rw [hg] at hkept
            exact .inr (shrinkPages_freed (by omega) (by omega) (by omega) (by omega) hv
              (by rw [hkept.count]; exact hc))
  · rw [if_pos (by omega)]
    refine ⟨⟨?_,fun i hb hs => ?_⟩,fun i _ _ _ => .inl rfl⟩
    · rw [kernelBrkPage_started]
      exact hbelow
    · rw [kernelBrkPage_started] at hb
      exact hclear i hb hs

/-- Requests behind VM keep the heap below the kernel stack. -/
theorem HeapBelow.later (hM : KernelLayout M) (h : HeapBelow M x) (l : List ((ℕ → Bool) × ℤ)) :
    HeapBelow M (KernelHeap.later M l x) := by
  induction l generalizing x with
  | nil => exact h
  | cons a l ih =>
    have hmarks : HeapBelow M (withFrames a.1 x) := ⟨h.below,h.clear⟩
    exact ih (hmarks.request hM a.2).1

/-- The heap carries over when nothing is mapped above the break. -/
theorem carries_iff (hM : KernelLayout M) (hb : kernelBrkPage M true x.2≤M.kernelStackBasePage) :
    CarriesOver M x ↔ NoStale M x := by
  refine ⟨fun h => h.stale [],fun h => ?_⟩
  have hbelow : HeapBelow M x := ⟨hb,h⟩
  refine ⟨fun l => (hbelow.later hM l).clear,fun l r hr i h₁ h₂ => ?_,fun l marks r => ?_⟩
  · exact (hbelow.later hM l).clear i h₁ (by omega)
  · have hl := hbelow.later hM l
    have hmarks : HeapBelow M (withFrames marks (later M l x)) := ⟨hl.below,hl.clear⟩
    exact (hmarks.request hM r).2

/-- The break behind requests before virtual memory. -/
theorem requests_current (m : Memory) (b : KernelBrk) (h : (b.started M).current=c) (l : List ℤ) :
    (((l.foldl (KernelBreak.request M false) (m,b)).2).started M).current=l.foldl (grant M) c := by
  induction l generalizing m b c with
  | nil => exact h
  | cons r l ih =>
    refine ih _ _ ?_
    unfold setKernelBrkPage grant
    dsimp only
    by_cases hr : requestedPage M r≤M.kernelStackBasePage
    · rw [if_neg (by omega),if_pos rfl,if_pos hr]
      dsimp only [countBrk]
      rw [started_eq (orig_le_requestedPage M r)]
    · rw [if_pos (by omega),if_neg hr]
      dsimp only
      rw [started_idem]
      exact h

/-- The break when virtual memory is enabled is the last request granted. -/
theorem bootToVm_current (h : bootToVm M frames contents q=some v) :
    kernelBrkPage M true v.brk=lastBrk M q.all := by
  rw [kernelBrkPage_vm]
  unfold bootToVm at h
  split at h
  · cases h
  · split at h
    · cases h
    · injection h with h
      subst h
      dsimp only
      unfold lastBrk BootRequests.all
      rw [List.foldl_append,List.foldl_append,List.foldl_append,List.foldl_append]
      refine requests_current _ _ (requests_current _ _ (requests_current _ _ ?_ _) _) _
      refine requests_current _ _ ?_ _
      rw [started_idem]
      exact requests_current _ _ rfl _

/-- The frame of idle exists. -/
theorem bootToVm_idle (h : bootToVm M frames contents q=some v) : v.idleFrame<frames := by
  obtain ⟨hcount,_⟩ := bootToIdle_eq M frames contents q
  unfold bootToVm at h
  split at h
  · cases h
  · split at h
    · cases h
    · rename_i hf
      obtain ⟨_,hlt,_⟩ := frameAlloc_eq hf
      injection h with h
      subst h
      rw [hcount] at hlt
      exact hlt

/-- No request that is granted is for a page below the image. -/
theorem orig_le_grants (l : List ℤ) (h : M.origKernelBrkPage≤ c) :
    M.origKernelBrkPage≤l.foldl (grant M) c := by
  induction l generalizing c with
  | nil => exact h
  | cons r l ih =>
    refine ih ?_
    unfold grant
    split
    · exact orig_le_requestedPage M r
    · exact h

/-- The break before virtual memory carries over, so that no later growth maps a
mapped page and no frame of the heap is lost, exactly when the last request
granted is not below the highest one that Region 0 was built for. -/
theorem heap_carries (M : Machine) (hM : KernelLayout M) (frames : ℕ)
    (contents : ℕ → ℕ → UInt8) (q : BootRequests) (v : VmStart)
    (h : bootToVm M frames contents q=some v) :
    CarriesOver M (v.memory,v.brk) ↔
      heapTop M (q.start++q.table++q.build)≤lastBrk M q.all := by
  have hv := bootToVm_reached h
  have hcur := bootToVm_current h
  have hstack := hM.stack_le
  have htop : heapTop M q.all≤M.kernelStackBasePage := raises_le hM.brk_le _
  have hbuilt : heapTop M (q.start++q.table++q.build)≤M.kernelStackBasePage :=
    raises_le hM.brk_le _
  have hle := hv.brk.current_le
  have hhigh := hv.brk.highest
  have hvm := kernelBrkPage_vm (M := M) v.brk
  rw [carries_iff hM (by dsimp only; omega)]
  unfold NoStale
  dsimp only
  rw [hcur,hv.region0]
  constructor
  · intro hclear
    by_contra hn
    have horig : M.origKernelBrkPage≤lastBrk M q.all := orig_le_grants q.all (Nat.le_refl _)
    have htext := hM.text_le
    have hdata := hM.data_le
    obtain ⟨hmapped,_⟩ := region0_mapped hM hbuilt (.inl ⟨by omega,not_le.1 hn⟩)
    rw [hclear _ (Nat.le_refl _) (by omega)] at hmapped
    cases hmapped
  · intro hge i h₁ h₂
    have horig : M.origKernelBrkPage≤lastBrk M q.all := orig_le_grants q.all (Nat.le_refl _)
    have hdata := hM.data_le
    unfold memoryBuildKernelRegion0
    rw [mapIdentity_table,mapIdentity_table,mapIdentity_table,if_neg (by omega),
      if_neg (by omega),if_neg (by omega)]
    rfl

/-- Where the heap carries over and memory backs it, it is ready for requests. -/
theorem boot_ready (hM : KernelLayout M) (h : bootToVm M frames contents q=some v)
    (hlast : lastBrk M q.all=heapTop M (q.start++q.table++q.build))
    (hbuild : heapTop M (q.start++q.table++q.build)≤heapTop M (q.start++q.table))
    (hf : heapTop M (q.start++q.table)≤frames) : HeapReady M v.memory v.brk := by
  have hv := bootToVm_reached h
  have hcur := bootToVm_current h
  have htext := hM.text_le
  have hdata := hM.data_le
  have hbuilt : heapTop M (q.start++q.table++q.build)≤M.kernelStackBasePage :=
    raises_le hM.brk_le _
  have horig : M.origKernelBrkPage≤lastBrk M q.all := orig_le_grants q.all (Nat.le_refl _)
  have hout : ∀ i,HeapRange M i → ¬i<kernelBrkPage M true v.brk →
      v.memory.kernelRegion0Pt i=zeroPte := by
    intro i hi hn
    have hlow := hi.1
    have hhigh := hi.2
    rw [hv.region0]
    unfold memoryBuildKernelRegion0
    rw [mapIdentity_table,mapIdentity_table,mapIdentity_table,if_neg (by omega),
      if_neg (by omega),if_neg (by omega)]
  have hin : ∀ i,HeapRange M i → i<kernelBrkPage M true v.brk →
      (v.memory.kernelRegion0Pt i).valid=true ∧ (v.memory.kernelRegion0Pt i).pfn=i := by
    intro i hi hlt
    have hlow := hi.1
    rw [hv.region0]
    exact region0_mapped hM hbuilt (.inl ⟨by omega,by omega⟩)
  have hvalid : ∀ i,HeapRange M i →
      ((v.memory.kernelRegion0Pt i).valid=true ↔ i<kernelBrkPage M true v.brk) := by
    refine fun i hi => ⟨fun hval => ?_,fun hlt => (hin i hi hlt).1⟩
    by_contra hn
    rw [hout i hi hn] at hval
    cases hval
  have hidle : v.idleFrame<frames := bootToVm_idle h
  refine ⟨by omega,by omega,hvalid,⟨fun f hm => ?_,fun f hf => hf.elim,fun i hi hval => ?_,
    fun _ _ _ hf => hf,fun i j hi hj hvi hvj he => ?_⟩,fun i hi hval => ?_⟩
  · rw [hv.count]
    rcases (hv.allocated f).1 hm with hr|rfl
    · exact hr.1
    · exact hidle
  · have hlt := (hvalid i hi).1 hval
    rw [(hin i hi hlt).2]
    exact (hv.allocated i).2 (.inl ⟨by omega,.inl (by omega)⟩)
  · rw [(hin i hi ((hvalid i hi).1 hvi)).2,(hin j hj ((hvalid j hj).1 hvj)).2] at he
    exact he
  · refine hout i hi (fun hlt => ?_)
    rw [(hin i hi hlt).1] at hval
    cases hval

/-- Behind the boot the allocator asks for an address in the second page above the
break, which grows the heap by two pages. -/
theorem setKernelBrk_exact_sample :
    ∃ v,bootToVm sampleMachine 256 (fun _ _ => 0) (sampleRequests [41])=some v ∧
      ExactRequest sampleMachine v.memory v.brk 0x54001 ∧
      (setKernelBrk sampleMachine true 0x54001 v.memory v.brk).2.2=SUCCESS ∧
      kernelBrkPage sampleMachine true
        (setKernelBrk sampleMachine true 0x54001 v.memory v.brk).2.1=43 := by
  cases hv : bootToVm sampleMachine 256 (fun _ _ => 0) (sampleRequests [41]) with
  | none =>
    have hn : (bootToVm sampleMachine 256 (fun _ _ => 0) (sampleRequests [41])).isSome=true := by
      decide +kernel
    rw [hv] at hn
    cases hn
  | some v =>
    have hq : (bootToVm sampleMachine 256 (fun _ _ => 0) (sampleRequests [41])).any (fun v =>
        decide (roundedPage sampleMachine 0x54001-kernelBrkPage sampleMachine true v.brk≤
          (freeFrames v.memory).card))=true := by decide +kernel
    rw [hv,Option.any_some,decide_eq_true_eq] at hq
    have hready := boot_ready sampleMachine_layout hv (by decide) (by decide) (by decide)
    obtain ⟨hiff,hsuccess⟩ := setKernelBrk_exact sampleMachine sampleMachine_layout
      v.memory v.brk hready 0x54001
    have hexact := hiff.2 (by decide)
    have hs := (hsuccess (by decide)).2 ⟨by decide,hq⟩
    exact ⟨v,rfl,hexact,hs,(hexact.success hs).moved⟩

/-- Behind the boot the allocator asks for the highest address: it rounds up to
zero, so that the request succeeds and takes a page from the heap. -/
theorem setKernelBrk_wraps :
    ∃ v,bootToVm sampleMachine 256 (fun _ _ => 0) (sampleRequests [41])=some v ∧
      HeapReady sampleMachine v.memory v.brk ∧ kernelBrkPage sampleMachine true v.brk=41 ∧
      (setKernelBrk sampleMachine true 0xffffffff v.memory v.brk).2.2=SUCCESS ∧
      kernelBrkPage sampleMachine true
        (setKernelBrk sampleMachine true 0xffffffff v.memory v.brk).2.1=40 ∧
      ¬ExactRequest sampleMachine v.memory v.brk 0xffffffff := by
  cases hv : bootToVm sampleMachine 256 (fun _ _ => 0) (sampleRequests [41]) with
  | none =>
    have hn : (bootToVm sampleMachine 256 (fun _ _ => 0) (sampleRequests [41])).isSome=true := by
      decide +kernel
    rw [hv] at hn
    cases hn
  | some v =>
    have hq : (bootToVm sampleMachine 256 (fun _ _ => 0) (sampleRequests [41])).any (fun v =>
        decide (kernelBrkPage sampleMachine true v.brk=41 ∧
          (setKernelBrk sampleMachine true 0xffffffff v.memory v.brk).2.2=SUCCESS ∧
          kernelBrkPage sampleMachine true
            (setKernelBrk sampleMachine true 0xffffffff v.memory v.brk).2.1=40))=true := by
      decide +kernel
    rw [hv,Option.any_some,decide_eq_true_eq] at hq
    obtain ⟨hbrk,hs,hnew⟩ := hq
    refine ⟨v,rfl,boot_ready sampleMachine_layout hv (by decide) (by decide) (by decide),hbrk,hs,
      hnew,fun hexact => ?_⟩
    have hpage := (hexact.success hs).moved
    have hrounded : roundedPage sampleMachine 0xffffffff=524288 := by decide +kernel
    rw [hnew,hrounded] at hpage
    cases hpage

/-- A heap that only grows carries over. -/
theorem heap_carries_sample :
    ∃ v,bootToVm sampleMachine 256 (fun _ _ => 0) (sampleRequests [41])=some v ∧
      CarriesOver sampleMachine (v.memory,v.brk) := by
  cases hv : bootToVm sampleMachine 256 (fun _ _ => 0) (sampleRequests [41]) with
  | none =>
    have hn : (bootToVm sampleMachine 256 (fun _ _ => 0) (sampleRequests [41])).isSome=true := by
      decide +kernel
    rw [hv] at hn
    cases hn
  | some v =>
    exact ⟨v,rfl,(heap_carries sampleMachine sampleMachine_layout 256 _ _ v hv).2 (by decide)⟩

/-- The requests of an allocator that gives four pages back. -/
def shrinkingRequests : BootRequests := ⟨[],[45],[],[],[41]⟩

/-- Page 41 is mapped above the break, and the first growth maps it again while
its frame stays marked. -/
theorem heap_forgets :
    ∃ v,bootToVm sampleMachine 256 (fun _ _ => 0) shrinkingRequests=some v ∧
      kernelBrkPage sampleMachine true v.brk=41 ∧
      v.memory.kernelRegion0Pt 41=⟨true,protReadWrite,41⟩ ∧
      (setKernelBrkPage sampleMachine true 42 v.memory v.brk).2.2=SUCCESS ∧
      ((request sampleMachine true (v.memory,v.brk) 42).1.kernelRegion0Pt 41).pfn=46 ∧
      (request sampleMachine true (v.memory,v.brk) 42).1.frameAllocated 41=true ∧
      ¬CarriesOver sampleMachine (v.memory,v.brk) := by
  cases hv : bootToVm sampleMachine 256 (fun _ _ => 0) shrinkingRequests with
  | none =>
    have hn : (bootToVm sampleMachine 256 (fun _ _ => 0) shrinkingRequests).isSome=true := by
      decide +kernel
    rw [hv] at hn
    cases hn
  | some v =>
    have hq : (bootToVm sampleMachine 256 (fun _ _ => 0) shrinkingRequests).any (fun v => decide (
        kernelBrkPage sampleMachine true v.brk=41 ∧
        v.memory.kernelRegion0Pt 41=⟨true,protReadWrite,41⟩ ∧
        (setKernelBrkPage sampleMachine true 42 v.memory v.brk).2.2=SUCCESS ∧
        ((request sampleMachine true (v.memory,v.brk) 42).1.kernelRegion0Pt 41).pfn=46 ∧
        (request sampleMachine true (v.memory,v.brk) 42).1.frameAllocated 41=true))=true := by
      decide +kernel
    rw [hv,Option.any_some,decide_eq_true_eq] at hq
    obtain ⟨hb,hp,hs,hf,ha⟩ := hq
    refine ⟨v,rfl,hb,hp,hs,hf,ha,fun hc => ?_⟩
    have hclear := hc.fresh [] 42 (by decide) 41 (by dsimp only [later,List.foldl_nil]; omega)
      (by decide)
    dsimp only [later,List.foldl_nil] at hclear
    rw [hp] at hclear
    cases hclear

end Carried

end Yalnix.KernelHeap
