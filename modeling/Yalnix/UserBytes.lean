import Yalnix.ByteMemory
import Yalnix.LoaderStages

/-!
# The bytes of a loaded image

What a process reads at an address of Region 1 goes through its page table. In
a range of pages with frames of their own stores act as on a plain memory. The
pages of an image that is being loaded are such a range, also where its text
and data overlap.
-/

namespace Yalnix.UserBytes

open Framework FrameTable KernelState ProgramLoading AddressSpaces FramePartition LoadedImages
open LoaderStages ByteMemory

variable {M : Machine} {m m' m₁ : Memory} {pt pt' : PageTable} {S S' : ℕ → Prop} {page a x : ℤ}
  {n f : ℕ} {prot : Prot} {contents : ℕ → ℕ → UInt8}

section Views

/-- The page of an address, counted from the start of Region 1. -/
def pageOf (M : Machine) (x : ℤ) : ℕ := x.toNat/M.pageSize-M.vmem1Base/M.pageSize

/-- The byte at an address of Region 1. -/
def userByte (M : Machine) (pt : PageTable) (contents : ℕ → ℕ → UInt8) (x : ℤ) : UInt8 :=
  contents (pt (pageOf M x)).pfn (x.toNat%M.pageSize)

/-- An address in one of the pages S of Region 1. -/
structure Within (M : Machine) (S : ℕ → Prop) (x : ℤ) : Prop where
  /-- It is not below the region. -/
  base : (M.vmem1Base : ℤ)≤x
  /-- It is below the end. -/
  limit : x<M.vmem1Limit
  /-- The page of the byte belongs to the set. -/
  page : S (pageOf M x)

/-- The pages may be among others. -/
theorem Within.mono (h : Within M S x) (hs : ∀ i,S i → S' i) : Within M S' x :=
  ⟨h.base,h.limit,hs _ h.page⟩

/-- The pages S have frames of their own. -/
def OwnPages (S : ℕ → Prop) (pt : PageTable) : Prop :=
  ∀ i j,S i → S j → (pt i).pfn=(pt j).pfn → i=j

/-- The region is a range of whole pages. -/
theorem region_pages (M : Machine) : ∃ b : ℕ,M.vmem1Base/M.pageSize=b ∧
    (M.vmem1Base : ℤ)=b*M.pageSize ∧ (M.vmem1Limit : ℤ)=(b+M.maxPtLen)*M.pageSize := by
  obtain ⟨b,hb⟩ := M.pageSize_dvd_base
  rw [Nat.mul_comm] at hb
  have hlimit : M.vmem1Limit=(b+M.maxPtLen)*M.pageSize := by
    unfold Machine.vmem1Limit
    rw [Nat.add_mul,hb]
  refine ⟨b,?_,by exact_mod_cast hb,by exact_mod_cast hlimit⟩
  rw [hb]
  exact Nat.mul_div_cancel b M.pageSize_pos

/-- An address is made of its page and its offset. -/
theorem address_eq (h : (M.vmem1Base : ℤ)≤x) :
    x=M.vmem1Base+pageOf M x*M.pageSize+(x.toNat%M.pageSize : ℕ) := by
  obtain ⟨b,hbase,hcast,_⟩ := region_pages M
  have hp := M.pageSize_pos
  have hb : M.vmem1Base=b*M.pageSize := by exact_mod_cast hcast
  have hle : b≤x.toNat/M.pageSize := by
    rw [Nat.le_div_iff_mul_le hp,←hb]
    omega
  have hnat : x.toNat=M.vmem1Base+pageOf M x*M.pageSize+x.toNat%M.pageSize := by
    have hdiv := Nat.div_add_mod x.toNat M.pageSize
    have hmul : M.pageSize*(x.toNat/M.pageSize)=M.vmem1Base+pageOf M x*M.pageSize := by
      unfold pageOf
      rw [hbase,hb,←Nat.add_mul,Nat.add_sub_cancel' hle,Nat.mul_comm]
    omega
  have hcast : (x.toNat : ℤ)=x := by omega
  rw [←hcast]
  exact_mod_cast hnat

/-- The addresses of a range of pages in the region. -/
theorem range_within {count : ℤ} (h0 : 0≤page) (hc : 0≤ count) (hend : page+count≤M.maxPtLen)
    (hx : M.vmem1Base+page*M.pageSize≤x) (hl : x<M.vmem1Base+(page+count)*M.pageSize) :
    Within M (Segment page count) x := by
  obtain ⟨b,hbase,hcast,hlimit⟩ := region_pages M
  have hp : (0 : ℤ)<M.pageSize := by exact_mod_cast M.pageSize_pos
  rw [hcast,←Int.add_mul] at hx hl
  have hge : (b : ℤ)+page≤x/M.pageSize := (Int.le_ediv_iff_mul_le hp).2 hx
  have hlt : x/M.pageSize<b+(page+count) := Int.ediv_lt_of_lt_mul hp hl
  have hlow : (M.vmem1Base : ℤ)≤x := by
    rw [hcast]
    exact Int.le_trans (Int.mul_le_mul_of_nonneg_right (by omega) hp.le) hx
  have hhigh : x<M.vmem1Limit := by
    rw [hlimit]
    exact Int.lt_of_lt_of_le hl (Int.mul_le_mul_of_nonneg_right (by omega) hp.le)
  have hpage : (pageOf M x : ℤ)=x/M.pageSize-b := by
    have hcastx : (x.toNat : ℤ)=x := by omega
    have hnat : ((x.toNat/M.pageSize : ℕ) : ℤ)=x/M.pageSize := by
      rw [Int.natCast_ediv,hcastx]
    unfold pageOf
    rw [hbase]
    omega
  exact ⟨hlow,hhigh,by omega,by omega⟩

/-- The addresses of a range in pages S are in such pages. -/
theorem range_addresses {k : ℕ} (h : RangeIn M S a n) (hk : k<n) : Within M S (a+k) := by
  rcases h with rfl|⟨h0,h1,h⟩
  · omega
  · have hp := M.pageSize_pos
    have hlow : (M.vmem1Base : ℤ)≤a+k := by omega
    have hhigh : a+k<M.vmem1Limit := by omega
    have haddr := address_eq hlow
    have hoff : (a+k).toNat%M.pageSize<M.pageSize := Nat.mod_lt _ hp
    have hstart : ((M.vmem1Base+pageOf M (a+k)*M.pageSize : ℕ) : ℤ)=
        M.vmem1Base+pageOf M (a+k)*M.pageSize := by
      push_cast
      rfl
    have hend : ((M.vmem1Base+(pageOf M (a+k)+1)*M.pageSize : ℕ) : ℤ)=
        M.vmem1Base+pageOf M (a+k)*M.pageSize+M.pageSize := by
      rw [Nat.succ_mul]
      push_cast
      omega
    have hpage : pageOf M (a+k)<M.maxPtLen := by
      by_contra hn
      have hmul := Nat.mul_le_mul_right M.pageSize (Nat.not_lt.1 hn)
      have hlimit : M.vmem1Limit=M.vmem1Base+M.maxPtLen*M.pageSize := rfl
      omega
    exact ⟨hlow,hhigh,h _ hpage (by omega) (by omega)⟩

/-- A store to a page with a frame of its own changes one byte. -/
theorem storeByte_view (ho : OwnPages S pt) (ha : Within M S a) (hx : Within M S x) (b : UInt8) :
    userByte M pt (storeByte M pt contents a b) x=if x=a then b else userByte M pt contents x := by
  have hin : ¬(a<M.vmem1Base ∨ (M.vmem1Limit : ℤ)≤a) := by
    have h1 := ha.base
    have h2 := ha.limit
    omega
  unfold storeByte userByte
  rw [if_neg hin]
  change Function.update contents (pt (pageOf M a)).pfn _ (pt (pageOf M x)).pfn _=_
  by_cases hpage : pageOf M x=pageOf M a
  · rw [hpage,Function.update_self]
    by_cases hoff : x.toNat%M.pageSize=a.toNat%M.pageSize
    · have heq : x=a := by
        rw [address_eq hx.base,address_eq ha.base,hpage,hoff]
      rw [hoff,Function.update_self,if_pos heq]
    · rw [Function.update_of_ne hoff]
      exact (if_neg (fun he => hoff (by rw [he]))).symm
  · have hframe : (pt (pageOf M x)).pfn≠(pt (pageOf M a)).pfn :=
      fun he => hpage (ho _ _ hx.page ha.page he)
    rw [Function.update_of_ne hframe]
    exact (if_neg (fun he => hpage (by rw [he]))).symm

/-- So does a store of a buffer to such pages. -/
theorem storeBytes_view (ho : OwnPages S pt) {src : ℕ → UInt8} (ha : ∀ i<n,Within M S (a+i))
    (hx : Within M S x) :
    userByte M pt (storeBytes M pt src a n contents) x=
      overwrite (userByte M pt contents) a n src x := by
  induction n with
  | zero => exact (overwrite_out (by omega)).symm
  | succ n ih =>
    unfold storeBytes
    rw [storeByte_view ho (ha n (Nat.lt_succ_self n)) hx,
      ih (fun i hi => ha i (Nat.lt_succ_of_lt hi))]
    by_cases hn : x=a+n
    · have hlast : (x-a).toNat=n := by omega
      rw [if_pos hn,overwrite_in (by omega) (by omega),hlast]
    · rw [if_neg hn]
      by_cases hr : a≤x ∧ x<a+n
      · rw [overwrite_in hr.1 hr.2,overwrite_in hr.1 (by omega)]
      · rw [overwrite_out hr,overwrite_out (by omega)]

/-- Protecting text keeps the bytes. -/
theorem userByte_protect (i : ℕ) (page : ℤ) :
    userByte M (protectText i page pt) contents x=userByte M pt contents x := by
  unfold userByte
  rw [(protectText_valid (pageOf M x)).2]

end Views

section Frames

/-- The pages S have frames of their own that are in use. -/
structure Held (S : ℕ → Prop) (m : Memory) (pt : PageTable) : Prop where
  /-- Their frames are in use. -/
  used : ∀ i,S i → m.frameAllocated (pt i).pfn=true
  /-- No two of them share one. -/
  own : OwnPages S pt

/-- The pages may be given in another way. -/
theorem Held.mono (h : Held S m pt) (hs : ∀ i,S' i → S i) : Held S' m pt :=
  ⟨fun i hi => h.used i (hs i hi),fun i j hi hj => h.own i j (hs i hi) (hs j hj)⟩

/-- One more page is mapped, be it mapped before or not. -/
theorem Held.map (h : Held S m pt) (ha : frameAlloc m=some (f,m'))
    (hm : memoryMapPage M pt page f prot=some pt') :
    Held (fun i => S i ∨ (i : ℤ)=page) m' pt' := by
  obtain ⟨hfree,_,rfl⟩ := frameAlloc_eq ha
  obtain ⟨h0,_,rfl⟩ := mapPage_eq hm
  have hnew : ∀ i : ℕ,(i : ℤ)=page → (Function.update pt page.toNat ⟨true,prot,f⟩ i).pfn=f := by
    intro i hi
    rw [update_page h0,if_pos hi]
  have hold : ∀ i : ℕ,(i : ℤ)≠page →
      Function.update pt page.toNat ⟨true,prot,f⟩ i=pt i := by
    intro i hi
    rw [update_page h0,if_neg hi]
  have hother : ∀ i,S i → (pt i).pfn≠f := by
    intro i hi he
    have hu := h.used i hi
    rw [he,hfree] at hu
    cases hu
  refine ⟨fun i hi => ?_,fun i j hi hj he => ?_⟩
  · by_cases hip : (i : ℤ)=page
    · rw [hnew i hip]
      exact Function.update_self ..
    · have hs := hi.resolve_right hip
      rw [hold i hip]
      dsimp only
      rw [Function.update_of_ne (hother i hs)]
      exact h.used i hs
  · by_cases hip : (i : ℤ)=page
    · by_cases hjp : (j : ℤ)=page
      · omega
      · rw [hnew i hip,hold j hjp] at he
        exact absurd he.symm (hother j (hj.resolve_right hjp))
    · by_cases hjp : (j : ℤ)=page
      · rw [hold i hip,hnew j hjp] at he
        exact absurd he (hother i (hi.resolve_right hip))
      · rw [hold i hip,hold j hjp] at he
        exact h.own i j (hi.resolve_right hip) (hj.resolve_right hjp) he

/-- A range is mapped. Its pages are in the region. -/
theorem mapRangeFrom_held (hh : Held S m pt) (h : mapRangeFrom M prot n page m pt=(m',pt',true)) :
    Held (fun i => S i ∨ Segment page n i) m' pt' ∧
      (0<n → 0≤page ∧ page+n≤M.maxPtLen) := by
  induction n generalizing page m pt S with
  | zero =>
    unfold mapRangeFrom at h
    injection h with hm h
    injection h with hp _
    rw [←hm,←hp]
    refine ⟨hh.mono (fun i hi => hi.elim id (fun hs => ?_)),fun h0 => absurd h0 (by decide)⟩
    unfold Segment at hs
    omega
  | succ n ih =>
    unfold mapRangeFrom at h
    split at h
    · injection h with _ h
      injection h with _ h
      cases h
    · rename_i f m₁ ha
      split at h
      · injection h with _ h
        injection h with _ h
        cases h
      · rename_i pt₁ hm
        obtain ⟨h0,h1,_⟩ := mapPage_eq hm
        obtain ⟨hrest,hin⟩ := ih (hh.map ha hm) h
        refine ⟨hrest.mono (fun i hi => ?_),fun _ => ⟨h0,?_⟩⟩
        · rcases hi with hs|hs
          · exact .inl (.inl hs)
          · by_cases hip : (i : ℤ)=page
            · exact .inl (.inr hip)
            · unfold Segment at hs ⊢
              exact .inr (by omega)
        · rcases Nat.eq_zero_or_pos n with hz|hz
          · rw [hz]
            omega
          · have hend := (hin hz).2
            omega

/-- An image is mapped: its pages have frames of their own and its stack is in
the region. -/
theorem mapImage_held {li : LoadInfo} {args : List (List UInt8)}
    (h : mapImage M li args m pt=(m',pt',true)) :
    Held (fun i => TextPage M li i ∨ DataPage M li i ∨ StackPage M args i) m' pt' ∧
      (0<stackNpg M args → 0≤ stackBasePg M args) := by
  unfold mapImage mapRange at h
  split at h
  · injection h with _ h
    injection h with _ h
    cases h
  · rename_i m₁ pt₁ ht
    split at h
    · injection h with _ h
      injection h with _ h
      cases h
    · rename_i m₂ pt₂ hd
      have hnone : Held (fun _ => False) m pt := ⟨fun _ hi => hi.elim,fun _ _ hi => hi.elim⟩
      obtain ⟨ht,_⟩ := mapRangeFrom_held hnone ht
      obtain ⟨hd,_⟩ := mapRangeFrom_held ht hd
      obtain ⟨hs,hin⟩ := mapRangeFrom_held hd h
      refine ⟨hs.mono (fun i hi => ?_),fun h0 => (hin (by omega)).1⟩
      dsimp only [TextPage,DataPage,StackPage,Segment] at hi ⊢
      omega

end Frames

section Images

variable {env : Env} {li : LoadInfo} {args : List (List UInt8)} {v v' : UserSpace} {pc : ℕ} {sp : ℤ}

/-- The frames behind the reads of the segments and the zeroing of the data. -/
def segmentContents (M : Machine) (li : LoadInfo) (pt : PageTable) (text data : ℕ → UInt8)
    (contents : ℕ → ℕ → UInt8) : ℕ → ℕ → UInt8 :=
  storeBytes M pt (fun _ => 0) li.idEnd (li.udEnd-li.idEnd)
    (storeBytes M pt data li.idVaddr (segmentSize M li.idNpg).toNat
      (storeBytes M pt text li.tVaddr (segmentSize M li.tNpg).toNat contents))

/-- An image that was loaded: how it was mapped, what was read into its pages
and where its zeroed data and its arguments stand. -/
structure ImageLoaded (M : Machine) (env : Env) (args : List (List UInt8)) (m : Memory)
    (v : UserSpace) (li : LoadInfo) (text data : ℕ → UInt8) (m₁ : Memory) (pt₁ : PageTable)
    (m' : Memory) (v' : UserSpace) : Prop extends Loading M env args m v li m₁ pt₁ true where
  /-- The text was read from the file. -/
  textRead : env.fileRead li.tFaddr (segmentSize M li.tNpg).toNat=some text
  /-- It was read into pages of the image. -/
  textRange : RangeIn M (ImagePage M li args) li.tVaddr (segmentSize M li.tNpg).toNat
  /-- The data was read from the file. -/
  dataRead : env.fileRead li.idFaddr (segmentSize M li.idNpg).toNat=some data
  /-- It was read into pages of the image. -/
  dataRange : RangeIn M (ImagePage M li args) li.idVaddr (segmentSize M li.idNpg).toNat
  /-- The zeroed data and the arguments stand in pages that could be stored to. -/
  fill : FillFits M li args
  /-- The memory behind all stores. -/
  memory : m'={m₁ with
    contents := storeStack M pt₁ args (segmentContents M li pt₁ text data m₁.contents)}
  /-- The address space of the new program. -/
  space : v'={v with
    region1Pt := protectText li.tNpg.toNat (textPg M li) pt₁
    userHeapStart := imageBrk M li
    userBrk := imageBrk M li
    userStackLowPage := stackBasePg M args}

/-- A program that was loaded, with its bytes. -/
theorem loadProgram_loaded (h : loadProgram M env args n m v=.success m' v' pc sp) :
    ∃ li text data m₁ pt₁,ImageLoaded M env args m v li text data m₁ pt₁ m' v' ∧
      pc=li.entry ∧ sp=stackPtr M args := by
  obtain ⟨li,m₁,pt₁,ok,hload,heq⟩ := loadProgram_past (by rw [h]; simp)
  rw [h] at heq
  cases ok with
  | false => cases heq
  | true =>
    obtain ⟨text,data,⟨c,c',htext,hdata,hm⟩,hfill,hv,hpc,hsp⟩ := fillImage_success heq.symm
    have hinv : ∀ i<M.maxPtLen,((memoryFreePageTableFrames M m v.region1Pt).2 i).valid=false :=
      fun i hi => freed_invalid hi
    have hS := mapped_pages hload.image hinv
    refine ⟨li,text,data,m₁,pt₁,⟨hload,htext.file,(canStore_iff hS).1 htext.writable,hdata.file,
      (canStore_iff hS).1 hdata.writable,(canFill_iff hload.accepted hload.image hinv).1 hfill,
      ?_,hv⟩,hpc,hsp⟩
    rw [hm,hdata.stored,htext.stored]
    rfl

/-- The bytes of a loaded image below its arguments: text, over it data, over
it zeroes. -/
theorem segmentContents_view {text data : ℕ → UInt8}
    (h : ImageLoaded M env args m v li text data m₁ pt m' v')
    (ho : OwnPages (ImagePage M li args) pt) (hx : Within M (ImagePage M li args) x) :
    userByte M pt (segmentContents M li pt text data contents) x=
      overwrite (overwrite (overwrite (userByte M pt contents) li.tVaddr
        (segmentSize M li.tNpg).toNat text) li.idVaddr (segmentSize M li.idNpg).toNat data)
        li.idEnd (li.udEnd-li.idEnd) (fun _ => 0) x := by
  have htext : ∀ y,Within M (ImagePage M li args) y → userByte M pt (storeBytes M pt text
      li.tVaddr (segmentSize M li.tNpg).toNat contents) y=overwrite (userByte M pt contents)
        li.tVaddr (segmentSize M li.tNpg).toNat text y :=
    fun y hy => storeBytes_view ho (fun k hk => range_addresses h.textRange hk) hy
  have hdata : ∀ y,Within M (ImagePage M li args) y → userByte M pt (storeBytes M pt data
      li.idVaddr (segmentSize M li.idNpg).toNat (storeBytes M pt text li.tVaddr
        (segmentSize M li.tNpg).toNat contents)) y=overwrite (overwrite (userByte M pt contents)
        li.tVaddr (segmentSize M li.tNpg).toNat text) li.idVaddr
        (segmentSize M li.idNpg).toNat data y := by
    intro y hy
    rw [storeBytes_view ho (fun k hk => range_addresses h.dataRange hk) hy]
    unfold overwrite at htext ⊢
    split
    · rfl
    · exact htext y hy
  unfold segmentContents
  rw [storeBytes_view ho (fun k hk => (range_addresses h.fill.zeroed hk).mono
    (fun i hi => .inr hi.2)) hx]
  unfold overwrite at hdata ⊢
  split
  · rfl
  · exact hdata x hx

end Images

end Yalnix.UserBytes
