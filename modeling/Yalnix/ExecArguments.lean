import Yalnix.UserBytes

/-!
# The arguments of a new program

LoadProgram computes where the strings, the pointers and the count of a new
program begin before it maps the stack, and stores them later through moving
pointers. The program reads from its stack the arguments that its caller named,
for every number of strings and every length of each.
-/

namespace Yalnix.ExecArguments

open Framework FrameTable KernelState ProgramLoading Traces KernelStart AddressSpaces LoadedImages
open ByteMemory UserBytes

variable {M : Machine} {pt : PageTable} {S : ℕ → Prop} {contents : ℕ → ℕ → UInt8}
  {args : List (List UInt8)} {w a x cpp cp lo top : ℤ} {n i : ℕ}

section Stores

/-- The bytes of a word are those of its number. -/
theorem wordBytes_littleEndian (h0 : 0≤w) (hw : w<256^4) (hi : i<4) :
    wordBytes w i=(littleEndian 4 w.toNat).getD i 0 := by
  have hnat : (BitVec.ofInt 32 w).toNat=w.toNat := by
    rw [BitVec.toNat_ofInt]
    exact congrArg Int.toNat (Int.emod_eq_of_lt h0 hw)
  unfold wordBytes
  rw [hnat]
  match i,hi with
  | 0,_ => exact congrArg (fun k => UInt8.ofNat (k%256)) (Nat.div_one _)
  | 1,_ => rfl
  | 2,_ => exact congrArg (fun k => UInt8.ofNat (k%256)) (Nat.div_div_eq_div_mul _ 256 256).symm
  | 3,_ =>
    refine congrArg (fun k => UInt8.ofNat (k%256)) ?_
    change w.toNat/16777216=w.toNat/256/256/256
    omega

/-- What a store of a word leaves. -/
theorem storeWord_view (contents : ℕ → ℕ → UInt8) (a : ℤ) (ho : OwnPages S pt) (h0 : 0≤w)
    (hw : w<256^4) (ha : ∀ x,a≤x → x<a+4 → Within M S x) :
    Holds (userByte M pt (storeBytes M pt (wordBytes w) a 4 contents)) a
        (littleEndian 4 w.toNat) ∧
      ∀ x,Within M S x → ¬(a≤x ∧ x<a+4) →
        userByte M pt (storeBytes M pt (wordBytes w) a 4 contents) x=userByte M pt contents x := by
  have hview : ∀ x,Within M S x →
      userByte M pt (storeBytes M pt (wordBytes w) a 4 contents) x=
        overwrite (userByte M pt contents) a 4 (wordBytes w) x :=
    fun x hx => storeBytes_view ho (fun i hi => ha _ (by omega) (by omega)) hx
  refine ⟨holds_of (fun i hi => ?_),fun x hx hn => ?_⟩
  · rw [littleEndian_length] at hi
    have hoff : (a+(i : ℤ)-a).toNat=i := by omega
    rw [hview _ (ha _ (by omega) (by omega)),overwrite_in (by omega) (by omega),hoff]
    exact wordBytes_littleEndian h0 hw hi
  · rw [hview x hx]
    exact overwrite_out hn

/-- What a store of a string and its zero leaves. -/
theorem storeString_view (contents : ℕ → ℕ → UInt8) (a : ℤ) (ho : OwnPages S pt) (s : List UInt8)
    (ha : ∀ x,a≤x → x<a+(s.length+1) → Within M S x) :
    Holds (userByte M pt (storeBytes M pt (fun i => (s++[0]).getD i 0) a (s.length+1) contents)) a
        (s++[0]) ∧
      ∀ x,Within M S x → ¬(a≤x ∧ x<a+(s.length+1)) →
        userByte M pt (storeBytes M pt (fun i => (s++[0]).getD i 0) a (s.length+1) contents) x=
          userByte M pt contents x := by
  have hlen : (s++[0]).length=s.length+1 := by
    rw [List.length_append,List.length_singleton]
  have hview : ∀ x,Within M S x →
      userByte M pt (storeBytes M pt (fun i => (s++[0]).getD i 0) a (s.length+1) contents) x=
        overwrite (userByte M pt contents) a (s.length+1) (fun i => (s++[0]).getD i 0) x :=
    fun x hx => storeBytes_view ho (fun i hi => ha _ (by omega) (by omega)) hx
  have hstored := holds_overwrite (userByte M pt contents) a (s++[0])
  rw [hlen] at hstored
  refine ⟨hstored.congr (fun x h₁ h₂ => hview x (ha x h₁ (by omega))),fun x hx hn => ?_⟩
  rw [hview x hx]
  exact overwrite_out (by omega)

/-- The pointers from cpp on, two null words and the strings from cp on have
been stored, and nothing else. -/
structure ArgsStored (A : ℤ → Prop) (args : List (List UInt8)) (cpp cp : ℤ) (v v' : ℤ → UInt8) :
    Prop where
  /-- The vector holds the addresses of the strings and two null words. -/
  words : Holds v' cpp (pointers (starts args cp)++(littleEndian 4 0++littleEndian 4 0))
  /-- The strings stand one behind the other, each with its null byte. -/
  strings : Holds v' cp (strings args)
  /-- The bytes outside the vector and the strings are kept. -/
  frame : ∀ x,A x → ¬(cpp≤x ∧ x<cpp+4*(args.length+2)) →
    ¬(cp≤x ∧ x<cp+(ByteMemory.strings args).length) →
    v' x=v x

/-- The loop that stores the arguments. -/
theorem storeArgs_stored (args : List (List UInt8)) (cpp cp : ℤ) (contents : ℕ → ℕ → UInt8)
    (ho : OwnPages S pt) (hin : ∀ x,lo≤x → x<top → Within M S x)
    (hlo : lo≤ cpp) (hgap : cpp+4*(args.length+2)≤ cp) (htop : cp+(strings args).length≤top)
    (h0 : 0≤ cp) (hm : top≤256^4) :
    ArgsStored (Within M S) args cpp cp (userByte M pt contents)
      (userByte M pt (storeArgs M pt args cpp cp contents)) := by
  induction args generalizing cpp cp contents with
  | nil =>
    rw [List.length_nil] at hgap
    have hempty : (strings []).length=0 := rfl
    rw [hempty] at htop
    obtain ⟨hw₁,hf₁⟩ := storeWord_view contents cpp ho (Int.le_refl 0) (by decide)
      (fun x h₁ h₂ => hin x (by omega) (by omega))
    obtain ⟨hw₂,hf₂⟩ := storeWord_view (storeBytes M pt (wordBytes 0) cpp 4 contents) (cpp+4) ho
      (Int.le_refl 0) (by decide) (fun x h₁ h₂ => hin x (by omega) (by omega))
    unfold storeArgs
    refine ⟨holds_append.2 ⟨trivial,holds_append.2 ⟨?_,?_⟩⟩,trivial,fun x hx h₁ _ => ?_⟩
    · have hstart : cpp+((pointers (starts [] cp)).length : ℕ)=cpp := Int.add_zero cpp
      rw [hstart]
      refine hw₁.congr (fun x h₁ h₂ => ?_)
      rw [littleEndian_length] at h₂
      exact hf₂ x (hin x (by omega) (by omega)) (by omega)
    · have hstart : cpp+((pointers (starts [] cp)).length : ℕ)+((littleEndian 4 0).length : ℕ)=
          cpp+4 := by
        rw [littleEndian_length]
        exact congrArg (·+4) (Int.add_zero cpp)
      rw [hstart]
      exact hw₂
    · rw [List.length_nil] at h₁
      rw [hf₂ x hx (by omega),hf₁ x hx (by omega)]
  | cons s rest ih =>
    have hlen : ((strings (s::rest)).length : ℤ)=s.length+1+(strings rest).length := by
      rw [strings_cons,List.length_append,List.length_append,List.length_singleton]
      omega
    rw [hlen] at htop
    rw [List.length_cons] at hgap
    obtain ⟨hword,hf₁⟩ := storeWord_view contents cpp ho h0 (by omega)
      (fun x h₁ h₂ => hin x (by omega) (by omega))
    obtain ⟨hstr,hf₂⟩ := storeString_view (storeBytes M pt (wordBytes cp) cpp 4 contents) cp ho s
      (fun x h₁ h₂ => hin x (by omega) (by omega))
    have hrest := ih (cpp+4) (cp+(s.length+1))
      (storeBytes M pt (fun i => (s++[0]).getD i 0) cp (s.length+1)
        (storeBytes M pt (wordBytes cp) cpp 4 contents))
      (by omega) (by omega) (by omega) (by omega)
    unfold storeArgs
    refine ⟨?_,?_,fun x hx h₁ h₂ => ?_⟩
    · change Holds _ cpp (littleEndian 4 cp.toNat++pointers (starts rest (cp+(s.length+1)))++_)
      rw [List.append_assoc]
      refine holds_append.2 ⟨hword.congr (fun x h₁ h₂ => ?_),?_⟩
      · rw [littleEndian_length] at h₂
        have hx := hin x (by omega) (by omega)
        rw [hrest.frame x hx (by omega) (by omega),hf₂ x hx (by omega)]
      · rw [littleEndian_length]
        exact hrest.words
    · rw [strings_cons]
      refine holds_append.2 ⟨hstr.congr (fun x h₁ h₂ => ?_),?_⟩
      · rw [List.length_append,List.length_singleton] at h₂
        exact hrest.frame x (hin x (by omega) (by omega)) (by omega) (by omega)
      · have hstart : cp+((s++[0]).length : ℕ)=cp+(s.length+1) := by
          rw [List.length_append,List.length_singleton]
          omega
        rw [hstart]
        exact hrest.strings
    · rw [hlen] at h₂
      rw [List.length_cons] at h₁
      rw [hrest.frame x hx (by omega) (by omega),hf₂ x hx (by omega),hf₁ x hx (by omega)]

end Stores

section Layout

/-- The size of the strings counts their bytes. -/
theorem argSize_eq (args : List (List UInt8)) : argSize args=(strings args).length := by
  induction args with
  | nil => rfl
  | cons s rest ih =>
    unfold argSize at ih ⊢
    rw [List.map_cons,List.sum_cons,ih,strings_cons,List.length_append,List.length_append,
      List.length_singleton]

/-- Count, pointers and null words end where the strings begin, and these end
with the region. -/
theorem block_layout (M : Machine) (args : List (List UInt8)) :
    argBlock M args%8=0 ∧ argBlock M args+4+4*(args.length+2)≤argStrings M args ∧
      argStrings M args+(strings args).length=M.vmem1Limit ∧
      stackPtr M args+M.initialStackFrameSize=argBlock M args := by
  have hs : argStrings M args=M.vmem1Limit-argSize args := rfl
  rw [argSize_eq] at hs
  refine ⟨?_,?_,by omega,by unfold stackPtr; omega⟩
  · unfold argBlock
    omega
  · unfold argBlock
    omega

/-- The first page of the stack is that of the stack pointer. -/
theorem stackBasePg_eq (M : Machine) (args : List (List UInt8)) :
    stackBasePg M args=stackPtr M args/M.pageSize-(M.vmem1Base/M.pageSize : ℕ) := by
  obtain ⟨b,hbase,_,hlimit⟩ := region_pages M
  have hp : (M.pageSize : ℤ)≠0 := by exact_mod_cast M.pageSize_pos.ne'
  unfold stackBasePg stackNpg
  rw [hlimit,hbase,←Int.sub_mul,Int.mul_ediv_cancel _ hp]
  omega

/-- Addresses from the stack pointer on are in the pages of a stack that lies in
the region. -/
theorem stack_within (h0 : 0≤ stackBasePg M args) (hx : stackPtr M args≤x)
    (hl : x<M.vmem1Limit) : Within M (StackPage M args) x := by
  obtain ⟨b,hbase,hcast,hlimit⟩ := region_pages M
  have hfloor := Int.ediv_mul_le (stackPtr M args) (Int.natCast_ne_zero.2 M.pageSize_pos.ne')
  have hfirst : (b : ℤ)+stackBasePg M args=stackPtr M args/M.pageSize := by
    rw [stackBasePg_eq,hbase]
    omega
  have hend : stackBasePg M args+stackNpg M args=M.maxPtLen := by
    unfold stackBasePg
    omega
  refine range_within h0 (stackNpg_nonneg M args) (by omega) ?_ ?_
  · rw [hcast,←Int.add_mul,hfirst]
    exact Int.le_trans hfloor hx
  · rw [hcast,←Int.add_mul,hend,←hlimit]
    exact hl

/-- A new stack is not empty. -/
theorem stackNpg_pos (M : Machine) (args : List (List UInt8)) : 0< stackNpg M args := by
  obtain ⟨b,hbase,_,hlimit⟩ := region_pages M
  have hp : (0 : ℤ)<M.pageSize := by exact_mod_cast M.pageSize_pos
  obtain ⟨_,hgap,hend,hptr⟩ := block_layout M args
  have hfirst := stackBasePg_eq M args
  rw [hbase] at hfirst
  have hbelow : stackPtr M args/M.pageSize<b+M.maxPtLen :=
    Int.ediv_lt_of_lt_mul hp (by rw [←hlimit]; omega)
  have hlast : stackBasePg M args=M.maxPtLen-stackNpg M args := rfl
  omega

end Layout

section Images

variable {env : Env} {m m' m₁ : Memory} {v v' : UserSpace} {li : LoadInfo} {text data : ℕ → UInt8}
  {pt₁ : PageTable} {s t : Kernel} {u u' : UserContext} {filename argvec : ℕ}

/-- A program that starts with this stack pointer reads the arguments args. -/
structure ArgsSurvive (M : Machine) (args : List (List UInt8)) (pt : PageTable)
    (contents : ℕ → ℕ → UInt8) (sp : ℤ) : Prop where
  /-- The argument count is aligned. -/
  aligned : (sp+M.initialStackFrameSize)%8=0
  /-- The word behind the initial frame is the number of arguments. -/
  count : readWord (userByte M pt contents) 4 (sp+M.initialStackFrameSize)=args.length
  /-- Reading the block gives the arguments. -/
  decoded : readArgs (userByte M pt contents) M.vmem1Limit (sp+M.initialStackFrameSize)=args
  /-- Behind the pointers stand two null words. -/
  nulls : readWord (userByte M pt contents) 4
      (sp+M.initialStackFrameSize+4+4*args.length)=0 ∧
    readWord (userByte M pt contents) 4 (sp+M.initialStackFrameSize+4+4*args.length+4)=0
  /-- Strings are behind the null words and in the region. -/
  inside : ∀ i<args.length,sp+M.initialStackFrameSize+4+4*(args.length+2)≤
      readWord (userByte M pt contents) 4 (sp+M.initialStackFrameSize+4+4*i) ∧
    readWord (userByte M pt contents) 4 (sp+M.initialStackFrameSize+4+4*i)+
      ((args.getD i []).length+1)≤M.vmem1Limit
  /-- Each string ends where the next one begins, the last one with the region. -/
  ends : ∀ i<args.length,readWord (userByte M pt contents) 4 (sp+M.initialStackFrameSize+4+4*i)+
      ((args.getD i []).length+1)=
    if i+1<args.length then
      readWord (userByte M pt contents) 4 (sp+M.initialStackFrameSize+4+4*(i+1 : ℕ))
    else M.vmem1Limit
  /-- All of it, and the frame below, is in pages of the stack that are mapped. -/
  mapped : ∀ x,sp≤x → x<M.vmem1Limit →
    Within M (StackPage M args) x ∧ (pt (pageOf M x)).valid=true

/-- The bytes of a new stack, and bytes elsewhere. -/
theorem storeStack_stored (args : List (List UInt8)) (contents : ℕ → ℕ → UInt8)
    (ho : OwnPages S pt)
    (hin : ∀ x,stackPtr M args≤x → x<M.vmem1Limit → Within M S x) (hm : M.vmem1Limit≤2^32) :
    Holds (userByte M pt (storeStack M pt args contents)) (argBlock M args)
        (littleEndian 4 args.length++(pointers (starts args (argStrings M args))++
          (littleEndian 4 0++littleEndian 4 0))) ∧
      Holds (userByte M pt (storeStack M pt args contents)) (argStrings M args) (strings args) ∧
      ∀ x,Within M S x → x<argBlock M args →
        userByte M pt (storeStack M pt args contents) x=userByte M pt contents x := by
  obtain ⟨_,hgap,hend,hptr⟩ := block_layout M args
  have hbase := (hin (stackPtr M args) (Int.le_refl _) (by omega)).base
  obtain ⟨hcount,hframe⟩ := storeWord_view (w := args.length)
    (storeBytes M pt (fun _ => 0) (argBlock M args)
      ((M.vmem1Limit : ℤ)-argBlock M args).toNat contents) (argBlock M args) ho (by omega)
      (by omega)
    (fun x h₁ h₂ => hin x (by omega) (by omega))
  have hargs := storeArgs_stored args (argBlock M args+4) (argStrings M args)
    (storeBytes M pt (wordBytes args.length) (argBlock M args) 4
      (storeBytes M pt (fun _ => 0) (argBlock M args)
        ((M.vmem1Limit : ℤ)-argBlock M args).toNat contents))
    ho hin (by omega) (by omega) (by omega) (by omega) (by omega)
  refine ⟨holds_append.2 ⟨hcount.congr (fun x h₁ h₂ => ?_),?_⟩,hargs.strings,fun x hx hb => ?_⟩
  · rw [littleEndian_length] at h₂
    exact hargs.frame x (hin x (by omega) (by omega)) (by omega) (by omega)
  · rw [littleEndian_length]
    exact hargs.words
  · have hzero : userByte M pt (storeBytes M pt (fun _ => 0) (argBlock M args)
        ((M.vmem1Limit : ℤ)-argBlock M args).toNat contents) x=_ :=
      storeBytes_view ho (fun i hi => hin _ (by omega) (by omega)) hx
    rw [overwrite_out (by omega)] at hzero
    unfold storeStack
    rw [hargs.frame x hx (by omega) (by omega),hframe x hx (by omega),hzero]

/-- The arguments of a loaded program can be read by it. -/
theorem loaded_args (h : ImageLoaded M env args m v li text data m₁ pt₁ m' v')
    (hz : ∀ a∈args,0∉a) (hm : M.vmem1Limit≤2^32) :
    0≤ stackPtr M args ∧ ArgsSurvive M args v'.region1Pt m'.contents (stackPtr M args) := by
  obtain ⟨hheld,hstack⟩ := mapImage_held h.image
  have h0 := hstack (stackNpg_pos M args)
  have hown : OwnPages (StackPage M args) pt₁ :=
    (hheld.mono (fun i hi => .inr (.inr hi))).own
  obtain ⟨halign,hgap,hend,hptr⟩ := block_layout M args
  have hin : ∀ x,stackPtr M args≤x → x<M.vmem1Limit → Within M (StackPage M args) x :=
    fun x h₁ h₂ => stack_within h0 h₁ h₂
  have hbase := (hin (stackPtr M args) (Int.le_refl _) (by omega)).base
  obtain ⟨hwords,hstrings,_⟩ := storeStack_stored args
    (segmentContents M li pt₁ text data m₁.contents) hown hin hm
  have hview : userByte M v'.region1Pt m'.contents=userByte M pt₁
      (storeStack M pt₁ args (segmentContents M li pt₁ text data m₁.contents)) := by
    rw [h.memory,h.space]
    exact funext fun x => userByte_protect _ _
  obtain ⟨hcount,hrest⟩ := holds_append.1 hwords
  obtain ⟨hpointers,hnulls⟩ := holds_append.1 hrest
  obtain ⟨hnull₁,hnull₂⟩ := holds_append.1 hnulls
  rw [littleEndian_length] at hpointers hnull₁ hnull₂
  rw [pointers_length,starts_length] at hnull₁ hnull₂
  rw [littleEndian_length] at hnull₂
  have hstart : ∀ i<args.length,
      (readWord (userByte M v'.region1Pt m'.contents) 4 (argBlock M args+4+4*i) : ℤ)=
        argStrings M args+(strings (args.take i)).length := by
    intro i hi
    have hs := starts_getD (argStrings M args) hi
    have htake := strings_take_succ hi
    have hle := strings_take_le args (i+1)
    rw [hview,←hs]
    exact readWord_pointers hpointers (by rw [starts_length]; exact hi) (by omega) (by omega)
  refine ⟨by omega,⟨by omega,?_,?_,⟨?_,?_⟩,fun i hi => ?_,fun i hi => ?_,
    fun x h₁ h₂ => ⟨hin x h₁ h₂,?_⟩⟩⟩
  · rw [hptr,hview]
    exact readWord_of_holds hcount (by omega)
  · rw [hptr,hview]
    exact readArgs_of_holds (holds_append.2 ⟨hcount,by rw [littleEndian_length]; exact hpointers⟩)
      hstrings hz (by omega) (by omega) (by omega) (by omega)
  · rw [hptr,hview]
    exact readWord_of_holds hnull₁ (by decide)
  · rw [hptr,hview]
    exact readWord_of_holds hnull₂ (by decide)
  · have htake := strings_take_succ hi
    have hle := strings_take_le args (i+1)
    have hword := hstart i hi
    rw [hptr]
    omega
  · have htake := strings_take_succ hi
    have hword := hstart i hi
    rw [hptr]
    split
    · rename_i hnext
      have hword' := hstart (i+1) hnext
      omega
    · have hall : args.take (i+1)=args := List.take_of_length_le (by omega)
      rw [hall] at htake
      omega
  · rw [h.space]
    rw [(protectText_valid _).1]
    exact (mapImage_mapped h.image (.inr (.inr (hin x h₁ h₂).page))).1

end Images

section Calls

variable {env : Env} {s t : Kernel} {u u' : UserContext} {filename argvec : ℕ} {blocks : List ℕ}

/-- The arguments that a caller of Exec names; without a vector the name is the
only one. -/
def namedArgs (env : Env) (filename argvec : ℕ) : List (List UInt8) :=
  if argvec=0 then [env.cString filename] else (env.ptrArray argvec).map env.cString

/-- What has been copied are the named arguments, fewer than 64, in a block for
the name, one for the array and one for each argument. -/
theorem copyExecArgs_copied (h : copyExecArgs env filename argvec=.copied args blocks) :
    args=namedArgs env filename argvec ∧ args.length<64 ∧
      blocks=[0,1]++(List.range args.length).map (2+·) := by
  unfold copyExecArgs at h
  unfold namedArgs
  split at h
  · cases h
  · split at h
    · cases h
    · split at h
      · rename_i h0
        split at h
        · cases h
        · split at h
          · cases h
          · injection h with ha hb
            rw [if_pos h0,←ha,←hb]
            exact ⟨rfl,(by decide : 1<64),rfl⟩
      · rename_i h0
        split at h
        · cases h
        · rename_i hlen
          split at h
          · cases h
          · split at h
            · cases h
            · injection h with ha hb
              rw [if_neg h0,←ha,←hb,List.length_map]
              exact ⟨rfl,by omega,rfl⟩

/-- The name and the arguments can be copied: there is a name, fewer than 64
arguments are named, and no allocation fails. -/
def CopiesMade (env : Env) (filename argvec : ℕ) : Prop :=
  filename≠0 ∧ (argvec=0 ∨ (env.ptrArray argvec).length<64) ∧
    ∀ i<2+(namedArgs env filename argvec).length,env.malloc i=true

/-- The copy succeeds exactly in this case. -/
theorem copyExecArgs_iff : (∃ args blocks,copyExecArgs env filename argvec=.copied args blocks) ↔
    CopiesMade env filename argvec := by
  unfold copyExecArgs CopiesMade namedArgs
  by_cases hname : filename=0
  · rw [if_pos hname]
    exact ⟨fun ⟨_,_,h⟩ => (by cases h),fun h => absurd hname h.1⟩
  rw [if_neg hname]
  by_cases h0 : env.malloc 0=false
  · rw [if_pos h0]
    refine ⟨fun ⟨_,_,h⟩ => (by cases h),fun h => ?_⟩
    have hm := h.2.2 0 (by omega)
    rw [h0] at hm
    cases hm
  rw [if_neg h0]
  by_cases hvec : argvec=0
  · rw [if_pos hvec,if_pos hvec,List.length_singleton]
    by_cases h1 : env.malloc 1=false
    · rw [if_pos h1]
      refine ⟨fun ⟨_,_,h⟩ => (by cases h),fun h => ?_⟩
      have hm := h.2.2 1 (by omega)
      rw [h1] at hm
      cases hm
    · rw [if_neg h1]
      by_cases h2 : env.malloc 2=false
      · rw [if_pos h2]
        refine ⟨fun ⟨_,_,h⟩ => (by cases h),fun h => ?_⟩
        have hm := h.2.2 2 (by omega)
        rw [h2] at hm
        cases hm
      · rw [if_neg h2]
        refine ⟨fun _ => ⟨hname,.inl hvec,fun i hi => ?_⟩,fun _ => ⟨_,_,rfl⟩⟩
        have hcases : i=0 ∨ i=1 ∨ i=2 := by omega
        rcases hcases with rfl|rfl|rfl
        · exact Bool.of_not_eq_false h0
        · exact Bool.of_not_eq_false h1
        · exact Bool.of_not_eq_false h2
  · rw [if_neg hvec,if_neg hvec,List.length_map]
    by_cases hlen : 64≤(env.ptrArray argvec).length
    · rw [if_pos hlen]
      exact ⟨fun ⟨_,_,h⟩ => (by cases h),fun h => h.2.1.elim (fun hx => absurd hx hvec)
        (fun hx => absurd hx (Nat.not_lt.2 hlen))⟩
    rw [if_neg hlen]
    by_cases h1 : env.malloc 1=false
    · rw [if_pos h1]
      refine ⟨fun ⟨_,_,h⟩ => (by cases h),fun h => ?_⟩
      have hm := h.2.2 1 (by omega)
      rw [h1] at hm
      cases hm
    rw [if_neg h1]
    split
    · rename_i j hj
      refine ⟨fun ⟨_,_,h⟩ => (by cases h),fun h => ?_⟩
      have hlt := List.mem_range.1 (List.mem_of_find?_eq_some hj)
      have hfails := List.find?_some hj
      rw [h.2.2 (2+j) (by omega)] at hfails
      cases hfails
    · rename_i hnone
      refine ⟨fun _ => ⟨hname,.inr (Nat.not_le.1 hlen),fun i hi => ?_⟩,fun _ => ⟨_,_,rfl⟩⟩
      rcases Nat.lt_or_ge i 2 with hi2|hi2
      · have hcases : i=0 ∨ i=1 := by omega
        rcases hcases with rfl|rfl
        · exact Bool.of_not_eq_false h0
        · exact Bool.of_not_eq_false h1
      · have hmem : i-2∈List.range (env.ptrArray argvec).length :=
          List.mem_range.2 (by omega)
        have hall := List.find?_eq_none.1 hnone _ hmem
        have he : 2+(i-2)=i := by omega
        rw [he] at hall
        simpa using hall

/-- Exec that succeeds has loaded a program with the copied arguments. -/
theorem sysExec_success (h : sysExec M env filename argvec u s=.returns t u' SUCCESS) :
    ∃ args blocks pc sp,copyExecArgs env filename argvec=.copied args blocks ∧
      loadProgram M env args (2+args.length) s.memory (s.space s.currentProcess)=
        .success t.memory (t.space s.currentProcess) pc sp ∧
      t.userContext s.currentProcess=
        {s.userContext s.currentProcess with pc := pc, sp := sp.toNat} := by
  unfold sysExec at h
  split at h
  · injection h with _ _ h
    cases h
  · unfold execImage at h
    split at h
    · injection h with _ _ h
      cases h
    · rename_i args blocks hcopy
      split at h
      · injection h with _ _ h
        cases h
      · cases h
      · cases h
      · rename_i m v pc sp hload
        injection h with h _ _
        refine ⟨args,blocks,pc,sp,hcopy,?_,?_⟩
        · rw [←h]
          change _=LoadResult.success m (Function.update s.space s.currentProcess v
            s.currentProcess) pc sp
          rw [Function.update_self]
          exact hload
        · rw [←h]
          exact Function.update_self ..

/-- A program that Exec has started reads from its stack the arguments that the
caller named, in order, whatever their number and lengths. The user's C strings
hold no zero byte, and addresses fit in a word. -/
theorem exec_args (hz : ∀ a,0∉env.cString a) (hm : M.vmem1Limit≤2^32)
    (h : sysExec M env filename argvec u s=.returns t u' SUCCESS) :
    (namedArgs env filename argvec).length<64 ∧
      ArgsSurvive M (namedArgs env filename argvec) (t.space s.currentProcess).region1Pt
        t.memory.contents (t.userContext s.currentProcess).sp := by
  obtain ⟨args,blocks,pc,sp,hcopy,hload,hcontext⟩ := sysExec_success h
  obtain ⟨hargs,hlen,_⟩ := copyExecArgs_copied hcopy
  obtain ⟨li,text,data,m₁,pt₁,hloaded,_,hsp⟩ := loadProgram_loaded hload
  have hnozero : ∀ a∈args,0∉a := by
    rw [hargs]
    unfold namedArgs
    intro a ha
    split at ha
    · rw [List.mem_singleton.1 ha]
      exact hz _
    · obtain ⟨b,_,rfl⟩ := List.mem_map.1 ha
      exact hz b
  obtain ⟨h0,hsurvive⟩ := loaded_args hloaded hnozero hm
  have hstack : (((t.userContext s.currentProcess).sp : ℕ) : ℤ)=stackPtr M args := by
    rw [hcontext,hsp]
    exact Int.toNat_of_nonneg h0
  rw [←hargs,hstack]
  exact ⟨hlen,hsurvive⟩

/-- A flow that returns success. -/
def succeeds : Flow → Bool
  | .returns _ _ rc => rc=SUCCESS
  | .leaves _ => false

/-- A flow that succeeds has returned SUCCESS in some state. -/
theorem of_succeeds {f : Flow} (h : succeeds f=true) : ∃ t u,f=.returns t u SUCCESS := by
  cases f with
  | leaves t => cases h
  | returns t u rc =>
    have hrc : rc=SUCCESS := of_decide_eq_true h
    exact ⟨t,u,by rw [hrc]⟩

/-- Answers of a caller that names a program and the strings "a", "" and "bc". -/
def argsEnv : Env :=
  {sampleEnv 0 0 with
    cString := fun a => if a=0x105020 then [97] else if a=0x105024 then [98,99] else []
    ptrArray := fun _ => [0x105020,0x105022,0x105024]}

/-- The initial process replaces itself and the new program reads the strings. -/
theorem exec_args_sample : ∃ t u,
    sysExec sampleMachine argsEnv 0x105000 0x105010
        (sampleContext .kernel 2 0x105000 0x105010 0)
      (kernelStart sampleMachine sampleBoot)=.returns t u SUCCESS ∧
    readArgs (userByte sampleMachine (t.space 2).region1Pt t.memory.contents)
      sampleMachine.vmem1Limit ((t.userContext 2).sp+sampleMachine.initialStackFrameSize)=
        [[97],[],[98,99]] := by
  have hz : ∀ a,0∉argsEnv.cString a := by
    intro a
    change 0∉(if a=0x105020 then _ else if a=0x105024 then _ else _ : List UInt8)
    split
    · decide
    · split
      · decide
      · decide
  obtain ⟨t,u,h⟩ := of_succeeds (f := sysExec sampleMachine argsEnv 0x105000 0x105010
    (sampleContext .kernel 2 0x105000 0x105010 0) (kernelStart sampleMachine sampleBoot))
    (by decide +kernel)
  have hall := (exec_args hz (by decide) h).2.decoded
  exact ⟨t,u,h,hall⟩

end Calls

end Yalnix.ExecArguments
