import Yalnix.TranslationCoherence

/-!
# Kernel runs and their accesses

Every state of every run of the kernel is reached by a run of accesses whose
page tables, kernel stacks and current process are those of the kernel state.
Each operation of the kernel is a sequence of the actions on page tables, and
each return to user mode is one of them.
-/

namespace Yalnix.TranslationRuns

open Framework FrameTable KernelState Scheduling Ipc Terminals ProcessLifetime ProgramLoading
open Syscalls Traps KernelStart Coherence Operations OperationCoherence CallOperations
open RunInvariants Traces AddressSpaces FramePartition KernelBreak ScratchPage
open Translation TranslationCoherence

variable {M : Machine} {T T' : Tables} {h : Mmu} {m m' : Memory} {pt src : PageTable} {pfn : ℕ}
  {pfns : ℕ → ℕ} {s t : Kernel} {allow : Label → Prop}

/-- The tables show a kernel state. -/
structure Matches (region0 : PageTable) (current : PcbPtr) (live : PcbPtr → Bool)
    (space : PcbPtr → UserSpace) (T : Tables) : Prop where
  /-- The table of Region 0 is that of the kernel. -/
  region0 : T.region0=region0
  /-- The current process is that of the kernel. -/
  current : T.current=current
  /-- The tables of processes. -/
  region1 : ∀ p,live p=true → T.region1 p=(space p).region1Pt
  /-- The kernel stacks of the processes are those of the kernel. -/
  stack : ∀ p,live p=true → T.stackPfns p=(space p).kernelStackPfns

/-- The tables show the kernel state s. -/
abbrev Shown (s : Kernel) (T : Tables) : Prop :=
  Matches s.memory.kernelRegion0Pt s.currentProcess s.live s.space T

/-- A run of accesses from h ends with these tables. -/
def Reaches (M : Machine) (h : Mmu) (T : Tables) : Prop :=
  ∃ l,MmuRun M h l ∧ (h.run M l).toTables=T

/-- A run of accesses shows the kernel state s. -/
def Traced (M : Machine) (s : Kernel) : Prop := ∃ h T,Reaches M h T ∧ Shown s T

section Actions

variable (hM : KernelLayout M) (hs : M.kernelStackPages≤2)

include hM hs

/-- An allowed action prolongs the run of accesses. -/
theorem Reaches.step (hr : Reaches M h T) {a : Action} (ha : a.Allowed T)
    (hd : Does M (a.accesses M T) T T') : Reaches M h T' := by
  obtain ⟨l,hl,rfl⟩ := hr
  obtain ⟨_,_,ht⟩ := hd _ (run_good hM hs hl).2 rfl
  refine ⟨_,hl.step a ha,?_⟩
  rw [Mmu.run,List.foldl_append]
  exact ht

variable {region0 : PageTable} {cur c : PcbPtr} {live : PcbPtr → Bool}
  {space : PcbPtr → UserSpace} {v : UserSpace} {env : Env} {q : Prop}

omit hM hs in
/-- The table of the current process changes. -/
theorem Matches.respace (hm : Matches region0 cur live space T)
    (hk : v.kernelStackPfns=(space cur).kernelStackPfns) :
    Matches region0 cur live (Function.update space cur v)
    (T.set v.region1Pt (.user T.current)) := by
  refine ⟨hm.region0,hm.current,fun p hp => ?_,fun p hp => ?_⟩
  · dsimp only [Tables.set]
    rw [hm.current]
    by_cases hpc : p=cur
    · rw [hpc,Function.update_self,Function.update_self]
    · rw [Function.update_of_ne hpc,Function.update_of_ne hpc]
      exact hm.region1 p hp
  · dsimp only [Tables.set]
    by_cases hpc : p=cur
    · rw [hpc,Function.update_self,hk]
      rw [hpc] at hp
      exact hm.stack cur hp
    · rw [Function.update_of_ne hpc]
      exact hm.stack p hp

omit hM hs in
/-- The space of the current process with the table that is in use. -/
theorem Matches.space_eq (hm : Matches region0 cur live space T) (hl : live cur=true) :
    ({space cur with region1Pt := T.region1 T.current} : UserSpace)=space cur := by
  rw [hm.current,hm.region1 cur hl]

/-- A moved break is an action of the run. -/
theorem reaches_brk (hr : Reaches M h T) (hm : Matches region0 cur live space T)
    (hl : live cur=true) (m : Memory) (addr : ℕ) :
    Reaches M h (T.set (moveBrk M m (space cur) addr).2.1.region1Pt (.user T.current)) := by
  have hd := Does.moveBrk (M := M) (T := T) (p := T.current) (m := m)
    (v := {space cur with region1Pt := T.region1 T.current}) rfl addr
  have hr' := hr.step hM hs (a := .brk m (space cur) addr) trivial hd
  rw [hm.space_eq hl] at hr'
  exact hr'

/-- A grown stack is an action of the run. -/
theorem reaches_growStack (hr : Reaches M h T) (hm : Matches region0 cur live space T)
    (hl : live cur=true) (m : Memory) (addr : ℕ) :
    Reaches M h (T.set (growStack M m (space cur) addr).2.1.region1Pt (.user T.current)) := by
  have hd := Does.growStack (M := M) (T := T) (p := T.current) (m := m)
    (v := {space cur with region1Pt := T.region1 T.current}) rfl addr
  have hr' := hr.step hM hs (a := .growStack m (space cur) addr) trivial hd
  rw [hm.space_eq hl] at hr'
  exact hr'

/-- A loaded program is an action of the run. -/
theorem reaches_load (hr : Reaches M h T) (hm : Matches region0 cur live space T)
    (hl : live cur=true) (env : Env) (args : List (List UInt8)) (argbuf : ℕ) (m : Memory) :
    Reaches M h (T.set (loadedTable (space cur).region1Pt
      (loadProgram M env args argbuf m (space cur))) (.user T.current)) := by
  have hp : T.get (.user T.current)=(space cur).region1Pt := by
    rw [hm.current]
    exact hm.region1 cur hl
  have hd := Does.loadProgram (M := M) env args argbuf m hp
  rw [←hp] at hd
  have hr' := hr.step hM hs (a := .loadProgram env args argbuf m) trivial hd
  rw [hp] at hr'
  exact hr'

/-- A change of the current address space. -/
theorem reaches_spaceStep (hr : Reaches M h T) (hm : Matches region0 cur live space T)
    (hl : live cur=true) (hst : SpaceStep M env q m (space cur) m' v) :
    ∃ T',Reaches M h T' ∧ Matches region0 cur live (Function.update space cur v) T' := by
  have hk := spaceStep_stack hst
  cases hst with
  | brk addr => exact ⟨_,reaches_brk hM hs hr hm hl m addr,hm.respace hk⟩
  | grow addr hg => exact ⟨_,reaches_growStack hM hs hr hm hl m addr,hm.respace hk⟩
  | exec hi hload =>
    rename_i args n pc sp
    have hr' := reaches_load hM hs hr hm hl env args n m
    rw [hload] at hr'
    exact ⟨_,hr',hm.respace hk⟩

/-- The end of the current address space. -/
theorem reaches_spaceEnd (hr : Reaches M h T) (hm : Matches region0 cur live space T)
    (hl : live cur=true) (hst : SpaceEnd M env q m (space cur) m' v) :
    ∃ T',Reaches M h T' ∧ Matches region0 cur live (Function.update space cur v) T' := by
  have hk := spaceEnd_stack hst
  cases hst with
  | kept =>
    refine ⟨T,hr,?_⟩
    rw [Function.update_eq_self]
    exact hm
  | grow addr hg => exact ⟨_,reaches_growStack hM hs hr hm hl m addr,hm.respace hk⟩
  | exec hi hload =>
    rename_i args n
    have hr' := reaches_load hM hs hr hm hl env args n m
    rw [hload] at hr'
    exact ⟨_,hr',hm.respace hk⟩
  | fault hi hload =>
    rename_i args n
    have hr' := reaches_load hM hs hr hm hl env args n m
    rw [hload] at hr'
    exact ⟨_,hr',hm.respace hk⟩

/-- A process other than the current one gets an empty table and a kernel stack. -/
theorem reaches_create (hr : Reaches M h T) (hm : Matches region0 cur live space T)
    (hc : c≠cur) (hv : v.region1Pt=fun _ => zeroPte) : ∃ T',Reaches M h T' ∧
      Matches region0 cur (Function.update live c true) (Function.update space c v) T' := by
  have hcT : c≠T.current := by
    rw [hm.current]
    exact hc
  have hr' := hr.step hM hs (a := .create c v.kernelStackPfns) hcT (.create hcT v.kernelStackPfns)
  refine ⟨_,hr',⟨hm.region0,hm.current,fun p hp => ?_,fun p hp => ?_⟩⟩
  · dsimp only [Access.tables]
    by_cases hpc : p=c
    · rw [hpc,Function.update_self,Function.update_self,hv]
    · rw [Function.update_of_ne hpc] at hp
      rw [Function.update_of_ne hpc,Function.update_of_ne hpc]
      exact hm.region1 p hp
  · dsimp only [Access.tables]
    by_cases hpc : p=c
    · rw [hpc,Function.update_self,Function.update_self]
    · rw [Function.update_of_ne hpc] at hp
      rw [Function.update_of_ne hpc,Function.update_of_ne hpc]
      exact hm.stack p hp

/-- A child gets a table, a kernel stack and a copy of the current pages. -/
theorem reaches_child (hr : Reaches M h T) (hm : Matches m.kernelRegion0Pt cur live space T)
    (hl : live cur=true) (hc : c≠cur) (pfns : ℕ → ℕ) (brk start : ℕ) (low : ℤ) :
    ∃ T' pt,Reaches M h T' ∧
      Matches (processCopyRegion1 M m (space cur).region1Pt).1.kernelRegion0Pt cur
        (Function.update live c true) (Function.update space c ⟨pt,pfns,brk,start,low⟩) T' ∧
      ∀ pt₁,(processCopyRegion1 M m (space cur).region1Pt).2=some pt₁ → pt=pt₁ := by
  obtain ⟨T₁,hr₁,hm₁⟩ := reaches_create hM hs hr hm hc
    (v := ⟨fun _ => zeroPte,pfns,brk,start,low⟩) rfl
  have hself : Function.update live c true c=true := Function.update_self ..
  have hzero : T₁.region1 c=fun _ => zeroPte := by
    rw [hm₁.region1 c hself,Function.update_self]
  have hstack : T₁.stackPfns c=pfns := by
    rw [hm₁.stack c hself,Function.update_self]
  have hother : ∀ {p},p≠c → Function.update live c true p=true →
      T₁.region1 p=(space p).region1Pt ∧ T₁.stackPfns p=(space p).kernelStackPfns := by
    intro p hp hlp
    rw [hm₁.region1 p hlp,hm₁.stack p hlp,Function.update_of_ne hp]
    exact ⟨rfl,rfl⟩
  have hsrc : T₁.region1 T₁.current=(space cur).region1Pt := by
    rw [hm₁.current]
    refine (hother hc.symm ?_).1
    rw [Function.update_of_ne hc.symm]
    exact hl
  obtain ⟨pt,hd,hpt⟩ := Does.copyPages (T := T₁) (m := m) (c := c)
    (k := List.range M.maxPtLen) hM hm₁.region0 hzero
  have hacc : Action.accesses M T₁ (.copyRegion1 c m)=
      copyPagesAccesses M c (space cur).region1Pt (List.range M.maxPtLen) m (fun _ => zeroPte) := by
    unfold Action.accesses
    dsimp only
    rw [hsrc,hzero,hm₁.region0]
  rw [←hacc] at hd
  have hr₂ := hr₁.step hM hs (a := .copyRegion1 c m) trivial hd
  refine ⟨_,pt,hr₂,⟨rfl,hm₁.current,fun p hp => ?_,fun p hp => ?_⟩,hpt⟩
  · dsimp only [Tables.set]
    by_cases hpc : p=c
    · rw [hpc,Function.update_self,Function.update_self]
    · rw [Function.update_of_ne hpc,Function.update_of_ne hpc]
      exact (hother hpc hp).1
  · dsimp only [Tables.set]
    by_cases hpc : p=c
    · rw [hpc,Function.update_self,hstack]
    · rw [Function.update_of_ne hpc]
      exact (hother hpc hp).2

/-- A process other than the current one is destroyed. -/
theorem reaches_destroy (hr : Reaches M h T) (hm : Matches region0 cur live space T)
    (hc : c≠cur) : ∃ T',Reaches M h T' ∧
      Matches region0 cur (Function.update live c false) space T' := by
  have hcT : c≠T.current := by
    rw [hm.current]
    exact hc
  have hfree := Does.freeTable (M := M) (T := T) (p := c)
    (m := ⟨fun _ => false,0,T.region0,fun _ _ => 0⟩) rfl
  have hr' := hr.step hM hs (a := .destroy c) hcT
    (hfree.append (Does.setStack (T := T.set _ (.user c)) hcT (fun _ => 0)))
  have hother : ∀ {p},Function.update live c false p=true → p≠c ∧ live p=true := by
    intro p hp
    by_cases hpc : p=c
    · rw [hpc,Function.update_self] at hp
      cases hp
    · rw [Function.update_of_ne hpc] at hp
      exact ⟨hpc,hp⟩
  refine ⟨_,hr',⟨hm.region0,hm.current,fun p hp => ?_,fun p hp => ?_⟩⟩
  · obtain ⟨hpc,hl⟩ := hother hp
    dsimp only [Access.tables,Tables.set]
    rw [Function.update_of_ne hpc]
    exact hm.region1 p hl
  · obtain ⟨hpc,hl⟩ := hother hp
    dsimp only [Access.tables,Tables.set]
    rw [Function.update_of_ne hpc]
    exact hm.stack p hl

/-- A switch to another process is an action of the run. -/
theorem reaches_switch {next : PcbPtr} (hr : Reaches M h T) (hm : Matches region0 cur live space T)
    (hl : live next=true) : ∃ T',Reaches M h T' ∧
      Matches (installKernelStack M (space next).kernelStackPfns (List.range M.kernelStackPages)
        region0) next live space T' := by
  have hr' := hr.step hM hs (a := .switch next) trivial (.switch next)
  refine ⟨_,hr',⟨?_,rfl,hm.region1,hm.stack⟩⟩
  dsimp only [switched]
  rw [hm.stack next hl,hm.region0]

/-- A kernel stack is copied. -/
theorem reaches_copyStack (hr : Reaches M h T) (hm : Matches m.kernelRegion0Pt cur live space T)
    (c : PcbPtr) : ∃ T',Reaches M h T' ∧
      Matches (copyKernelStack M (T.stackPfns c) (List.range M.kernelStackPages)
        m).kernelRegion0Pt cur live space T' ∧ T'.region1=T.region1 ∧ T'.stackPfns=T.stackPfns := by
  have hr' := hr.step hM hs (a := .copyStack c) trivial (.copyStack (m := m) hM hm.region0)
  exact ⟨_,hr',⟨rfl,hm.current,hm.region1,hm.stack⟩,rfl,rfl⟩

end Actions

section Operations

variable (hM : KernelLayout M) (hs : M.kernelStackPages≤2)

/-- A child that could not be created: Region 0 is untouched or was used for a
copy. -/
theorem createChild_region0 (env : Env) (p : PcbPtr)
    (h : (processCreateChild M env p s).2=none) :
    (processCreateChild M env p s).1.memory.kernelRegion0Pt=s.memory.kernelRegion0Pt ∨
      ∃ c m₁ pfns,callocPcb env s=some c ∧ Kept s.memory m₁ ∧
        processAllocKernelStack M s.memory=(m₁,some pfns) ∧
        (processCreateChild M env p s).1.memory.kernelRegion0Pt=
          (processCopyRegion1 M m₁ (s.space p).region1Pt).1.kernelRegion0Pt := by
  have hk : Kept s.memory (processAllocKernelStack M s.memory).1 := kept_allocStack
  unfold processCreateChild createChildRun at h ⊢
  cases hcp : callocPcb env s with
  | none => exact .inl rfl
  | some c =>
    rw [hcp] at h
    dsimp only at h ⊢
    cases hks : processAllocKernelStack M s.memory with
    | mk m₁ o =>
      rw [hks] at h hk
      cases o with
      | none => exact .inl hk.region0
      | some pfns =>
        dsimp only at h ⊢
        by_cases hn : env.newPid=ERROR
        · rw [if_pos hn]
          exact .inl (hk.trans kept_freeStack).region0
        · rw [if_neg hn] at h ⊢
          refine .inr ⟨c,m₁,pfns,rfl,hk,rfl,?_⟩
          cases hcr : processCopyRegion1 M m₁ (s.space p).region1Pt with
          | mk m₂ o₂ =>
            rw [hcr] at h
            cases o₂ with
            | none => exact kept_freeStack.region0
            | some pt => cases h

/-- Blocks that are not in use do not matter. -/
theorem Matches.dead {region0 : PageTable} {cur : PcbPtr} {live live' : PcbPtr → Bool}
    {space space' : PcbPtr → UserSpace} (hm : Matches region0 cur live space T)
    (hl : ∀ p,live' p=true → live p=true ∧ space' p=space p) :
    Matches region0 cur live' space' T := by
  refine ⟨hm.region0,hm.current,fun p hp => ?_,fun p hp => ?_⟩
  · rw [(hl p hp).2]
    exact hm.region1 p (hl p hp).1
  · rw [(hl p hp).2]
    exact hm.stack p (hl p hp).1

include hM hs

/-- A forked child is shown. -/
theorem traced_child {c : PcbPtr} {m₁ : Memory} (hc : Coherent M s) (hl : s.live c=false)
    (hr : Reaches M h T) (hm : Shown s T)
    (hk : processAllocKernelStack M s.memory=(m₁,some pfns))
    (hp : processCopyRegion1 M m₁ (s.space s.currentProcess).region1Pt=(m,some pt))
    (brk start : ℕ) (low : ℤ) :
    ∃ T',Reaches M h T' ∧ Matches m.kernelRegion0Pt s.currentProcess
      (Function.update s.live c true) (Function.update s.space c ⟨pt,pfns,brk,start,low⟩) T' := by
  have hkept : Kept s.memory (processAllocKernelStack M s.memory).1 := kept_allocStack
  rw [hk] at hkept
  have hm₁ : Matches m₁.kernelRegion0Pt s.currentProcess s.live s.space T := by
    rw [hkept.region0]
    exact hm
  obtain ⟨T',pt',hr',hm',hsome⟩ := reaches_child hM hs hr hm₁ hc.ready.current_live
    (dead_ne_current hc hl) pfns brk start low
  rw [hp] at hm' hsome
  rw [hsome pt rfl] at hm'
  exact ⟨T',hr',hm'⟩

/-- Every operation is a sequence of actions. -/
theorem op_traced {b : Bool} (hc : Coherent M s) (ht : Traced M s) (hop : Op M allow b s t) :
    Traced M t := by
  obtain ⟨h,T,hr,hm⟩ := ht
  have hl := hc.ready.current_live
  cases hop with
  | toUser u ha => exact ⟨h,T,hr.step hM hs (a := .resume) trivial .use,hm⟩
  | stop cpu env m v ha hu hk hz hv ho =>
    obtain ⟨T',hr',hm'⟩ := reaches_spaceEnd hM hs hr hm hl hv
    rw [←(kept_spaceEnd hv).region0] at hm'
    exact ⟨h,T',hr',hm'⟩
  | dispatch env hsw =>
    have hlive : s.live (nextProcess s)=true := by
      rcases nextProcess_cases hc with ⟨_,hn⟩|⟨rest,hq⟩
      · rw [hn]
        exact hc.ready.idle_live
      · exact (hc.ready.mem _ (by rw [hq]; exact List.mem_cons_self)).1
    unfold dispatchNext processSwitch
    by_cases hn : nextProcess s=0 ∨ nextProcess s=s.currentProcess
    · rw [if_pos hn]
      exact ⟨h,T,hr,hm⟩
    · rw [if_neg hn,if_pos hsw]
      obtain ⟨T',hr',hm'⟩ := reaches_switch hM hs hr hm hlive
      exact ⟨h,T',hr',hm'⟩
  | forkFails env m ha hf =>
    have hn : (processCreateChild M env s.currentProcess s).2=none := by rw [hf]
    rcases createChild_region0 env s.currentProcess hn with h0|⟨c,m₁,pfns,hcp,hk,_,h0⟩
    · rw [hf] at h0
      dsimp only at h0
      refine ⟨h,T,hr,?_⟩
      dsimp only [Shown]
      rw [h0]
      exact hm
    · rw [hf] at h0
      dsimp only at h0
      obtain ⟨_,hcl⟩ := callocPcb_fresh hcp
      have hm₁ : Matches m₁.kernelRegion0Pt s.currentProcess s.live s.space T := by
        rw [hk.region0]
        exact hm
      obtain ⟨T',_,hr',hm',_⟩ :=
        reaches_child hM hs hr hm₁ hl (dead_ne_current hc hcl) pfns 0 0 0
      refine ⟨h,T',hr',?_⟩
      dsimp only [Shown]
      rw [h0]
      refine hm'.dead (fun p hp => ?_)
      have hpc : p≠c := by
        rintro rfl
        rw [hcl] at hp
        cases hp
      rw [Function.update_of_ne hpc,Function.update_of_ne hpc]
      exact ⟨hp,rfl⟩
  | forkUndone env c pfns pt m₁ m u ha hcp hk hp =>
    obtain ⟨h0,hcl⟩ := callocPcb_fresh hcp
    obtain ⟨T₁,hr₁,hm₁⟩ := traced_child hM hs hc hcl hr hm hk hp
      (s.space s.currentProcess).userBrk (s.space s.currentProcess).userHeapStart
      (s.space s.currentProcess).userStackLowPage
    obtain ⟨T₂,hr₂,hm₂⟩ := reaches_destroy hM hs hr₁ hm₁ (dead_ne_current hc hcl)
    rw [destroyed_child hc h0 hcl]
    refine ⟨h,T₂,hr₂,?_⟩
    have hkept := kept_release (M := M) (p := c) (m := m)
      (s := (enterChild M s.currentProcess c env.newPid pfns pt m s).setUserContext c u) rfl
    rw [←hkept.region0] at hm₂
    exact hm₂
  | spawn env caller c pfns pt m₁ m u hb hcp hk hn hp =>
    obtain ⟨h0,hcl⟩ := callocPcb_fresh hcp
    obtain ⟨T₁,hr₁,hm₁⟩ := traced_child hM hs hc hcl hr hm hk hp
      (s.space s.currentProcess).userBrk (s.space s.currentProcess).userHeapStart
      (s.space s.currentProcess).userStackLowPage
    obtain ⟨T₂,hr₂,hm₂,_⟩ := reaches_copyStack hM hs hr₁ hm₁ c
    rw [spawn_eq]
    refine ⟨h,T₂,hr₂,?_⟩
    have hst := hm₁.stack c (Function.update_self ..)
    rw [hst,Function.update_self] at hm₂
    have hfns : (Function.update s.space c ⟨pt,pfns,(s.space s.currentProcess).userBrk,
        (s.space s.currentProcess).userHeapStart,
        (s.space s.currentProcess).userStackLowPage⟩ c).kernelStackPfns=pfns := by
      rw [Function.update_self]
    dsimp only [Shown,kcCopy,enterChild]
    rw [hfns]
    exact hm₂
  | respace env m v hst ha ho =>
    obtain ⟨T',hr',hm'⟩ := reaches_spaceStep hM hs hr hm hl hst
    rw [←(kept_spaceStep hst).region0] at hm'
    exact ⟨h,T',hr',hm'⟩
  | zombie status k env m v hk hb hch hlk hp hv ho hn =>
    obtain ⟨T',hr',hm'⟩ := reaches_spaceEnd hM hs hr hm hl hv
    rw [←(kept_spaceEnd hv).region0] at hm'
    exact ⟨h,T',hr',hm'⟩
  | zombieWake status k env m v hk hb hch hlk hp hw hv ho hn =>
    obtain ⟨T',hr',hm'⟩ := reaches_spaceEnd hM hs hr hm hl hv
    rw [←(kept_spaceEnd hv).region0] at hm'
    exact ⟨h,T',hr',hm'⟩
  | collect statusPtr c ha hch hz =>
    have hne : c≠s.currentProcess := by
      rintro rfl
      exact ha.toRunnable.not_zombie hz
    obtain ⟨T',hr',hm'⟩ := reaches_destroy hM hs hr hm hne
    rw [collectChild_eq hc ha statusPtr hch hz]
    refine ⟨h,T',hr',?_⟩
    have hkept := kept_release (M := M) (p := c) (m := s.memory) (s := s) rfl
    rw [←hkept.region0] at hm'
    exact hm'
  | _ => exact ⟨h,T,hr,hm⟩

omit hM hs in
/-- The state in which virtual memory is enabled. -/
theorem booted_idle {b : Boot M} {r : BootRequests} {p : PcbPtr} {brk : KernelBrk}
    (hboot : bootToVm M b.frames b.contents r=some ⟨m,brk,pfn⟩) :
    ∃ h T,Reaches M h T ∧ Shown (idleKernel M b p pfn m) T := by
  have honly : ∀ x,(idleKernel M b p pfn m).live x=true → x=p := by
    intro x hx
    by_contra hne
    dsimp only [idleKernel,enterIdle,emptyKernel] at hx
    rw [Function.update_of_ne hne] at hx
    cases hx
  refine ⟨_,_,⟨_,.boot p (fun _ _ => False) hboot,rfl⟩,rfl,rfl,fun x hx => ?_,fun x hx => ?_⟩
  · rw [honly x hx]
    dsimp only [Mmu.run,List.foldl,Mmu.apply,Access.tables,bootTables,idleKernel,enterIdle]
    rw [Function.update_self,Function.update_self]
    rfl
  · rw [honly x hx]
    dsimp only [Mmu.run,List.foldl,Mmu.apply,Access.tables,bootTables,idleKernel,enterIdle]
    rw [Function.update_self,Function.update_self]

/-- A booted kernel is traced: the initial process is created, gets a copy of
the boot stack, is switched to and loads its program. -/
theorem booted_traced {b : Boot M} {r : BootRequests} {p q : PcbPtr} {m₁ m₂ : Memory}
    {v : UserSpace} {u : UserContext} (hfr : b.frames≤M.maxFrames)
    (htable : b.brkAfterTable=heapTop M (r.start++r.table))
    (hbuild : b.brkAtBuild=heapTop M (r.start++r.table++r.build))
    (hf : BootFacts M b p q pfn pfns m₁ m₂ m v) :
    Traced M (bootedKernel M b p q pfn pfns m₁ m₂ m v u) := by
  obtain ⟨h,T₀,hr₀,hm₀⟩ := booted_idle (p := p) (bootToVm_memory hfr htable hbuild hf.stack)
  have hstack : Kept m₁ (processAllocKernelStack M m₁).1 := kept_allocStack
  rw [hf.kernelStack] at hstack
  obtain ⟨T₁,hr₁,hm₁⟩ := reaches_create hM hs hr₀ hm₀ hf.ne
    (v := {zeroSpace with kernelStackPfns := pfns, userStackLowPage := M.maxPtLen}) rfl
  have hst : T₁.stackPfns q=pfns := by
    rw [hm₁.stack q (Function.update_self ..),Function.update_self]
  have hm₁' : Matches m₂.kernelRegion0Pt p
      (Function.update (idleKernel M b p pfn m₁).live q true)
      (Function.update (idleKernel M b p pfn m₁).space q {zeroSpace with
        kernelStackPfns := pfns, userStackLowPage := M.maxPtLen}) T₁ := by
    rw [hstack.region0]
    exact hm₁
  obtain ⟨T₂,hr₂,hm₂,_⟩ := reaches_copyStack hM hs hr₁ hm₁' q
  rw [hst] at hm₂
  obtain ⟨T₃,hr₃,hm₃⟩ := reaches_switch hM hs hr₂ hm₂
    (Function.update_self q true (idleKernel M b p pfn m₁).live)
  have hshown : Shown (switchedKernel M b p q pfn pfns m₁ m₂) T₃ := by
    refine ⟨hm₃.region0.trans ?_,hm₃.current,hm₃.region1,hm₃.stack⟩
    dsimp only [switchedKernel,kcSwitch,Kernel.setKernelContext,initKernel,kcCopy,enterInit]
    rw [Function.update_self]
  obtain ⟨pc,sp,hprog⟩ := hf.program
  have hlq : (switchedKernel M b p q pfn pfns m₁ m₂).live q=true := Function.update_self ..
  have hr₄ := reaches_load hM hs hr₃ hshown hlq b.initEnv b.args 2
    (switchedKernel M b p q pfn pfns m₁ m₂).memory
  have hcur : (switchedKernel M b p q pfn pfns m₁ m₂).currentProcess=q := rfl
  rw [hcur,hprog] at hr₄
  obtain ⟨li,m₃,pt₃,c,hload,rfl,rfl⟩ := loadProgram_success hprog
  have hm₄ := hshown.respace (v := {(switchedKernel M b p q pfn pfns m₁ m₂).space q with
    region1Pt := protectText li.tNpg.toNat (textPg M li) pt₃
    userHeapStart := imageBrk M li
    userBrk := imageBrk M li
    userStackLowPage := stackBasePg M b.args}) rfl
  rw [←(kept_load hload).region0] at hm₄
  exact ⟨h,_,hr₄,hm₄⟩

/-- Every state of every run of the kernel is that of a run of accesses. -/
theorem run_traced {b : Boot M} {r : BootRequests} (hfr : b.frames≤M.maxFrames)
    (htable : b.brkAfterTable=heapTop M (r.start++r.table))
    (hbuild : b.brkAtBuild=heapTop M (r.start++r.table++r.build))
    (hr : Run M (fun b' => b'=b) SwitchSucceeds s) : Traced M s := by
  refine (run_invariant (P := Traced M) (fun s env input hok => ⟨hok,fun _ _ => trivial⟩)
    (fun b' p q pfn pfns m₁ m₂ m v u hb hf => ?_) (fun c s t hc hp hop => ?_) hr
   ).2
  · subst hb
    exact booted_traced hM hs hfr htable hbuild hf
  · exact op_traced hM hs hc hp hop

end Operations

end Yalnix.TranslationRuns
