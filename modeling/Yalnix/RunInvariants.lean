import Yalnix.CallOperations

/-!
# Invariants of runs

The state behind a successful boot is given in full and is settled. A
property that holds there and is kept by every operation holds in every state
of a run.
-/

namespace Yalnix.RunInvariants

open Framework FrameTable KernelState Scheduling Ipc Terminals ProcessLifetime ProgramLoading
open Syscalls Traps KernelStart Coherence Operations OperationCoherence StepOperations
open CallOperations

variable {M : Machine} {b : Boot M}

/-- The kernel with an idle process only. -/
def idleKernel (M : Machine) (b : Boot M) (p : PcbPtr) (pfn : ℕ) (m : Memory) : Kernel :=
  enterIdle M b p pfn m (emptyKernel M b)

/-- The kernel behind the creation of the initial process. -/
def initKernel (M : Machine) (b : Boot M) (p q : PcbPtr) (pfn : ℕ) (pfns : ℕ → ℕ)
    (m₁ m₂ : Memory) : Kernel :=
  kcCopy M q ⟨q,.boot⟩ (enterInit M b q pfns m₂ (idleKernel M b p pfn m₁))

/-- The kernel on the stack of the initial process. -/
def switchedKernel (M : Machine) (b : Boot M) (p q : PcbPtr) (pfn : ℕ) (pfns : ℕ → ℕ)
    (m₁ m₂ : Memory) : Kernel :=
  kcSwitch M q {(initKernel M b p q pfn pfns m₁ m₂).setKernelContext p ⟨p,.boot⟩ with
    state := Function.update (initKernel M b p q pfn pfns m₁ m₂).state q .running}

/-- The kernel behind a successful boot. -/
def bootedKernel (M : Machine) (b : Boot M) (p q : PcbPtr) (pfn : ℕ) (pfns : ℕ → ℕ)
    (m₁ m₂ m : Memory) (v : UserSpace) (u : UserContext) : Kernel :=
  returnToUser u {switchedKernel M b p q pfn pfns m₁ m₂ with
    memory := m
    space := Function.update (switchedKernel M b p q pfn pfns m₁ m₂).space q v
    userContext := Function.update (switchedKernel M b p q pfn pfns m₁ m₂).userContext q u
    kernelContext := Function.update (switchedKernel M b p q pfn pfns m₁ m₂).kernelContext q
      ⟨q,.executing⟩}

/-- What a successful boot has done. -/
structure BootFacts (M : Machine) (b : Boot M) (p q : PcbPtr) (pfn : ℕ) (pfns : ℕ → ℕ)
    (m₁ m₂ m : Memory) (v : UserSpace) : Prop where
  /-- Idle is no null pointer. -/
  idle : p≠0
  /-- Nor is the initial process. -/
  init : q≠0
  /-- The two are different. -/
  ne : q≠p
  /-- The stack page of idle. -/
  stack : frameAlloc (emptyKernel M b).memory=some (pfn,m₁)
  /-- The kernel stack of the initial process. -/
  kernelStack : processAllocKernelStack M m₁=(m₂,some pfns)
  /-- The initial program was loaded for the process init. -/
  program : ∃ pc sp,loadProgram M b.initEnv b.args 2
    (switchedKernel M b p q pfn pfns m₁ m₂).memory
    ((switchedKernel M b p q pfn pfns m₁ m₂).space q)=.success m v pc sp

/-- A boot that does not fail has created idle. -/
theorem createIdle_eq (h : (createIdle M b (emptyKernel M b)).cpu=.kernel) :
    ∃ p pfn m,p≠0 ∧ frameAlloc (emptyKernel M b).memory=some (pfn,m) ∧
      createIdle M b (emptyKernel M b)=idleKernel M b p pfn m := by
  unfold createIdle at h ⊢
  split at h
  · cases h
  · rename_i p hp
    split at h
    · cases h
    · rename_i hm
      split at h
      · cases h
      · rename_i pfn m hf
        split at h
        · cases h
        · rename_i hn
          refine ⟨p,pfn,m,(callocPcb_fresh hp).1,hf,?_⟩
          rw [if_neg hm,if_neg hn]
          rfl

/-- A boot that does not fail has created the initial process. -/
theorem createInit_eq {p : PcbPtr} {pfn : ℕ} {m₁ : Memory}
    (h : (createInit M b (idleKernel M b p pfn m₁)).cpu=.kernel) :
    ∃ q pfns m₂,q≠0 ∧ q≠p ∧ processAllocKernelStack M m₁=(m₂,some pfns) ∧
      createInit M b (idleKernel M b p pfn m₁)=initKernel M b p q pfn pfns m₁ m₂ := by
  unfold createInit at h ⊢
  split at h
  · cases h
  · rename_i q hq
    obtain ⟨h0,hl⟩ := callocPcb_fresh hq
    have hne : q≠p := by
      rintro rfl
      simp [idleKernel,enterIdle] at hl
    split at h
    · cases h
    · rename_i hm
      split at h
      · cases h
      · rename_i m₂ pfns hk
        split at h
        · cases h
        · rename_i hn
          split at h
          · cases h
          · rename_i hc
            refine ⟨q,pfns,m₂,h0,hne,hk,?_⟩
            rw [if_neg hm,if_neg hn,if_neg hc]
            rfl

/-- A successful boot ends in the state given above. -/
theorem kernelStart_eq (hu : (kernelStart M b).cpu=.user) :
    ∃ p q pfn pfns m₁ m₂ m v u,BootFacts M b p q pfn pfns m₁ m₂ m v ∧
      kernelStart M b=bootedKernel M b p q pfn pfns m₁ m₂ m v u := by
  unfold kernelStart at hu ⊢
  split at hu
  · cases hu
  · rename_i hfr
    rw [if_neg hfr]
    split at hu
    · cases hu
    rename_i htable
    rw [if_neg htable]
    split at hu
    · rename_i hf
      unfold bootFailed at hf
      rw [hu] at hf
      unfold createIdle at hu
      split at hu
      · cases hu
      · split at hu
        · cases hu
        · split at hu
          · cases hu
          · split at hu
            · cases hu
            · cases hu
    · rename_i hi
      rw [if_neg hi]
      have hik : (createIdle M b (emptyKernel M b)).cpu=.kernel := by
        simpa [bootFailed] using hi
      obtain ⟨p,pfn,m₁,h0,hst,he⟩ := createIdle_eq hik
      rw [he] at hu ⊢
      split at hu
      · rename_i hf
        exfalso
        unfold createInit at hu
        split at hu
        · cases hu
        · split at hu
          · cases hu
          · split at hu
            · cases hu
            · split at hu
              · cases hu
              · split at hu
                · cases hu
                · cases hu
      · rename_i hn
        rw [if_neg hn]
        have hnk : (createInit M b (idleKernel M b p pfn m₁)).cpu=.kernel := by
          simpa [bootFailed] using hn
        obtain ⟨q,pfns,m₂,hq0,hqp,hks,he'⟩ := createInit_eq hnk
        rw [he'] at hu ⊢
        unfold switchToInit at hu ⊢
        split at hu
        · cases hu
        · rename_i hsw
          rw [if_neg hsw]
          have hsk : processSwitch M b.initEnv (initKernel M b p q pfn pfns m₁ m₂).initProcess
              ((initKernel M b p q pfn pfns m₁ m₂).setKernelContext
                (initKernel M b p q pfn pfns m₁ m₂).idleProcess
                ⟨(initKernel M b p q pfn pfns m₁ m₂).idleProcess,.boot⟩)=
              switchedKernel M b p q pfn pfns m₁ m₂ := by
            unfold processSwitch
            split
            · rename_i hc
              rcases hc with hc|hc
              · exact absurd hc hq0
              · exact absurd hc hqp
            · split
              · rfl
              · rename_i hno
                exact absurd hno (by simpa using hsw)
          rw [hsk] at hu ⊢
          unfold loadInit at hu ⊢
          split at hu
          · rename_i m v pc sp hl
            exact ⟨p,q,pfn,pfns,m₁,m₂,m,v,_,⟨h0,hq0,hqp,hst,hks,pc,sp,hl⟩,rfl⟩
          · cases hu
          · cases hu

section Booted

variable {p q x : PcbPtr} {pfn : ℕ} {pfns : ℕ → ℕ} {m₁ m₂ m : Memory} {v : UserSpace}
  {u : UserContext}

/-- Idle and the initial process exist behind the boot. -/
theorem booted_live :
    (bootedKernel M b p q pfn pfns m₁ m₂ m v u).live x=true ↔ x=q ∨ x=p := by
  by_cases hq : x=q
  · simp [bootedKernel,returnToUser,switchedKernel,kcSwitch,Kernel.setKernelContext,initKernel,
      kcCopy,enterInit,hq]
  · by_cases hp : x=p
    · simp [bootedKernel,returnToUser,switchedKernel,kcSwitch,Kernel.setKernelContext,initKernel,
        kcCopy,enterInit,idleKernel,enterIdle,hp,Function.update_apply]
    · simp [bootedKernel,returnToUser,switchedKernel,kcSwitch,Kernel.setKernelContext,initKernel,
        kcCopy,enterInit,idleKernel,enterIdle,emptyKernel,hq,hp]

/-- Idle and init are running when the boot has ended. -/
theorem booted_running (hx : x=q ∨ x=p) :
    (bootedKernel M b p q pfn pfns m₁ m₂ m v u).state x=.running := by
  by_cases hq : x=q
  · subst hq
    exact Function.update_self ..
  · rcases hx with hx|hx
    · exact absurd hx hq
    · simp [bootedKernel,returnToUser,switchedKernel,kcSwitch,Kernel.setKernelContext,initKernel,
        kcCopy,enterInit,idleKernel,enterIdle,Function.update_of_ne hq,hx.symm]

/-- Behind the boot the initial process executes. -/
theorem booted_executing :
    ((bootedKernel M b p q pfn pfns m₁ m₂ m v u).kernelContext q).point=.executing := by
  simp [bootedKernel,returnToUser]

/-- Idle is stopped in KernelStart. -/
theorem booted_idle (h : q≠p) :
    ((bootedKernel M b p q pfn pfns m₁ m₂ m v u).kernelContext p).point=.boot := by
  simp [bootedKernel,returnToUser,switchedKernel,kcSwitch,Kernel.setKernelContext,initKernel,
    kcCopy,enterInit,idleKernel,enterIdle,Function.update_of_ne h.symm]

/-- The state behind a successful boot is settled. -/
theorem booted_settled (h : BootFacts M b p q pfn pfns m₁ m₂ m v) :
    Settled M (bootedKernel M b p q pfn pfns m₁ m₂ m v u) := by
  have hlive : ∀ {x},(bootedKernel M b p q pfn pfns m₁ m₂ m v u).live x=true → x=q ∨ x=p :=
    booted_live.1
  have hlq : (bootedKernel M b p q pfn pfns m₁ m₂ m v u).live q=true := booted_live.2 (.inl rfl)
  have hlp : (bootedKernel M b p q pfn pfns m₁ m₂ m v u).live p=true := booted_live.2 (.inr rfl)
  have hsp : (bootedKernel M b p q pfn pfns m₁ m₂ m v u).state p=.running :=
    booted_running (.inr rfl)
  have hsq : (bootedKernel M b p q pfn pfns m₁ m₂ m v u).state q=.running :=
    booted_running (.inl rfl)
  have hkp : ((bootedKernel M b p q pfn pfns m₁ m₂ m v u).kernelContext p).point=.boot :=
    booted_idle h.ne
  have hkq : ((bootedKernel M b p q pfn pfns m₁ m₂ m v u).kernelContext q).point=.executing :=
    booted_executing
  have htab : TableOk M (fun _ => false) (fun _ => 0) (fun _ => 0) :=
    fun i hi => absurd rfl hi
  refine {
    ready := ⟨?_,hlp,hsp,hlq,List.nodup_nil,fun x hx => (by cases hx)⟩
    block := ⟨⟨?_,?_⟩,fun _ x hx => (by cases hx),fun _ => List.nodup_nil,
      fun _ x hx => (by cases hx),
      fun t ht => absurd rfl ht⟩
    home := fun q' hq' => absurd rfl hq'
    owner := ⟨fun i l hl => (by cases hl),fun i _ => rfl⟩
    family := ⟨fun c _ hc => absurd rfl hc,fun x c _ hc => (by cases hc),fun _ _ => List.nodup_nil,
      fun _ _ _ => rfl,fun _ _ => List.not_mem_nil⟩
    table := (htab.birth (c := p) rfl).birth ?_
    lock := ⟨?_,fun i x hx => (by cases hx),fun i l hl => (by cases hl)⟩
    saved := ⟨?_,?_,?_,.inr (.inl hkp)⟩
    reader := ⟨fun t x hx => (by cases hx),fun x line _ hl => (by cases hl)⟩
    writer := ⟨fun t => (by simp [bootedKernel,returnToUser,switchedKernel,kcSwitch,
      Kernel.setKernelContext,initKernel,kcCopy,enterInit,idleKernel,enterIdle,emptyKernel]),
      fun t ht => absurd rfl ht,fun t x hx => (by cases hx)⟩
    unlinked := List.not_mem_nil
    user := fun _ => ⟨⟨.inl hsq,List.not_mem_nil,.inl rfl⟩,hkq⟩
    kernel := fun hk => (by cases hk)}
  · cases hz : (bootedKernel M b p q pfn pfns m₁ m₂ m v u).live 0 with
    | false => rfl
    | true =>
      rcases hlive hz with he|he
      · exact absurd he.symm h.init
      · exact absurd he.symm h.idle
  · intro x r hx hr
    cases r with
    | delay => exact absurd rfl hr
    | child => cases hr
    | queue q' => cases hr
    | writer t =>
      rcases hlive hx with he|he
      · exact absurd (he.symm.trans (show x=0 from Eq.symm hr)) h.init
      · exact absurd (he.symm.trans (show x=0 from Eq.symm hr)) h.idle
  · intro x r r' hx hr hr'
    exfalso
    cases r with
    | delay => exact absurd rfl hr
    | child => cases hr
    | queue q' => cases hr
    | writer t =>
      rcases hlive hx with he|he
      · exact absurd (he.symm.trans (show x=0 from Eq.symm hr)) h.init
      · exact absurd (he.symm.trans (show x=0 from Eq.symm hr)) h.idle
  · exact Function.update_of_ne h.ne ..
  · intro x id g hx hk
    rcases hlive hx with rfl|rfl
    · rw [hkq] at hk; cases hk
    · rw [hkp] at hk; cases hk
  · intro x hx hxq
    rcases hlive hx with rfl|rfl
    · exact absurd rfl hxq
    · rw [hkp]; simp
  · intro x hx hk
    rcases hlive hx with rfl|rfl
    · rw [hkq] at hk; cases hk
    · rw [hkp] at hk; cases hk
  · intro x hx
    rcases hlive hx with rfl|rfl
    · rw [hkq]; trivial
    · rw [hkp]; trivial

end Booted

/-- A property of boots and operations is a property of runs. -/
theorem run_invariant {okBoot : Boot M → Prop} {ok : Kernel → Env → Input → Prop}
    {allow : Label → Prop} {P : Kernel → Prop}
    (hok : ∀ s env input,ok s env input → env.switchOk=true ∧ StepAllowed M allow s env input)
    (hboot : ∀ b p q pfn pfns m₁ m₂ m v u,okBoot b → BootFacts M b p q pfn pfns m₁ m₂ m v →
      P (bootedKernel M b p q pfn pfns m₁ m₂ m v u))
    (hop : ∀ c s t,Coherent M s → P s → Op M allow c s t → P t) {s : Kernel}
    (hs : Run M okBoot ok s) : Settled M s ∧ P s := by
  induction hs with
  | boot b hb hu =>
    obtain ⟨p,q,pfn,pfns,m₁,m₂,m,v,u,hf,he⟩ := kernelStart_eq hu
    rw [he]
    exact ⟨booted_settled hf,hboot b p q pfn pfns m₁ m₂ m v u hb hf⟩
  | step env input hr he hst ih =>
    obtain ⟨hsw,hal⟩ := hok _ _ _ hst
    obtain ⟨hops,hset⟩ := kernelStep_done ih.1 hsw he hal
    refine ⟨hset,?_⟩
    have hstep : ∀ {s t},Ops M allow s t → Coherent M s → P s → Coherent M t ∧ P t := by
      intro s t hops hc hp
      induction hops with
      | refl => exact ⟨hc,hp⟩
      | tail _ hone ih =>
        obtain ⟨c,hone⟩ := hone
        exact ⟨op_coherent ih.1 hone,hop c _ _ ih.1 ih.2 hone⟩
    exact (hstep hops ih.1.toCoherent ih.2).2

/-- A property of boots and operations is a property of all runs. -/
theorem reachable_invariant {P : Kernel → Prop}
    (hboot : ∀ b p q pfn pfns m₁ m₂ m v u,BootFacts M b p q pfn pfns m₁ m₂ m v →
      P (bootedKernel M b p q pfn pfns m₁ m₂ m v u))
    (hop : ∀ c s t,Coherent M s → P s → Op M (fun _ => True) c s t → P t) {s : Kernel}
    (hs : Reachable M s) : Settled M s ∧ P s := by
  exact run_invariant (fun s env input hok => ⟨hok,fun _ _ => trivial⟩)
    (fun b p q pfn pfns m₁ m₂ m v u _ hf => hboot b p q pfn pfns m₁ m₂ m v u hf) hop hs

end Yalnix.RunInvariants
