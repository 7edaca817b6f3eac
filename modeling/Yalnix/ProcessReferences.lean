import Yalnix.Traces

/-!
# References between processes

Pointers to process control blocks are kept in the process table, in queues,
in families, in locks and in terminals. None of them ever points to a block
that has been freed. A zombie is freed by its parent, and by nobody else: a
process that ends without a parent, or whose parent ends before collecting
it, stays for ever. In runs in which neither happens every zombie can be
collected.
-/

namespace Yalnix.ProcessReferences

open Framework FrameTable KernelState Scheduling Ipc Terminals ProcessLifetime ProgramLoading
open Syscalls Traps KernelStart Coherence Operations OperationCoherence CallOperations
open RunInvariants Traces

variable {M : Machine} {allow : Label → Prop} {s t : Kernel} {live : PcbPtr → Bool}
  {state : PcbPtr → ProcState} {parent : PcbPtr → PcbPtr} {c p w : PcbPtr}

/-- Every stored pointer is null or a block in use, and a process that has
ended neither owns a lock nor writes to a terminal. -/
structure ReferencesLive (s : Kernel) : Prop where
  /-- current_process points to a process that exists. -/
  current : s.live s.currentProcess=true
  /-- The process table points to processes that exist. -/
  table : ∀ i,s.processTable i≠0 → s.live (s.processTable i)=true
  /-- The ready queue links processes that exist. -/
  ready : ∀ p∈s.readyQueue,s.live p=true
  /-- The children of a process. -/
  children : ∀ p,s.live p=true → ∀ c∈s.children p,s.live c=true
  /-- The parent of a process. -/
  parent : ∀ p,s.live p=true → s.parent p≠0 → s.live (s.parent p)=true
  /-- The owner of a lock. -/
  owner : ∀ i lock,s.objects i=.lock lock → lock.owner≠0 →
    s.live lock.owner=true ∧ s.state lock.owner≠.zombie
  /-- The queues of pipes, locks, condition variables and terminals. -/
  queue : ∀ q,∀ p∈s.queue q,s.live p=true
  /-- The writer of a terminal. -/
  writer : ∀ i,(s.terminals i).writer≠0 →
    s.live (s.terminals i).writer=true ∧ s.state (s.terminals i).writer≠.zombie

/-- Coherent states have no dangling references. -/
theorem coherent_references (hc : Coherent M s) : ReferencesLive s where
  current := hc.ready.current_live
  table := fun i hi => (hc.table i hi).1
  ready := fun p hp => (hc.ready.mem p hp).1
  children := fun p hp c hm => (hc.family.child_parent p c hp hm).1
  parent := fun p hp h0 => (hc.family.parent_child p hp h0).1
  owner := fun i lock ho h0 =>
    ⟨(hc.owner.owner i lock ho h0).1,(hc.owner.owner i lock ho h0).2.2⟩
  queue := hc.block.queue_live
  writer := by
    intro i hw
    refine ⟨hc.block.writer_live i hw,?_⟩
    rw [writer_blocked hc hw]
    decide

/-- No state of any run refers to a process that has been destroyed. -/
theorem reachable_references (h : Reachable M s) : ReferencesLive s := by
  obtain ⟨hs,_⟩ := reachable_invariant (P := fun _ => True)
    (fun _ _ _ _ _ _ _ _ _ _ _ => trivial) (fun _ _ _ _ _ _ => trivial) h
  exact coherent_references hs.toCoherent

/-- The parent waits, the child ends, and the parent collects it: no reference
to the child is left. -/
theorem reachable_references_collected : ∃ s,Reachable sampleMachine s ∧ s.live 3=false ∧
    s.log.any (fun e => e matches .waited _ _ _ _)=true ∧ ReferencesLive s := by
  obtain ⟨s,hr,hq⟩ := replay_reachable sampleBoot_user
    [forkInput 3 2,callInput 4 0 0 0,resumeInput,callInput 3 7 0 0,resumeInput]
    (fun s => s.live 3=false ∧ s.log.any (fun e => e matches .waited _ _ _ _)=true)
    (by decide +kernel)
  simp only [decide_eq_true_eq] at hq
  exact ⟨s,hr,hq.1,hq.2,reachable_references hr⟩

/-- A zombie has a parent that has not ended and lists it, so that Wait of the
parent finds it. -/
def Collectable (s : Kernel) (p : PcbPtr) : Prop :=
  s.parent p≠0 ∧ s.live (s.parent p)=true ∧ s.state (s.parent p)≠.zombie ∧
    p∈s.children (s.parent p)

/-- Every zombie can be collected. -/
def AllCollectable (s : Kernel) : Prop :=
  ∀ p,s.live p=true → s.state p=.zombie → Collectable s p

/-- The step does not end a process without a parent or with a child that is
a zombie. -/
def EndsInOrder (M : Machine) (s : Kernel) (env : Env) (input : Input) : Prop :=
  Ends M env s input → s.parent s.currentProcess≠0 ∧
    ∀ c∈s.children s.currentProcess,s.state c≠.zombie

/-- The labels of such steps. -/
def Ordered : Label → Prop
  | .ends p => p≠0
  | .orphan st => st≠.zombie
  | _ => True

/-- Every zombie has a parent that can collect it. -/
def ZombieOk (live : PcbPtr → Bool) (state : PcbPtr → ProcState)
    (parent : PcbPtr → PcbPtr) : Prop :=
  ∀ p,live p=true → state p=.zombie → parent p≠0

/-- A process may change its state if it does not end without a parent. -/
theorem ZombieOk.setState {a : ProcState} (h : ZombieOk live state parent)
    (ha : a=.zombie → parent w≠0) : ZombieOk live (Function.update state w a) parent := by
  intro p hl hz
  by_cases he : p=w
  · rw [he] at hz ⊢
    rw [Function.update_self] at hz
    exact ha hz
  · rw [Function.update_of_ne he] at hz
    exact h p hl hz

/-- A process that has not ended gets another parent. -/
theorem ZombieOk.setParent {q : PcbPtr} (h : ZombieOk live state parent) (hs : state c≠.zombie) :
    ZombieOk live state (Function.update parent c q) := by
  intro p hl hz
  have he : p≠c := by
    rintro rfl
    exact hs hz
  rw [Function.update_of_ne he]
  exact h p hl hz

/-- A new process is no zombie. -/
theorem ZombieOk.birth {q : PcbPtr} (h : ZombieOk live state parent) :
    ZombieOk (Function.update live c true) (Function.update state c .ready)
      (Function.update parent c q) := by
  intro p hl hz
  have he : p≠c := by
    rintro rfl
    rw [Function.update_self] at hz
    cases hz
  rw [Function.update_of_ne he] at hl hz ⊢
  exact h p hl hz

/-- A zombie that is destroyed needs no parent. -/
theorem ZombieOk.death (h : ZombieOk live state parent) :
    ZombieOk (Function.update live c false) state parent := by
  intro p hl hz
  have he : p≠c := by
    rintro rfl
    rw [Function.update_self] at hl
    cases hl
  rw [Function.update_of_ne he] at hl
  exact h p hl hz

/-- Every operation of an ordered step leaves zombies with a parent. -/
theorem op_zombieOk {b : Bool} (hallow : ∀ x,allow x → Ordered x) (hc : Coherent M s)
    (h : ZombieOk s.live s.state s.parent) (hop : Op M allow b s t) :
    ZombieOk t.live t.state t.parent := by
  have hready : ∀ p,ZombieOk s.live (Function.update s.state p .ready) s.parent :=
    fun p => h.setState (by simp)
  have hblock : ZombieOk s.live (Function.update s.state s.currentProcess .blocked) s.parent :=
    h.setState (by simp)
  cases hop with
  | sleepOver p hl ho => exact hready p
  | requeue hi hs => exact hready _
  | dispatch env hs =>
    have he := dispatchNext_eq hc hs
    rw [he]
    dsimp only
    split
    · exact h
    · exact h.setState (by simp)
  | forkUndone env c pfns pt m₁ m u ha hcp =>
    obtain ⟨h0,hl⟩ := callocPcb_fresh hcp
    rw [destroyed_child hc h0 hl]
    exact h.birth.death
  | spawn env caller c pfns pt m₁ m u hb hcp =>
    rw [spawn_eq]
    exact h.birth
  | orphan c rest ha hch ho => exact h.setParent (hallow _ ho)
  | handOff i l w rest u => exact hready w
  | zombie status k env m v hk hb hch hl hp hv ho hn => exact h.setState (fun _ => hallow _ hn)
  | zombieWake status k env m v hk hb hch hl hp hw hv ho hn =>
    have hz : ZombieOk s.live (Function.update s.state s.currentProcess .zombie) s.parent :=
      h.setState (fun _ => hp)
    exact hz.setState (by simp)
  | collect statusPtr c ha hch hz =>
    rw [collectChild_eq hc ha statusPtr hch hz]
    exact h.death
  | blockDelay ticks k u => exact hblock
  | blockChild statusPtr k u => exact hblock
  | blockPipe id buf len pipe k u => exact hblock
  | blockLock id l k u => exact hblock
  | blockCvar id lockId cvar lockOpened k u => exact hblock
  | blockRead i k u => exact hblock
  | startWrite env i buf len k u => exact hblock
  | queueWrite env i buf len k u => exact hblock
  | wake q w rest u => exact hready w
  | deliver i line r rest => exact hready r
  | transmitLast i u => exact hready _
  | transmitNext i u w rest => exact hready _
  | _ => exact h

/-- A zombie with a parent can be collected. -/
theorem collectable (hc : Coherent M s) (hl : s.live p=true) (h : s.parent p≠0) :
    Collectable s p := by
  obtain ⟨hp,hm⟩ := hc.family.parent_child p hl h
  refine ⟨h,hp,fun hz => ?_,hm⟩
  rw [hc.family.zombie _ hp hz] at hm
  cases hm

/-- In every run in which no process ends without a parent or before it has
collected its ended children, every zombie can be collected. -/
theorem run_collectable (h : Run M (fun _ => True)
    (fun s env input => env.switchOk=true ∧ EndsInOrder M s env input) s) : AllCollectable s := by
  have hok : ∀ s env input,env.switchOk=true ∧ EndsInOrder M s env input →
      env.switchOk=true ∧ StepAllowed M Ordered s env input := by
    rintro s env input ⟨hsw,hn⟩
    refine ⟨hsw,fun x hx => ?_⟩
    cases hx with
    | orphan _ c he hm => exact (hn he).2 c hm
    | ends _ he => exact (hn he).1
    | _ => trivial
  obtain ⟨hs,hz⟩ := run_invariant hok (P := fun s => ZombieOk s.live s.state s.parent)
    (fun b p q pfn pfns m₁ m₂ m v u _ _ x hx hz => by
      rw [booted_running (booted_live.1 hx)] at hz
      cases hz)
    (fun c s t hc hp hop => op_zombieOk (fun _ hx => hx) hc hp hop) h
  exact fun p hl hst => collectable hs.toCoherent hl (hz p hl hst)

/-- A test that a trap does not end a process, or ends one in order. -/
def orderTest (M : Machine) (s : Kernel) (env : Env) : Input → Bool
  | .trap u => env.switchOk && (u.vector=.clock || u.vector=.kernel) &&
      ((M.syscallOf u.code≠.exit && M.syscallOf u.code≠.exec) ||
        (s.parent s.currentProcess≠0 &&
          (s.children s.currentProcess).all (fun c => s.state c≠.zombie)))
  | .resume => env.switchOk

/-- A step that passes the test ends processes in order. -/
theorem orderTest_sound (s : Kernel) (env : Env) (input : Input)
    (h : orderTest M s env input=true) : env.switchOk=true ∧ EndsInOrder M s env input := by
  cases input with
  | resume => exact ⟨h,fun he => he.elim⟩
  | trap u =>
    dsimp only [orderTest] at h
    simp only [Bool.and_eq_true,Bool.or_eq_true,decide_eq_true_eq,List.all_eq_true] at h
    obtain ⟨⟨hsw,hv⟩,hx⟩ := h
    refine ⟨hsw,fun he => ?_⟩
    rcases hx with ⟨hne,hnx⟩|hx
    · exfalso
      obtain ⟨_,_,hi|hm|⟨hmem,_⟩|⟨_,hc|⟨hc,_⟩⟩⟩ := he
      · rw [hi] at hv
        simp at hv
      · rw [hm] at hv
        simp at hv
      · rw [hmem] at hv
        simp at hv
      · exact hne hc
      · exact hnx hc
    · exact hx

/-- A child that ends before its parent is a zombie that can be collected. -/
theorem run_collectable_child : ∃ s,Run sampleMachine (fun _ => True)
      (fun s env input => env.switchOk=true ∧ EndsInOrder sampleMachine s env input) s ∧
    s.live 3=true ∧ s.state 3=.zombie ∧ AllCollectable s := by
  obtain ⟨s,hr,hq⟩ := replay_exists (fun _ => True) (orderTest_sound (M := sampleMachine)) trivial
    sampleBoot_user [forkInput 3 2,tickInput,resumeInput,callInput 3 7 0 0,resumeInput]
    (fun s => s.live 3=true ∧ s.state 3=.zombie) (by decide +kernel)
  simp only [decide_eq_true_eq] at hq
  exact ⟨s,hr,hq.1,hq.2,run_collectable hr⟩

/-- A grandchild of the initial process that ends behind its parent is a
zombie without a parent. -/
theorem collectable_fails : ¬∀ (M : Machine) (s : Kernel),Reachable M s → s.cpu=.user →
    AllCollectable s := by
  intro hall
  obtain ⟨s,hr,hq⟩ := replay_reachable sampleBoot_user
    [forkInput 3 2,tickInput,resumeInput,forkInput 4 3,callInput 3 7 0 0,resumeInput,tickInput,
      resumeInput,callInput 3 8 0 0,resumeInput]
    (fun s => s.cpu=.user ∧ s.live 4=true ∧ s.state 4=.zombie ∧ s.parent 4=0) (by decide +kernel)
  simp only [decide_eq_true_eq] at hq
  obtain ⟨hu,hl,hz,hp⟩ := hq
  exact (hall sampleMachine s hr hu 4 hl hz).1 hp

end Yalnix.ProcessReferences
