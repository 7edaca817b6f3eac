import Yalnix.Continuations
import Yalnix.Switching
import Yalnix.Delays

/-!
# Bounded waiting for the processor

The scheduler is round robin. A process on the ready queue moves forward with
every pick, nobody gets in front of it, and every clock trap picks once. So it
runs at the latest behind as many clock traps as there are processes in front
of it and one more.
-/

namespace Yalnix.BoundedWaiting

open Framework FrameTable KernelState Scheduling Ipc Terminals ProcessLifetime ProgramLoading
open Syscalls Traps KernelStart Coherence Operations OperationCoherence StepOperations
open CallOperations RunInvariants Traces Delays Switching Continuations

variable {M : Machine} {env : Env} {s t x : Kernel} {p : PcbPtr} {j k : ℕ}
  {l : List (Env × Input)}

/-- The clock traps of a list of inputs. -/
def ticksOf (l : List (Env × Input)) : ℕ := (l.map (fun x => clockTraps x.2)).sum

/-- One more input adds its ticks to the number of ticks. -/
theorem ticksOf_snoc (l : List (Env × Input)) (x : Env × Input) :
    ticksOf (l++[x])=ticksOf l+clockTraps x.2 := by
  simp [ticksOf]

/-- A process that the scheduler has picked. -/
structure Picked (p : PcbPtr) (t : Kernel) : Prop where
  /-- It is the current one. -/
  current : t.currentProcess=p
  /-- It is marked so. -/
  running : t.state p=.running
  /-- Its kernel stack is resumed next. -/
  resumed : t.cpu=.kernel

/-- A process behind others moves forward by one when the scheduler picks, and
one in front is picked. -/
theorem dispatch_ready (hc : Coherent M x) (hs : env.switchOk=true) (hp : p≠x.currentProcess)
    (hj : x.readyQueue[j]?=some p) :
    (j=0 ∧ Picked p (dispatchNext M env x)) ∨
      ∃ i,j=i+1 ∧ (dispatchNext M env x).readyQueue[i]?=some p := by
  have he := dispatchNext_eq hc hs
  rcases nextProcess_cases hc with ⟨hq,_⟩|⟨rest,hq⟩
  · rw [hq] at hj
    cases hj
  · cases j with
    | zero =>
      rw [hq,List.getElem?_cons_zero] at hj
      injection hj with hj
      refine .inl ⟨rfl,?_⟩
      rw [he]
      refine ⟨hj,?_,rfl⟩
      dsimp only
      rw [if_neg (by rw [hj]; exact hp),hj,Function.update_self]
    | succ i =>
      refine .inr ⟨i,rfl,?_⟩
      rw [he]
      dsimp only
      rwa [List.getElem?_tail]

/-- A kernel entry with a switch. -/
theorem switches_ready (h : Settled M s) (hs : env.switchOk=true) (hj : s.readyQueue[j]?=some p)
    (ht : Switches M env s t) : Picked p t ∨ ∃ i,t.readyQueue[i]?=some p ∧ i+1≤j := by
  obtain ⟨x,hx,ht⟩ := ht
  have hc := h.toCoherent
  have hp : p≠x.currentProcess := by
    rw [hx.current]
    rintro rfl
    exact h.unlinked (List.mem_of_getElem? hj)
  have hjx : x.readyQueue[j]?=some p := by
    obtain ⟨rest,hr⟩ := hx.ready hc
    rw [←hr,List.getElem?_append_left (List.getElem?_eq_some_iff.1 hj).1]
    exact hj
  rw [ht]
  rcases dispatch_ready (hx.coherent hc) hs hp hjx with ⟨_,hd⟩|⟨i,rfl,hd⟩
  · exact .inl hd
  · exact .inr ⟨i,hd,Nat.le_refl _⟩

/-- Any other kernel entry lets the process stand where it is or nearer the
front, or picks it. -/
theorem ending_ready (h : Settled M s) (hs : env.switchOk=true) (hj : s.readyQueue[j]?=some p)
    (ht : Ending M env s t) : Picked p t ∨ ∃ i,t.readyQueue[i]?=some p ∧ i≤j := by
  obtain ⟨x,hx,hend⟩ := ht
  rcases hend with hend|hend
  · obtain ⟨rest,hr⟩ := hx.ready h.toCoherent
    rw [hend]
    refine .inr ⟨j,?_,Nat.le_refl j⟩
    rw [←hr,List.getElem?_append_left (List.getElem?_eq_some_iff.1 hj).1]
    exact hj
  · refine (switches_ready h hs hj ⟨x,hx,hend⟩).imp_right ?_
    rintro ⟨i,hi,hle⟩
    exact ⟨i,hi,by omega⟩

/-- A step moves a process on the ready queue forward, by one at least if it is
a clock trap, or runs it. -/
theorem kernelStep_ready (h : Settled M s) (hs : env.switchOk=true) {input : Input}
    (he : input.Enabled s) (hj : s.readyQueue[j]?=some p) :
    Picked p (kernelStep M env s input) ∨
      ∃ i,(kernelStep M env s input).readyQueue[i]?=some p ∧ i+clockTraps input≤j := by
  have hany := ending_ready h hs hj (kernelStep_ending h hs he)
  cases input with
  | resume => exact hany
  | trap u =>
    by_cases hv : u.vector=.clock
    · have hclock : kernelStep M env s (.trap u)=trapClock M env u s := by
        change trap M env u s=_
        unfold trap
        rw [hv]
      have hone : clockTraps (.trap u)=1 := if_pos hv
      rw [hclock,hone]
      exact switches_ready h hs hj (clock_switches h.toCoherent (h.user he) u)
    · have hnone : clockTraps (.trap u)=0 := if_neg hv
      rw [hnone]
      exact hany

/-- A process with k others in front of it on the ready queue runs before more
than k+1 clock traps have been taken. Until then it stays on the queue, with at
least one process less in front of it for each clock trap. -/
theorem bounded_waiting (hr : Reachable M s) (hk : s.readyQueue[k]?=some p)
    (h : Later M SwitchSucceeds s l t) :
    (∃ j,t.readyQueue[j]?=some p ∧ j+ticksOf l≤k) ∨
      ∃ l₁ w l₂,l=l₁++l₂ ∧ Later M SwitchSucceeds s l₁ w ∧ Later M SwitchSucceeds w l₂ t ∧
        Picked p w ∧ ticksOf l₁≤k+1 := by
  induction h with
  | refl => exact .inl ⟨k,hk,Nat.le_refl k⟩
  | @step l t env input hprev he hok ih =>
    rcases ih with ⟨j,hj,hle⟩|⟨l₁,w,l₂,rfl,hw,hwt,hp,hle⟩
    · have hset := reachable_settled (hprev.run hr)
      rcases kernelStep_ready hset hok he hj with hp|⟨i,hi,hle'⟩
      · refine .inr ⟨l++[(env,input)],_,[],by rw [List.append_nil],.step env input hprev he hok,
          .refl,hp,?_⟩
        rw [ticksOf_snoc]
        have hone : clockTraps input≤1 := by
          unfold clockTraps
          split
          · split <;> omega
          · omega
        dsimp only
        omega
      · refine .inl ⟨i,hi,?_⟩
        rw [ticksOf_snoc]
        dsimp only
        omega
    · exact .inr ⟨l₁,w,l₂++[(env,input)],List.append_assoc ..,hw,.step env input hwt he hok,hp,hle⟩

/-- The second of two children runs at the second tick. -/
theorem bounded_waiting_children : ∃ s t l,Reachable sampleMachine s ∧
    Later sampleMachine SwitchSucceeds s l t ∧ s.readyQueue[1]?=some 4 ∧ ticksOf l=2 ∧
    ∃ l₁ w l₂,l=l₁++l₂ ∧ Later sampleMachine SwitchSucceeds s l₁ w ∧
      Later sampleMachine SwitchSucceeds w l₂ t ∧ Picked 4 w ∧ ticksOf l₁≤2 := by
  have htest : ∀ s env input,switchTest s env input=true → SwitchSucceeds s env input :=
    fun _ _ _ h => h
  obtain ⟨s,t,hr,hlater,hq⟩ := later_exists (M := sampleMachine) (fun _ => True) htest htest
    trivial sampleBoot_user [forkInput 3 2,forkInput 4 3]
    [tickInput,resumeInput,tickInput] (fun s _ => s.readyQueue[1]?=some 4) (by decide +kernel)
  have hk : s.readyQueue[1]?=some 4 := by simpa using hq
  have hticks : ticksOf [tickInput,resumeInput,tickInput]=2 := by decide
  refine ⟨s,t,_,hr,hlater,hk,hticks,?_⟩
  rcases bounded_waiting hr hk hlater with ⟨j,_,hj⟩|hw
  · rw [hticks] at hj
    omega
  · exact hw

end Yalnix.BoundedWaiting
