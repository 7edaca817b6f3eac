import Yalnix.Continuations
import Yalnix.WaitingLines

/-!
# The wait queues of pipes, locks, condition variables and terminals

Every wait queue is served first come, first served, over any stretch of a run
and whatever calls the processes make. On the queue of a terminal's writers to
be served is to become its writer, elsewhere it is to be woken.
-/

namespace Yalnix.WaitQueues

open Framework FrameTable KernelState Scheduling Ipc Terminals ProcessLifetime ProgramLoading
open Syscalls Traps KernelStart Coherence Operations OperationCoherence StepOperations
open CallOperations RunInvariants Traces Continuations WaitingLines

variable {M : Machine} {s t w : Kernel} {p : PcbPtr} {q a : QueueAddr} {k : ℕ}
  {l l₁ l₂ : List Event} {allow : Label → Prop}

/-- The process that an event takes off a queue. -/
def servedFrom (q : QueueAddr) : Event → List PcbPtr
  | .woken p (.pop a) => if a=q then [p] else []
  | _ => []

/-- Events that take nobody off a queue. -/
def Unserving : Event → Prop
  | .woken _ (.pop _) => False
  | _ => True

/-- What happens to a queue between two states. -/
def Moves (q : QueueAddr) (s t : Kernel) : Prop :=
  ∃ l joined,t.log=s.log++l ∧ Served (s.queue q) joined (l.flatMap (servedFrom q)) (t.queue q)

section Changes

/-- Events that serve nobody take nobody from a queue. -/
theorem unserving_nil (h : ∀ e∈l,Unserving e) (q : QueueAddr) : l.flatMap (servedFrom q)=[] := by
  refine List.flatMap_eq_nil_iff.2 (fun e he => ?_)
  have hu := h e he
  cases e with
  | woken p waker =>
    cases waker with
    | pop a => exact hu.elim
    | _ => rfl
  | _ => rfl

/-- The queue stays as it is. -/
theorem moves_same (hq : t.queue q=s.queue q) (hl : t.log=s.log++l) (hu : ∀ e∈l,Unserving e) :
    Moves q s t := by
  refine ⟨l,[],hl,?_⟩
  rw [unserving_nil hu,hq]
  exact .refl _

/-- A queue moves by nothing where it and the log are kept. -/
theorem moves_quiet (hq : t.queue q=s.queue q) (hl : t.log=s.log) : Moves q s t :=
  moves_same hq (l := []) (by rw [hl,List.append_nil]) (by simp)

/-- One change after the other. -/
theorem Moves.trans (h : Moves q s t) (h' : Moves q t w) : Moves q s w := by
  obtain ⟨l,j,hl,hs⟩ := h
  obtain ⟨l',j',hl',hs'⟩ := h'
  refine ⟨l++l',j++j',?_,?_⟩
  · rw [hl',hl,List.append_assoc]
  · rw [List.flatMap_append]
    exact hs.trans hs'

/-- A process queues behind the others. -/
theorem moves_push (hq : t.queue=Function.update s.queue a (s.queue a++[p]))
    (hl : t.log=s.log++l) (hu : ∀ e∈l,Unserving e) : Moves q s t := by
  by_cases hqa : q=a
  · refine ⟨l,[p],hl,?_⟩
    rw [unserving_nil hu,hq,hqa,Function.update_self]
    exact .push _ _
  · refine moves_same ?_ hl hu
    rw [hq,Function.update_of_ne hqa]

/-- The first process of a queue leaves it. -/
theorem moves_pop {rest : List PcbPtr} (hs : s.queue a=p::rest)
    (hq : t.queue=Function.update s.queue a rest)
    (hl : t.log=s.log++(f++.woken p (.pop a)::b)) (hf : ∀ e∈f,Unserving e)
    (hb : ∀ e∈b,Unserving e) : Moves q s t := by
  refine ⟨_,[],hl,?_⟩
  rw [List.flatMap_append,unserving_nil hf,List.nil_append,List.flatMap_cons,unserving_nil hb,
    List.append_nil]
  dsimp only [servedFrom]
  by_cases hqa : a=q
  · rw [if_pos hqa,hq,←hqa,hs,Function.update_self]
    exact .pop [p] rest
  · rw [if_neg hqa,hq,Function.update_of_ne (fun he => hqa he.symm)]
    exact .refl _

/-- A queue of an object that is created was empty. -/
theorem moves_open (hs : s.queue a=[]) (hq : t.queue=Function.update s.queue a [])
    (hl : t.log=s.log) : Moves q s t := by
  refine moves_quiet (congrFun ?_ q) hl
  rw [hq,Function.update_eq_self_iff]
  exact hs.symm

end Changes

section Operations

/-- Every operation serves a queue in front and lengthens it behind. -/
theorem op_moves {b : Bool} (hc : Coherent M s) (hop : Op M allow b s t) (q : QueueAddr) :
    Moves q s t := by
  have hempty : ∀ {a},¬QueueHome M s.objects a → s.queue a=[] := by
    intro a ha
    by_contra hne
    exact ha (hc.home a hne)
  cases hop with
  | note e hn =>
    refine moves_same rfl (l := [e]) rfl (fun e' he => ?_)
    rw [List.mem_singleton.1 he]
    cases e with
    | woken p waker => exact hn.elim
    | _ => trivial
  | tick => exact moves_same rfl (l := [_]) rfl (by simp [Unserving])
  | writeDone => exact moves_same rfl (l := [_]) rfl (by simp [Unserving])
  | sleepOver p hl ho =>
    exact moves_same rfl (l := [_,_]) (List.append_assoc ..) (by simp [Unserving])
  | requeue => exact moves_same rfl (l := [_]) rfl (by simp [Unserving])
  | dispatch env hs =>
    have he := dispatchNext_eq hc hs
    rw [he]
    exact moves_same rfl (l := [_]) rfl (by simp [Unserving])
  | forkUndone env c pfns pt m₁ m u ha hcp =>
    obtain ⟨h0,hl⟩ := callocPcb_fresh hcp
    rw [destroyed_child hc h0 hl]
    exact moves_quiet rfl rfl
  | spawn env caller c pfns pt m₁ m u =>
    exact moves_same rfl (l := [_,_]) (List.append_assoc ..) (by simp [Unserving])
  | unlock i l => exact moves_same rfl (l := [_]) rfl (by simp [Unserving])
  | handOff i l w rest u ha h ho hq =>
    have hlog : (s.log++[.lockReleased l.opened l.owner,.woken w (.pop (.lockWaiters i))]++
        [.linked w])++[.lockGranted l.opened w]=
        s.log++([.lockReleased l.opened l.owner]++.woken w (.pop (.lockWaiters i))::
          [.linked w,.lockGranted l.opened w]) := by
      simp only [List.append_assoc]
      rfl
    exact moves_pop hq rfl hlog (by simp [Unserving]) (by simp [Unserving])
  | zombie status k => exact moves_same rfl (l := [_]) rfl (by simp [Unserving])
  | zombieWake status k =>
    exact moves_same rfl (l := [_,_,_]) (List.append_assoc ..) (by simp [Unserving])
  | collect statusPtr c ha hch hz =>
    rw [collectChild_eq hc ha statusPtr hch hz]
    refine moves_same rfl (List.append_assoc ..) (fun e he => ?_)
    rcases List.mem_append.1 he with he|he
    · split at he
      · cases he
      · rw [List.mem_singleton.1 he]
        trivial
    · rw [List.mem_singleton.1 he]
      trivial
  | blockPipe => exact moves_push rfl (l := []) (List.append_nil _).symm (by simp)
  | blockLock => exact moves_push rfl (l := [_]) rfl (by simp [Unserving])
  | blockCvar => exact moves_push rfl (l := [_]) rfl (by simp [Unserving])
  | blockRead => exact moves_push rfl (l := []) (List.append_nil _).symm (by simp)
  | startWrite =>
    exact moves_same rfl (l := [_,_,_]) (List.append_assoc _ [_,_] [_]) (by simp [Unserving])
  | queueWrite => exact moves_push rfl (l := [_,_]) rfl (by simp [Unserving])
  | wake a w rest u hn hq =>
    exact moves_pop (f := []) (b := [_]) hq rfl (List.append_assoc ..) (by simp)
      (by simp [Unserving])
  | openPipe env i hi h =>
    refine moves_open (hempty ?_) rfl rfl
    rintro ⟨pipe,hp⟩
    rw [h] at hp
    cases hp
  | openLock i hi h =>
    refine moves_open (hempty ?_) rfl rfl
    rintro ⟨lock,hp⟩
    rw [h] at hp
    cases hp
  | openCvar i hi h =>
    refine moves_open (hempty ?_) rfl rfl
    rintro ⟨cvar,hp⟩
    rw [h] at hp
    cases hp
  | takeBytes => exact moves_same rfl (l := [_]) rfl (by simp [Unserving])
  | putBytes => exact moves_same rfl (l := [_]) rfl (by simp [Unserving])
  | lockTake => exact moves_same rfl (l := [_]) rfl (by simp [Unserving])
  | lockResume => exact moves_same rfl (l := [_]) rfl (by simp [Unserving])
  | takeHanded => exact moves_same rfl (l := [_,_]) rfl (by simp [Unserving])
  | takeLine => exact moves_same rfl (l := [_,_]) rfl (by simp [Unserving])
  | deliver i line r rest hl hq =>
    exact moves_pop (f := [_]) (b := [_]) hq rfl (List.append_assoc ..)
      (by simp [Unserving]) (by simp [Unserving])
  | enqueue => exact moves_same rfl (l := [_]) rfl (by simp [Unserving])
  | transmitSpurious => exact moves_same rfl (l := [_]) rfl (by simp [Unserving])
  | transmitMore =>
    exact moves_same rfl (l := [_,_]) (List.append_assoc ..) (by simp [Unserving])
  | transmitLast =>
    exact moves_same rfl (l := [_,_,_]) (List.append_assoc ..) (by simp [Unserving])
  | transmitNext i u w rest hw hf hq =>
    have hnext : Moves q s (nextWriter i w rest (releaseWriter i u s)) := by
      refine moves_pop (f := [.ttyCompleted i,.woken (s.terminals i).writer (.written i),
        .linked (s.terminals i).writer]) (b := []) hq rfl ?_ (by simp [Unserving]) (by simp)
      dsimp only [nextWriter,releaseWriter,markReady]
      simp only [List.append_assoc]
      rfl
    exact hnext.trans (moves_same rfl (l := [_]) rfl (by simp [Unserving]))
  | _ => exact moves_quiet rfl rfl

end Operations

section Runs

/-- Between two states of a run the processes that left a wait queue are the
first of those who were on it and those who joined. So a process behind k others
leaves as the one behind those k, and until then it is blocked, behind those of
them who have not left. -/
theorem waiters_in_turn (hr : Reachable M s) {l : List (Env × Input)}
    (h : Later M SwitchSucceeds s l t) (q : QueueAddr) :
    ∃ events joined,t.log=s.log++events ∧
      s.queue q++joined=events.flatMap (servedFrom q)++t.queue q ∧
      ∀ k p,(s.queue q)[k]?=some p →
        (events.flatMap (servedFrom q))[k]?=some p ∨
        (events.flatMap (servedFrom q)).length≤k ∧ t.state p=.blocked ∧
          (t.queue q)[k-(events.flatMap (servedFrom q)).length]?=some p := by
  have hs := reachable_settled hr
  obtain ⟨ht,events,joined,hl,hserved⟩ := later_relation (R := fun s t => Moves q s t)
    (fun c s t w hc hm hop => hm.trans (op_moves hc hop q)) hs (moves_quiet rfl rfl) h
  refine ⟨events,joined,hl,hserved,fun k p hk => ?_⟩
  rcases hserved.turn hk with hturn|⟨hle,hturn⟩
  · exact .inl hturn
  · refine .inr ⟨hle,?_,hturn⟩
    have hmem : p∈t.queue q := List.mem_of_getElem? hturn
    exact ht.block.reasons.blocked p (.queue q) (ht.block.queue_live q p hmem) hmem

/-- The second of two readers of a pipe leaves behind the first when a third
process writes. -/
theorem waiters_in_turn_pipe : ∃ s t l events,Later sampleMachine SwitchSucceeds s l t ∧
    s.queue (.readers 0)=[2,3] ∧ t.log=s.log++events ∧
    (events.flatMap (servedFrom (.readers 0)))[1]?=some 3 := by
  have htest : ∀ s env input,switchTest s env input=true → SwitchSucceeds s env input :=
    fun _ _ _ h => h
  obtain ⟨s,t,hr,hlater,hq⟩ := later_exists (M := sampleMachine) (fun _ => True) htest htest
    trivial sampleBoot_user [callInput 10 0x105000 0 0,forkInput 3 2,forkInput 4 3,
      callInput 11 0 0x105001 4,
      resumeInput,callInput 11 0 0x105001 4,resumeInput] [callInput 12 0 0x105001 6]
    (fun s t => s.queue (.readers 0)=[2,3] ∧ t.queue (.readers 0)=[]) (by decide +kernel)
  simp only [decide_eq_true_eq] at hq
  obtain ⟨events,joined,hl,_,hturn⟩ := waiters_in_turn hr hlater (.readers 0)
  refine ⟨s,t,_,events,hlater,hq.1,hl,?_⟩
  rcases hturn 1 3 (by rw [hq.1]; rfl) with hserved|⟨_,_,hstill⟩
  · exact hserved
  · rw [hq.2] at hstill
    cases hstill

end Runs

end Yalnix.WaitQueues
