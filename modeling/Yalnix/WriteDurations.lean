import Yalnix.TerminalOutput
import Yalnix.KernelEntries
import Yalnix.Continuations

/-!
# How long a terminal write takes

A write ends at the completion trap of its last chunk. Chunks are passed on one
for each completion trap, those of the writer first and then those of the
writes behind it. So the number of completion traps a write takes is known when
it is called, and nothing but these traps changes what is left of it.
-/

namespace Yalnix.WriteDurations

open Framework FrameTable KernelState Scheduling Ipc Terminals ProcessLifetime ProgramLoading
open Syscalls Traps KernelStart Coherence Operations OperationCoherence StepOperations
open CallOperations RunInvariants Traces KernelEntries Continuations TerminalOutput

variable {M : Machine} {allow : Label → Prop} {env : Env} {s t w : Kernel} {i j k d : ℕ}
  {p x : PcbPtr} {l : List (Env × Input)}

section Lines

/-- The writer of a terminal and those behind it. -/
def outputLine (i : ℕ) (s : Kernel) : List PcbPtr :=
  (if (s.terminals i).writer=0 then [] else [(s.terminals i).writer])++s.queue (.writeQueue i)

/-- The chunks of a write that have not been passed on. -/
def chunksLeft (M : Machine) (r : TtyRequest) : ℕ :=
  (r.writeLen-r.writeOffset+(M.terminalMaxLine-1))/M.terminalMaxLine

/-- The chunks of some writes. -/
def lineChunks (M : Machine) (tty : PcbPtr → TtyRequest) (l : List PcbPtr) : ℕ :=
  (l.map (fun p => chunksLeft M (tty p))).sum

/-- The write of a process ends with the d-th completion trap of a terminal
from here: one for the chunk that is on its way, and one for each chunk that
has not been passed on, of this write and of those in front of it. -/
def Due (M : Machine) (i : ℕ) (s : Kernel) (p : PcbPtr) (d : ℕ) : Prop :=
  ∃ k,(outputLine i s)[k]?=some p ∧ d=1+lineChunks M s.tty ((outputLine i s).take (k+1))

/-- A chunk is passed on. -/
theorem chunksLeft_next {r : TtyRequest} (h : r.writeOffset< r.writeLen) :
    chunksLeft M {r with writeOffset := r.writeOffset+chunkLen M r}+1=chunksLeft M r := by
  have hp := M.terminalMaxLine_pos
  unfold chunksLeft chunkLen
  dsimp only
  split
  · rename_i hlong
    have hsplit : r.writeLen-r.writeOffset+(M.terminalMaxLine-1)=
        r.writeLen-(r.writeOffset+M.terminalMaxLine)+(M.terminalMaxLine-1)+M.terminalMaxLine := by
      omega
    rw [hsplit,Nat.add_div_right _ hp]
  · rename_i hshort
    have hlast : r.writeLen-(r.writeOffset+(r.writeLen-r.writeOffset))+(M.terminalMaxLine-1)=
        M.terminalMaxLine-1 := by omega
    have hone : r.writeLen-r.writeOffset+(M.terminalMaxLine-1)=
        r.writeLen-r.writeOffset-1+M.terminalMaxLine := by omega
    rw [hlast,hone,Nat.add_div_right _ hp,Nat.div_eq_of_lt (by omega),Nat.div_eq_of_lt (by omega)]

/-- A request that is written has no chunk left. -/
theorem chunksLeft_done {r : TtyRequest} (h : r.writeLen≤ r.writeOffset) : chunksLeft M r=0 := by
  have hp := M.terminalMaxLine_pos
  unfold chunksLeft
  exact Nat.div_eq_of_lt (by omega)

/-- Chunks depend on the write only. -/
theorem chunksLeft_same {r r' : TtyRequest} (h : SameWrite r r') :
    chunksLeft M r=chunksLeft M r' := by
  unfold chunksLeft
  rw [h.2.1,h.2.2]

/-- So do those of a line. -/
theorem lineChunks_same {tty tty' : PcbPtr → TtyRequest} {l : List PcbPtr}
    (h : ∀ p∈l,SameWrite (tty' p) (tty p)) : lineChunks M tty' l=lineChunks M tty l := by
  unfold lineChunks
  rw [List.map_congr_left (fun p hp => chunksLeft_same (h p hp))]

/-- A process in line is the writer or queued. -/
theorem mem_line (hc : Coherent M s) (h : p∈outputLine i s) : p≠0 ∧ Writing i s p := by
  rcases List.mem_append.1 h with h|h
  · by_cases hw : (s.terminals i).writer=0
    · rw [if_pos hw] at h
      cases h
    · rw [if_neg hw,List.mem_singleton] at h
      rw [h]
      exact ⟨hw,.inl rfl⟩
  · exact ⟨hc.ready.ne_null (hc.block.queue_live _ p h),.inr h⟩

/-- A process in line is blocked. -/
theorem line_blocked (hc : Coherent M s) (h : p∈outputLine i s) : s.state p=.blocked := by
  obtain ⟨h0,hw⟩ := mem_line hc h
  exact (writing_blocked hc hw h0).2

/-- Nobody is in line at a terminal without a writer. -/
theorem line_nil (hc : Coherent M s) (hw : (s.terminals i).writer=0) : outputLine i s=[] := by
  unfold outputLine
  rw [if_pos hw,List.nil_append]
  by_contra hne
  exact hc.writer.queued i hne hw

/-- The line of a writer. -/
theorem line_cons (hw : (s.terminals i).writer≠0) :
    outputLine i s=(s.terminals i).writer::s.queue (.writeQueue i) := by
  unfold outputLine
  rw [if_neg hw,List.singleton_append]

/-- Others may join a line behind. -/
structure LineKept (i : ℕ) (s t : Kernel) : Prop where
  /-- Those who were in line are in their places. -/
  front : outputLine i s<+:outputLine i t
  /-- What is left of their writes. -/
  same : ∀ p∈outputLine i s,SameWrite (t.tty p) (s.tty p)

/-- The write ends at the same trap. -/
theorem LineKept.due (h : LineKept i s t) (hd : Due M i s p d) : Due M i t p d := by
  obtain ⟨k,hk,hd⟩ := hd
  obtain ⟨more,hmore⟩ := h.front
  have hlt := (List.getElem?_eq_some_iff.1 hk).1
  refine ⟨k,?_,?_⟩
  · rw [←hmore,List.getElem?_append_left hlt]
    exact hk
  · rw [hd,←hmore,List.take_append_of_le_length hlt,
      lineChunks_same (fun q hq => h.same q (List.mem_of_mem_take hq))]

/-- One change after the other. -/
theorem LineKept.trans (h : LineKept i s t) (h' : LineKept i t w) : LineKept i s w := by
  refine ⟨h.front.trans h'.front,fun p hp => ?_⟩
  obtain ⟨hb,hl,ho⟩ := h.same p hp
  obtain ⟨hb',hl',ho'⟩ := h'.same p (h.front.subset hp)
  exact ⟨hb'.trans hb,hl'.trans hl,ho'.trans ho⟩

/-- The line is the same. -/
theorem lineKept_same (hw : (t.terminals i).writer=(s.terminals i).writer)
    (hq : t.queue (.writeQueue i)=s.queue (.writeQueue i))
    (hr : ∀ p∈outputLine i s,SameWrite (t.tty p) (s.tty p)) : LineKept i s t := by
  refine ⟨?_,hr⟩
  unfold outputLine
  rw [hw,hq]

/-- What does not touch the terminals keeps the line of writers. -/
theorem lineKept_quiet (hw : t.terminals=s.terminals)
    (hq : t.queue (.writeQueue i)=s.queue (.writeQueue i)) (hr : t.tty=s.tty) : LineKept i s t := by
  refine lineKept_same (by rw [hw]) hq (fun p _ => ?_)
  rw [hr]
  exact ⟨rfl,rfl,rfl⟩

/-- A change of another queue keeps the line of writers. -/
theorem lineKept_queue {q : QueueAddr} {ql : List PcbPtr} (hw : t.terminals=s.terminals)
    (hq : t.queue=Function.update s.queue q ql) (hne : .writeQueue i≠q) (hr : t.tty=s.tty) :
    LineKept i s t := by
  refine lineKept_quiet hw ?_ hr
  rw [hq]
  exact Function.update_of_ne hne ..

/-- The request of a process changes that is not in line. -/
theorem lineKept_except (hc : Coherent M s) (hx : ¬Writing i s x)
    (hw : (t.terminals i).writer=(s.terminals i).writer)
    (hq : t.queue (.writeQueue i)=s.queue (.writeQueue i)) (hr : ∀ q≠x,t.tty q=s.tty q) :
    LineKept i s t := by
  refine lineKept_same hw hq (fun q hm => ?_)
  have hne : q≠x := by
    rintro rfl
    exact hx (mem_line hc hm).2
  rw [hr q hne]
  exact ⟨rfl,rfl,rfl⟩

/-- Where nobody is in line the line is kept. -/
theorem lineKept_nil (h : outputLine i s=[]) : LineKept i s t := by
  refine ⟨?_,fun p hp => ?_⟩
  · rw [h]
    exact List.nil_prefix
  · rw [h] at hp
    cases hp

end Lines

section Operations

/-- A request to another terminal. -/
theorem startWrite_line (hc : Coherent M s) (hr : Runnable s) (env : Env) (k : KernelContext)
    (buf : ℕ) (len : ℤ) (u : UserContext) (hw : (s.terminals j).writer=0) :
    LineKept i s (ttyTransmit M j (becomeWriter j (prepareWrite env k j buf len u s))) := by
  by_cases hij : j=i
  · subst hij
    exact lineKept_nil (line_nil hc hw)
  · have hwr : ((becomeWriter j (prepareWrite env k j buf len u s)).terminals j).writer=
        s.currentProcess := by
      dsimp only [becomeWriter]
      rw [Function.update_self]
      rfl
    refine lineKept_except (x := s.currentProcess) hc (not_writing hc hr) ?_ rfl (fun q hq => ?_)
    · dsimp only [ttyTransmit,becomeWriter,prepareWrite]
      rw [Function.update_of_ne (Ne.symm hij),Function.update_of_ne (Ne.symm hij)]
    · dsimp only [ttyTransmit]
      rw [hwr,Function.update_of_ne hq]
      exact Function.update_of_ne hq ..

/-- A request joins a line behind. -/
theorem queueWrite_line (hc : Coherent M s) (hr : Runnable s) (env : Env) (k : KernelContext)
    (buf : ℕ) (len : ℤ) (u : UserContext) :
    LineKept i s (queueWriter j (prepareWrite env k j buf len u s)) := by
  have htty : ∀ q≠s.currentProcess,
      (queueWriter j (prepareWrite env k j buf len u s)).tty q=s.tty q :=
    fun q hq => Function.update_of_ne hq ..
  by_cases hij : j=i
  · subst hij
    refine ⟨⟨[s.currentProcess],?_⟩,fun q hm => ?_⟩
    · unfold outputLine
      dsimp only [queueWriter,prepareWrite]
      rw [Function.update_self,List.append_assoc]
      rfl
    · have hne : q≠s.currentProcess := by
        rintro rfl
        exact not_writing hc hr (mem_line hc hm).2
      rw [htty q hne]
      exact ⟨rfl,rfl,rfl⟩
  · exact lineKept_except (x := s.currentProcess) hc (not_writing hc hr) rfl
      (Function.update_of_ne (by simpa using Ne.symm hij) ..) htty

/-- Only a completion trap of the terminal itself shortens its line or passes
chunks on. -/
theorem op_line {b : Bool} (hallow : ∀ log,¬allow (.completes i log)) (hc : Coherent M s)
    (hop : Op M allow b s t) : LineKept i s t := by
  have hother : ∀ {j},allow (.completes j s.log) → j≠i := by
    rintro j ho rfl
    exact hallow _ ho
  have hfresh : ∀ {c},c≠0 → s.live c=false → ¬Writing i s c :=
    fun h0 hl => dead_not_writing hc h0 hl
  cases hop with
  | dispatch e hs =>
    have he := dispatchNext_eq hc hs
    rw [he]
    exact lineKept_quiet rfl rfl rfl
  | readRequest j buf len =>
    exact lineKept_same rfl rfl (fun p _ => request_same (by exact ⟨rfl,rfl,rfl⟩) p)
  | writeDone j len hr hk =>
    exact lineKept_except (x := s.currentProcess) hc (not_writing hc hr) rfl rfl
      (fun q hq => Function.update_of_ne hq ..)
  | forkUndone e c pfns pt m₁ m u ha hcp =>
    obtain ⟨h0,hl⟩ := callocPcb_fresh hcp
    rw [destroyed_child hc h0 hl]
    exact lineKept_except (x := c) hc (hfresh h0 hl) rfl rfl
      (fun q hq => Function.update_of_ne hq ..)
  | spawn e caller c pfns pt m₁ m u hb hcp =>
    obtain ⟨h0,hl⟩ := callocPcb_fresh hcp
    rw [spawn_eq]
    exact lineKept_except (x := c) hc (hfresh h0 hl) rfl rfl
      (fun q hq => Function.update_of_ne hq ..)
  | collect statusPtr c ha hch hz =>
    rw [collectChild_eq hc ha statusPtr hch hz]
    exact lineKept_quiet rfl rfl rfl
  | handOff j l w rest u => exact lineKept_queue rfl rfl (by simp) rfl
  | wake q w rest u hn =>
    refine lineKept_queue rfl rfl ?_ rfl
    rcases hn with ⟨_,rfl⟩|⟨_,rfl⟩
    · simp
    · simp
  | blockPipe id => exact lineKept_queue rfl rfl (by simp) rfl
  | blockLock id => exact lineKept_queue rfl rfl (by simp) rfl
  | blockCvar id => exact lineKept_queue rfl rfl (by simp) rfl
  | blockRead j => exact lineKept_queue rfl rfl (by simp) rfl
  | openPipe e j => exact lineKept_queue rfl rfl (by simp) rfl
  | openLock j => exact lineKept_queue rfl rfl (by simp) rfl
  | openCvar j => exact lineKept_queue rfl rfl (by simp) rfl
  | startWrite e j buf len k u hk hb ht hl hw =>
    exact startWrite_line hc hb.toRunnable e k buf len u hw
  | queueWrite e j buf len k u hk hb => exact queueWrite_line hc hb.toRunnable e k buf len u
  | takeHanded j line =>
    have hsame := terminal_same (takeBytes_keeps line
      (lineCount line (s.tty s.currentProcess).readLen) (v := s.terminals j) rfl rfl).1
      (takeBytes_keeps line _ rfl rfl).2 i
    exact lineKept_same hsame.1 rfl (fun p _ => request_same (by exact ⟨rfl,rfl,rfl⟩) p)
  | takeLine j line v ha hn =>
    obtain ⟨hv,hb⟩ := ttyNextLine_writer hn
    have hsame := terminal_same (takeBytes_keeps line
      (lineCount line (s.tty s.currentProcess).readLen) hv hb).1 (takeBytes_keeps line _ hv hb).2 i
    exact lineKept_same hsame.1 rfl (fun p _ => request_same (by exact ⟨rfl,rfl,rfl⟩) p)
  | deliver j line r rest hl hq =>
    have hqueue : Function.update s.queue (.readQueue j) rest (.writeQueue i)=
        s.queue (.writeQueue i) := Function.update_of_ne (by simp) ..
    exact lineKept_same rfl hqueue (fun p _ => request_same (by exact ⟨rfl,rfl,rfl⟩) p)
  | enqueue j line =>
    have hsame := terminal_same (j := j) (v := {s.terminals j with
      inputQueue := (s.terminals j).inputQueue++[line]}) rfl rfl i
    exact lineKept_same hsame.1 rfl (fun _ _ => ⟨rfl,rfl,rfl⟩)
  | transmitSpurious j hw ho =>
    exact lineKept_same (congrArg TtyState.writer (Function.update_of_ne (hother ho).symm ..)) rfl
      (fun _ _ => ⟨rfl,rfl,rfl⟩)
  | transmitMore j hw hf ho =>
    have hij := hother ho
    have hterm : (transmitDone j s).terminals j={s.terminals j with busy := false} :=
      Function.update_self ..
    refine lineKept_except (x := (s.terminals j).writer) hc (writer_not_writing hc hij hw) ?_ rfl
      (fun q hq => ?_)
    · dsimp only [ttyTransmit,transmitDone]
      rw [Function.update_of_ne (Ne.symm hij),Function.update_of_ne (Ne.symm hij)]
    · dsimp only [ttyTransmit]
      rw [hterm]
      exact Function.update_of_ne hq ..
  | transmitLast j u hw hf hq ho =>
    exact lineKept_same (congrArg TtyState.writer (Function.update_of_ne (hother ho).symm ..)) rfl
      (fun _ _ => ⟨rfl,rfl,rfl⟩)
  | transmitNext j u w rest hw hf hq ho =>
    have hij := hother ho
    have hterm : ((nextWriter j w rest (releaseWriter j u s)).terminals j).writer=w := by
      dsimp only [nextWriter]
      rw [Function.update_self]
    refine lineKept_except (x := w) hc
      (queued_not_writing hc hij (by rw [hq]; exact List.mem_cons_self)) ?_
      (Function.update_of_ne (by simpa using Ne.symm hij) ..) (fun q hqw => ?_)
    · dsimp only [ttyTransmit,nextWriter,releaseWriter,markReady]
      rw [Function.update_of_ne (Ne.symm hij),Function.update_of_ne (Ne.symm hij),
        Function.update_of_ne (Ne.symm hij)]
    · dsimp only [ttyTransmit]
      rw [hterm]
      exact Function.update_of_ne hqw ..
  | _ => exact lineKept_quiet rfl rfl rfl

/-- Sequences of operations keep the line until a chunk completes. -/
theorem ops_line (hallow : ∀ log,¬allow (.completes i log)) (hc : Coherent M s)
    (h : Ops M allow s t) : LineKept i s t := by
  have hall : Coherent M t ∧ LineKept i s t := by
    induction h with
    | refl => exact ⟨hc,lineKept_quiet rfl rfl rfl⟩
    | tail _ hop ih =>
      obtain ⟨b,hop⟩ := hop
      exact ⟨op_coherent ih.1 hop,ih.2.trans (op_line hallow ih.1 hop)⟩
  exact hall.2

end Operations

section Completions

variable {u : UserContext} {rest : List PcbPtr}

/-- The next chunk of the writer follows. -/
theorem trapTtyTransmit_more (hv : ttyValid M u.code=true) (hi : u.code.toNat=i)
    (hw : (s.terminals i).writer≠0)
    (hf : (s.tty (s.terminals i).writer).writeOffset<(s.tty (s.terminals i).writer).writeLen) :
    trapTtyTransmit M u s=ttyTransmit M i (transmitDone i s) := by
  subst hi
  unfold trapTtyTransmit
  rw [if_neg (by rw [hv]; decide),if_neg hw,if_neg (by omega)]
  unfold ttyStartWrite startWriteFrom
  rw [if_neg (by simp [transmitDone]),if_neg (by simpa [transmitDone] using hw),
    if_neg (by simpa [transmitDone] using hf)]

/-- The writer is done and goes; the first chunk of the next write follows, if there is one. -/
theorem trapTtyTransmit_done (hc : Coherent M s) (hv : ttyValid M u.code=true)
    (hi : u.code.toNat=i) (hw : (s.terminals i).writer≠0)
    (hf : (s.tty (s.terminals i).writer).writeLen≤(s.tty (s.terminals i).writer).writeOffset) :
    ∃ c,(s.queue (.writeQueue i)=[] ∧ trapTtyTransmit M u s=releaseWriter i c s) ∨
      ∃ w rest,s.queue (.writeQueue i)=w::rest ∧
        trapTtyTransmit M u s=ttyTransmit M i (nextWriter i w rest (releaseWriter i c s)) := by
  subst hi
  refine ⟨(s.userContext (s.terminals u.code.toNat).writer).setResult
    (s.tty (s.terminals u.code.toNat).writer).writeLen,?_⟩
  unfold trapTtyTransmit
  rw [if_neg (by rw [hv]; decide),if_neg hw,if_pos hf,completeWriter_eq hc hw]
  unfold ttyStartWrite startWriteFrom
  rw [if_neg (by simp [releaseWriter,markReady]),if_pos (by simp [releaseWriter,markReady])]
  cases hq : s.queue (.writeQueue u.code.toNat) with
  | nil =>
    refine .inl ⟨rfl,?_⟩
    simp only [releaseWriter,markReady,hq]
  | cons w rest =>
    have hp := hc.writer.pending _ w (by rw [hq]; exact List.mem_cons_self)
    refine .inr ⟨w,rest,rfl,?_⟩
    have hq' : (releaseWriter u.code.toNat
        ((s.userContext (s.terminals u.code.toNat).writer).setResult
          (s.tty (s.terminals u.code.toNat).writer).writeLen) s).queue
        (.writeQueue u.code.toNat)=w::rest := hq
    rw [hq']
    dsimp only
    split
    · rename_i hle
      exact absurd hp (Nat.not_lt.2 hle)
    · rfl

/-- The chunks up to a process, when one of the first write is passed on. -/
theorem lineChunks_next {tty tty' : PcbPtr → TtyRequest} {v : PcbPtr} {l : List PcbPtr}
    (hf : (tty v).writeOffset<(tty v).writeLen)
    (hv : tty' v={tty v with writeOffset := (tty v).writeOffset+chunkLen M (tty v)})
    (hr : ∀ q∈l,tty' q=tty q) :
    lineChunks M tty' ((v::l).take (k+1))+1=lineChunks M tty ((v::l).take (k+1)) := by
  have hrest : lineChunks M tty' (l.take k)=lineChunks M tty (l.take k) :=
    lineChunks_same (fun q hq => by
      rw [hr q (List.mem_of_mem_take hq)]
      exact ⟨rfl,rfl,rfl⟩)
  have hone : chunksLeft M (tty' v)+1=chunksLeft M (tty v) := by
    rw [hv]
    exact chunksLeft_next hf
  unfold lineChunks at hrest ⊢
  rw [List.take_succ_cons,List.map_cons,List.map_cons,List.sum_cons,List.sum_cons,hrest]
  omega

/-- The line of a terminal that passes a chunk on. -/
theorem line_transmit (hw : (s.terminals i).writer≠0) :
    outputLine i (ttyTransmit M i s)=(s.terminals i).writer::s.queue (.writeQueue i) := by
  have hterm : ((ttyTransmit M i s).terminals i).writer=(s.terminals i).writer := by
    dsimp only [ttyTransmit]
    rw [Function.update_self]
  rw [line_cons (by rwa [hterm]),hterm]
  rfl

/-- The chunks of that line. -/
theorem lineChunks_transmit
    (hf : (s.tty (s.terminals i).writer).writeOffset<(s.tty (s.terminals i).writer).writeLen)
    (hn : (s.terminals i).writer∉s.queue (.writeQueue i)) (k : ℕ) :
    lineChunks M (ttyTransmit M i s).tty
        (((s.terminals i).writer::s.queue (.writeQueue i)).take (k+1))+1=
      lineChunks M s.tty (((s.terminals i).writer::s.queue (.writeQueue i)).take (k+1)) := by
  refine lineChunks_next hf (Function.update_self ..) (fun q hq => ?_)
  have hne : q≠(s.terminals i).writer := by
    rintro rfl
    exact hn hq
  exact Function.update_of_ne hne ..

/-- A completion trap either ends the write or brings its end one trap nearer. -/
theorem completed_due (hc : Coherent M s) (hv : ttyValid M u.code=true) (hi : u.code.toNat=i)
    (hd : Due M i s p d) :
    (d=1 ∧ (trapTtyTransmit M u s).state p=.ready ∧ p∈(trapTtyTransmit M u s).readyQueue) ∨
      1<d ∧ Due M i (trapTtyTransmit M u s) p (d-1) := by
  obtain ⟨k,hk,hd⟩ := hd
  have hw : (s.terminals i).writer≠0 := by
    intro hw
    rw [line_nil hc hw] at hk
    cases hk
  have hline := line_cons hw
  rw [hline] at hk hd
  by_cases hf : (s.tty (s.terminals i).writer).writeOffset<(s.tty (s.terminals i).writer).writeLen
  · rw [trapTtyTransmit_more hv hi hw hf]
    have hwr : ((transmitDone i s).terminals i).writer=(s.terminals i).writer := by
      dsimp only [transmitDone]
      rw [Function.update_self]
    have hchunks := lineChunks_transmit (M := M) (s := transmitDone i s) (i := i)
      (by rw [hwr]; exact hf) (by rw [hwr]; exact writer_unqueued hc hw _) k
    have hline' := line_transmit (M := M) (s := transmitDone i s) (i := i) (by rwa [hwr])
    have htty : (transmitDone i s).tty=s.tty := rfl
    have hqueue : (transmitDone i s).queue=s.queue := rfl
    rw [hwr,hqueue] at hchunks hline'
    rw [htty] at hchunks
    refine .inr ⟨by omega,k,?_,?_⟩
    · rw [hline']
      exact hk
    · rw [hline']
      omega
  · have hzero : chunksLeft M (s.tty (s.terminals i).writer)=0 := chunksLeft_done (by omega)
    have hskip : lineChunks M s.tty (((s.terminals i).writer::s.queue (.writeQueue i)).take (k+1))=
        lineChunks M s.tty ((s.queue (.writeQueue i)).take k) := by
      unfold lineChunks
      rw [List.take_succ_cons,List.map_cons,List.sum_cons,hzero,Nat.zero_add]
    rw [hskip] at hd
    obtain ⟨c,⟨hq,he⟩|⟨w,rest,hq,he⟩⟩ := trapTtyTransmit_done hc hv hi hw (by omega)
    · rw [he]
      rw [hq] at hk hd
      cases k with
      | zero =>
        injection hk with hk
        rw [←hk]
        exact .inl ⟨hd,Function.update_self ..,List.mem_append_right _ (List.mem_singleton.2 rfl)⟩
      | succ k => cases hk
    · rw [he]
      rw [hq] at hk hd
      cases k with
      | zero =>
        injection hk with hk
        rw [←hk]
        exact .inl ⟨hd,Function.update_self ..,List.mem_append_right _ (List.mem_singleton.2 rfl)⟩
      | succ k =>
        have hmem : w∈s.queue (.writeQueue i) := by
          rw [hq]
          exact List.mem_cons_self
        have h0 : w≠0 := hc.ready.ne_null (hc.block.queue_live _ w hmem)
        have hwr : ((nextWriter i w rest (releaseWriter i c s)).terminals i).writer=w := by
          dsimp only [nextWriter]
          rw [Function.update_self]
        have hqueue : (nextWriter i w rest (releaseWriter i c s)).queue (.writeQueue i)=rest :=
          Function.update_self ..
        have htty : (nextWriter i w rest (releaseWriter i c s)).tty=s.tty := rfl
        have hnodup : (w::rest).Nodup := by
          rw [←hq]
          exact hc.block.queue_nodup _
        have hpend := hc.writer.pending i w hmem
        have hline' := line_transmit (M := M) (s := nextWriter i w rest (releaseWriter i c s))
          (i := i) (by rwa [hwr])
        have hchunks := lineChunks_transmit (M := M)
          (s := nextWriter i w rest (releaseWriter i c s)) (i := i) (by rwa [hwr,htty])
          (by rw [hwr,hqueue]; exact (List.nodup_cons.1 hnodup).1) k
        rw [hwr,hqueue] at hchunks hline'
        rw [htty] at hchunks
        refine .inr ⟨by omega,k,?_,?_⟩
        · rw [hline']
          exact hk
        · rw [hline']
          omega

end Completions

section Calls

variable {u : UserContext}

/-- The input is a completion trap of a terminal. -/
def Completes (M : Machine) (i : ℕ) : Input → Prop
  | .trap u => u.vector=.ttyTransmit ∧ ttyValid M u.code=true ∧ u.code.toNat=i
  | .resume => False

instance (M : Machine) (i : ℕ) (input : Input) : Decidable (Completes M i input) :=
  match input with
  | .trap u => inferInstanceAs
      (Decidable (u.vector=.ttyTransmit ∧ ttyValid M u.code=true ∧ u.code.toNat=i))
  | .resume => inferInstanceAs (Decidable False)

/-- The completion traps of a terminal among some inputs. -/
def transmitTraps (M : Machine) (i : ℕ) (l : List (Env × Input)) : ℕ :=
  l.countP (fun x => decide (Completes M i x.2))

/-- The completion traps that those in line and one more write behind them take
before the latter begins. -/
def backlog (M : Machine) (i : ℕ) (s : Kernel) : ℕ :=
  if (s.terminals i).writer=0 then 0 else 1+lineChunks M s.tty (outputLine i s)

/-- The chunks of a write. -/
def chunkCount (M : Machine) (len : ℤ) : ℕ :=
  (len.toNat+(M.terminalMaxLine-1))/M.terminalMaxLine

/-- The trap is a call of TtyWrite that passes all checks. -/
structure Accepted (M : Machine) (env : Env) (s : Kernel) (u : UserContext) (i : ℕ) : Prop where
  /-- It is a call. -/
  vector : u.vector=.kernel
  /-- The registers ask for TtyWrite. -/
  call : M.syscallOf u.code=.ttyWrite
  /-- The first argument is the number of a terminal. -/
  tty : ttyValid M (u.int 0)=true
  /-- It is this one. -/
  number : (u.int 0).toNat=i
  /-- There are bytes to write. -/
  len : 0<u.int 2
  /-- There is a buffer. -/
  buf : u.ptr 1≠0
  /-- Idle does not write. -/
  caller : s.currentProcess≠s.idleProcess
  /-- The kernel gets a copy of the buffer. -/
  copy : env.malloc 0=true

/-- The scheduler behind a blocked write. -/
theorem scheduled_line (hc : Coherent M s) (hs : env.switchOk=true)
    (hu : s.cpu=.user ∨ s.cpu=.kernel)
    (hk : (s.kernelContext s.currentProcess).point≠.executing) :
    LineKept i s (processSchedule M env s) := by
  have hops : Ops M (fun a => ∀ log,a≠.completes i log) s (processSchedule M env s) :=
    (processSchedule_done hc hs hu hk (fun _ _ h => by cases h)).1
  exact ops_line (fun log h => h log rfl) hc hops

/-- The request of a write that has just been called. -/
theorem prepared_request (env : Env) (k : KernelContext) (buf : ℕ) (len : ℤ) (u : UserContext) :
    (prepareWrite env k i buf len u s).tty s.currentProcess={s.tty s.currentProcess with
      ttyId := i, writeBuf := fun x => env.mem (buf+x), writeLen := len.toNat, writeOffset := 0} :=
  Function.update_self ..

/-- A write to an idle terminal. -/
theorem start_due (hc : Coherent M s) (env : Env) (k : KernelContext) (buf : ℕ) {len : ℤ}
    (u : UserContext) (hl : 0<len) (hw : (s.terminals i).writer=0) :
    Due M i (ttyTransmit M i (becomeWriter i (prepareWrite env k i buf len u s))) s.currentProcess
      (chunkCount M len) := by
  have h0 : s.currentProcess≠0 := hc.ready.ne_null hc.ready.current_live
  have hq : s.queue (.writeQueue i)=[] := by
    by_contra hne
    exact hc.writer.queued i hne hw
  have hwr : ((becomeWriter i (prepareWrite env k i buf len u s)).terminals i).writer=
      s.currentProcess := by
    dsimp only [becomeWriter]
    rw [Function.update_self]
    rfl
  have hqueue : (becomeWriter i (prepareWrite env k i buf len u s)).queue (.writeQueue i)=[] := hq
  have hreq := prepared_request (s := s) (i := i) env k buf len u
  have htty : (becomeWriter i (prepareWrite env k i buf len u s)).tty=
      (prepareWrite env k i buf len u s).tty := rfl
  have hline := line_transmit (M := M) (s := becomeWriter i (prepareWrite env k i buf len u s))
    (i := i) (by rwa [hwr])
  have hchunks := lineChunks_transmit (M := M)
    (s := becomeWriter i (prepareWrite env k i buf len u s)) (i := i)
    (by rw [hwr,htty,hreq]; dsimp only; omega) (by rw [hqueue]; exact List.not_mem_nil) 0
  rw [hwr,hqueue] at hline hchunks
  refine ⟨0,by rw [hline]; rfl,?_⟩
  have hall : lineChunks M (becomeWriter i (prepareWrite env k i buf len u s)).tty
      ([s.currentProcess].take (0+1))=chunkCount M len := by
    rw [htty]
    unfold lineChunks
    rw [List.take_succ_cons,List.take_zero,List.map_singleton,List.sum_singleton,hreq]
    rfl
  rw [hline]
  omega

/-- A write to a terminal with a writer. -/
theorem queue_due (hc : Coherent M s) (hr : Runnable s) (env : Env) (k : KernelContext) (buf : ℕ)
    (len : ℤ) (u : UserContext) :
    Due M i (queueWriter i (prepareWrite env k i buf len u s)) s.currentProcess
      (1+lineChunks M s.tty (outputLine i s)+chunkCount M len) := by
  have hline : outputLine i (queueWriter i (prepareWrite env k i buf len u s))=
      outputLine i s++[s.currentProcess] := by
    unfold outputLine
    dsimp only [queueWriter,prepareWrite]
    rw [Function.update_self,List.append_assoc]
    rfl
  have hkept : LineKept i s (queueWriter i (prepareWrite env k i buf len u s)) :=
    queueWrite_line hc hr env k buf len u
  have hreq := prepared_request (s := s) (i := i) env k buf len u
  refine ⟨(outputLine i s).length,?_,?_⟩
  · rw [hline,List.getElem?_append_right (Nat.le_refl _),Nat.sub_self]
    rfl
  · have hlen : (outputLine i s++[s.currentProcess]).length≤(outputLine i s).length+1 := by
      rw [List.length_append]
      exact Nat.le_refl _
    rw [hline,List.take_of_length_le hlen]
    have hfront := lineChunks_same (M := M) hkept.same
    unfold lineChunks at hfront ⊢
    rw [List.map_append,List.sum_append,hfront,List.map_singleton,List.sum_singleton]
    have hlast : chunksLeft M ((queueWriter i (prepareWrite env k i buf len u s)).tty
        s.currentProcess)=chunkCount M len := by
      change chunksLeft M ((prepareWrite env k i buf len u s).tty s.currentProcess)=_
      rw [hreq]
      rfl
    rw [hlast]
    omega

/-- When the write that is called ends. -/
theorem call_due (hset : Settled M s) (hu : s.cpu=.user) (hs : env.switchOk=true)
    (ha : Accepted M env s u i) :
    Due M i (kernelStep M env s (.trap u)) s.currentProcess
      (backlog M i s+chunkCount M (u.int 2)) := by
  obtain ⟨c,hsave⟩ := saveContext_eq (s := s) u
  have hcalm : Calm M (fun _ => True) s (saveContext u s) := saveContext_calm u
  obtain ⟨hc,hact⟩ := calm_keeps hset.toCoherent (hset.user hu) hcalm
  have h0 : s.currentProcess≠0 := hset.ready.ne_null hset.ready.current_live
  have hidle : ¬(s.currentProcess=0 ∨ s.currentProcess=s.idleProcess) := not_or.2 ⟨h0,ha.caller⟩
  rw [hsave] at hc hact
  have hmb : MayBlock {s with userContext := c} := mayBlock hact hidle
  have hlt : i<M.numTerminals := by
    rw [←ha.number]
    exact ttyValid_lt (by rw [ha.tty]; decide)
  have hl := ha.len
  rw [trap_step env ha.vector (by rw [ha.call]; decide)]
  dsimp only [stepFlow,callFlow]
  rw [ha.call,hsave]
  dsimp only [sysTtyWrite]
  rw [if_neg (by rw [ha.tty]; simp [ha.buf]; omega),if_neg (by omega),if_neg hidle,
    if_neg (by rw [ha.copy]; decide),ha.number]
  split
  · rename_i hw
    rw [startWrite_eq (s := {s with userContext := c}) h0 hl hw.2]
    have hback : backlog M i s=0 := if_pos hw.1
    rw [hback,Nat.zero_add]
    have hdue := start_due (M := M) hc env ⟨s.currentProcess,.ttyWrite i (u.int 2)⟩ (u.ptr 1) u hl
      hw.1
    have hop : Op M (fun _ => True) false {s with userContext := c} _ :=
      .startWrite env i (u.ptr 1) (u.int 2) ⟨s.currentProcess,.ttyWrite i (u.int 2)⟩ u rfl hmb hlt
        hl hw.1 hw.2
    refine (scheduled_line (op_coherent hc hop) hs (.inl hu) ?_).due hdue
    dsimp only [ttyTransmit,becomeWriter,prepareWrite]
    rw [Function.update_self]
    exact KernelPoint.noConfusion
  · rename_i hw
    have hne : (s.terminals i).writer≠0 := fun h =>
      hw ⟨h,Bool.eq_false_iff.2 fun hb => (hset.writer.busy i).1 hb h⟩
    have hback : backlog M i s=1+lineChunks M s.tty (outputLine i s) := if_neg hne
    rw [hback]
    have hdue := queue_due (M := M) (i := i) hc hact.toRunnable env
      ⟨s.currentProcess,.ttyWrite i (u.int 2)⟩ (u.ptr 1) (u.int 2) u
    have hop : Op M (fun _ => True) false {s with userContext := c} _ :=
      .queueWrite env i (u.ptr 1) (u.int 2) ⟨s.currentProcess,.ttyWrite i (u.int 2)⟩ u rfl hmb hlt
        hl hw
    refine (scheduled_line (op_coherent hc hop) hs (.inl hu) ?_).due hdue
    dsimp only [queueWriter,prepareWrite]
    rw [Function.update_self]
    exact KernelPoint.noConfusion

end Calls

section Runs

variable {u : UserContext}

/-- Every other step leaves what is left of a write. -/
theorem kernelStep_line (hs : Settled M s) (hsw : env.switchOk=true) {input : Input}
    (he : input.Enabled s) (hn : ¬Completes M i input) :
    LineKept i s (kernelStep M env s input) := by
  have hal : StepAllowed M (fun a => ∀ log,a≠.completes i log) s env input := by
    rintro a ha log rfl
    cases ha with
    | completes u hv hc => exact hn ⟨hv,hc,rfl⟩
  exact ops_line (fun log h => h log rfl) hs.toCoherent (kernelStep_done hs hsw he hal).1

/-- A step that is a completion trap. -/
theorem kernelStep_completes {input : Input} (hi : Completes M i input) :
    ∃ u,ttyValid M u.code=true ∧ u.code.toNat=i ∧
      kernelStep M env s input=returnToUser u (trapTtyTransmit M u s) := by
  cases input with
  | resume => exact hi.elim
  | trap u =>
    obtain ⟨hv,hc,hu⟩ := hi
    refine ⟨u,hc,hu,?_⟩
    dsimp only [kernelStep,trap]
    rw [hv]

/-- What is left of a write along a run. -/
theorem later_due (hr : Reachable M s) (hd : Due M i s p d) (h : Later M SwitchSucceeds s l t)
    (hn : transmitTraps M i l<d) : Due M i t p (d-transmitTraps M i l) := by
  induction h with
  | refl => exact hd
  | @step l t env input hprev he hok ih =>
    have hset := reachable_settled (hprev.run hr)
    have hsnoc : transmitTraps M i (l++[(env,input)])=
        transmitTraps M i l+if Completes M i input then 1 else 0 := by
      unfold transmitTraps
      rw [List.countP_append,List.countP_singleton]
      simp only [decide_eq_true_eq]
    rw [hsnoc] at hn ⊢
    by_cases hc : Completes M i input
    · rw [if_pos hc] at hn ⊢
      obtain ⟨u,hv,hi,he⟩ := @kernelStep_completes M env t i input hc
      rw [he]
      rcases completed_due hset.toCoherent hv hi (ih (by omega)) with ⟨hone,_⟩|⟨_,hdue⟩
      · omega
      · rw [Nat.sub_sub] at hdue
        exact hdue
    · rw [if_neg hc,Nat.add_zero] at hn ⊢
      exact (kernelStep_line hset hok he hc).due (ih hn)

/-- In every run a TtyWrite of len bytes takes exactly as many completion traps
of its terminal as the writes in front of it still take, and one for each
chunk of its own: until then the process is blocked, and the last of these
traps makes it ready, whatever else happens. -/
theorem write_completes (hr : Reachable M s) (hu : s.cpu=.user) (hs : env.switchOk=true)
    (u : UserContext) (ha : Accepted M env s u i)
    (h : Later M SwitchSucceeds (kernelStep M env s (.trap u)) l t)
    (hn : transmitTraps M i l<backlog M i s+chunkCount M (u.int 2)) :
    t.state s.currentProcess=.blocked ∧
      ∀ env' input,Completes M i input →
        transmitTraps M i l+1=backlog M i s+chunkCount M (u.int 2) →
          (kernelStep M env' t input).state s.currentProcess=.ready ∧
            s.currentProcess∈(kernelStep M env' t input).readyQueue := by
  have hcall := call_due (reachable_settled hr) hu hs ha
  have hr' : Reachable M (kernelStep M env s (.trap u)) := .step env (.trap u) hr hu hs
  have hdue := later_due hr' hcall h hn
  have hc := (reachable_settled (h.run hr')).toCoherent
  constructor
  · obtain ⟨k,hk,_⟩ := hdue
    exact line_blocked hc (List.mem_of_getElem? hk)
  · intro env' input hi hlast
    obtain ⟨v,hv,hvi,he⟩ := @kernelStep_completes M env' t i input hi
    rw [he]
    rcases completed_due hc hv hvi hdue with ⟨_,hready⟩|⟨hlt,_⟩
    · exact hready
    · omega

/-- A write of 1500 bytes behind one of three bytes takes three completion traps. -/
theorem write_completes_queued : ∃ s t l,Later sampleMachine SwitchSucceeds s l t ∧
    transmitTraps sampleMachine 0 l=2 ∧ t.state 3=.blocked ∧
    (kernelStep sampleMachine (sampleEnv 0 0) t transmitInput.2).state 3=.ready := by
  have haccept : ∀ s : Kernel,s.currentProcess≠s.idleProcess →
      Accepted sampleMachine (sampleEnv 0 0) s (sampleContext .kernel 9 0 0x105010 1500) 0 :=
    fun s hc => ⟨rfl,by decide,by decide,by decide,by decide,by decide,hc,rfl⟩
  obtain ⟨s,hr,hq⟩ := replay_reachable sampleBoot_user
    [forkInput 3 2,callInput 9 0 0x105010 3,resumeInput]
    (fun s => s.cpu=.user ∧ s.currentProcess=3 ∧ s.idleProcess=1 ∧ backlog sampleMachine 0 s=1 ∧
      (replay sampleMachine switchTest [resumeInput,transmitInput,transmitInput]
        (kernelStep sampleMachine (sampleEnv 0 0) s (callInput 9 0 0x105010 1500).2)).isSome=true)
    (by decide +kernel)
  simp only [decide_eq_true_eq] at hq
  obtain ⟨hu,hc,hi,hb,ht⟩ := hq
  obtain ⟨t,ht⟩ := Option.isSome_iff_exists.1 ht
  have hlater : Later sampleMachine SwitchSucceeds _ _ t := replay_later (fun _ _ _ h => h) ht
  have hlen : (sampleContext .kernel 9 0 0x105010 1500).int 2=1500 := by decide
  have hd : backlog sampleMachine 0 s+chunkCount sampleMachine 1500=3 := by
    rw [hb]
    decide
  have hn : transmitTraps sampleMachine 0 [resumeInput,transmitInput,transmitInput]=2 := by decide
  obtain ⟨hblocked,hready⟩ := write_completes hr hu rfl _ (haccept s (by rw [hc,hi]; decide)) hlater
    (by rw [hlen,hd,hn]; decide)
  rw [hc] at hblocked hready
  exact ⟨_,t,_,hlater,hn,hblocked,(hready (sampleEnv 0 0) transmitInput.2 ⟨rfl,by decide,rfl⟩
    (by rw [hlen,hd,hn])).1⟩

end Runs

end Yalnix.WriteDurations
